import Bootty.Mux.PaneLayoutCanonical
import Mathlib.Tactic.Ring

/-!
# Normalisation keeps the geometry

What `normalize` (`crates/bootty-mux/src/pane_layout.rs:54–106`) does to an arbitrary tree,
read with exact weights. A raw tree has a geometry of its own: at every split each child
gets the share of the extent that its weight is of the split's total. Collapsing a
one-child split and splicing a child split of the same direction are then two laws of
slicing a rectangle, and `PaneLayout::rects` without a gap draws the slices.
-/

namespace Bootty.Terminal.SurfaceRect

open Bootty.Base

/-- The part of a rectangle that begins at the fraction `offset` of its extent along one axis
and covers the fraction `share` of it. -/
def slice (horizontal : Bool) (area : SurfaceRect ℚ) (offset share : ℚ) : SurfaceRect ℚ :=
  if horizontal then
    fromMinSize (area.minX + area.width * offset) area.minY (area.width * share) area.height
  else
    fromMinSize area.minX (area.minY + area.height * offset) area.width (area.height * share)

/-- The whole extent is the rectangle itself. -/
@[simp] theorem slice_zero_one (horizontal : Bool) (area : SurfaceRect ℚ) :
    slice horizontal area 0 1 = area := by
  cases horizontal <;> simp [slice, fromMinSize, width, height]

/-- A slice of a slice along the same axis is a slice of the whole. -/
theorem slice_slice (horizontal : Bool) (area : SurfaceRect ℚ) (o s o' s' : ℚ) :
    slice horizontal (slice horizontal area o s) o' s' =
      slice horizontal area (o + s * o') (s * s') := by
  cases horizontal
  · simp only [slice, fromMinSize, width, height, Bool.false_eq_true, if_false, mk.injEq]
    exact ⟨trivial, by ring, by ring, by ring⟩
  · simp only [slice, fromMinSize, width, height, if_true, mk.injEq]
    exact ⟨by ring, trivial, by ring, by ring⟩

/-- The extent of a rectangle along one axis. -/
def extent (horizontal : Bool) (area : SurfaceRect ℚ) : ℚ :=
  if horizontal then area.width else area.height

/-- A slice has the given share of the extent along its axis and all of it along the other. -/
theorem extent_slice (horizontal : Bool) (area : SurfaceRect ℚ) (o s : ℚ) (axis : Bool) :
    extent axis (slice horizontal area o s) =
      if axis = horizontal then extent axis area * s else extent axis area := by
  cases horizontal <;> cases axis <;> simp [slice, extent, fromMinSize, width, height]

end Bootty.Terminal.SurfaceRect

namespace Bootty.Mux
namespace MuxPaneLayout

open Bootty.Base Bootty.Terminal

/-! ### What is rejected -/

/-- Some split at some depth has no children, a weight count that is not its child count, or a
weight that is not positive. -/
inductive Malformed : MuxPaneLayout ℚ → Prop
  | here (d : MuxPaneSplitDirection) (ws : List ℚ) (children : List (MuxPaneLayout ℚ))
      (bad : children = [] ∨ ws.length ≠ children.length ∨ ∃ w ∈ ws, w ≤ 0) :
      Malformed (.split d ws children)
  | child (d : MuxPaneSplitDirection) (ws : List ℚ) (children : List (MuxPaneLayout ℚ))
      (c : MuxPaneLayout ℚ) (mem : c ∈ children) (bad : Malformed c) :
      Malformed (.split d ws children)

private theorem weighted_or_malformed (t : MuxPaneLayout ℚ) : Weighted t ∨ Malformed t := by
  induction t using induct with
  | pane id => exact .inl (.pane id)
  | split d ws cs ih =>
    by_cases hbad : cs = [] ∨ ws.length ≠ cs.length ∨ ∃ w ∈ ws, w ≤ 0
    · exact .inr (.here d ws cs hbad)
    · by_cases hchild : ∃ c ∈ cs, Malformed c
      · have ⟨c, hc, hm⟩ := hchild
        exact .inr (.child d ws cs c hc hm)
      · push Not at hbad hchild
        have ⟨hne, hlen, hpos⟩ := hbad
        exact .inl (.split d ws cs (List.length_pos_iff.mpr hne) hlen.symm hpos
          fun c hc ↦ (ih c hc).resolve_right (hchild c hc))

variable {t : MuxPaneLayout ℚ}

private theorem not_malformed_of_weighted (h : Weighted t) :
    ¬ Malformed t := by
  induction h with
  | pane id => exact fun hm ↦ nomatch hm
  | split d ws cs nonempty counts positive _ ih =>
    intro hm
    cases hm with
    | here _ _ _ bad =>
      rcases bad with hnil | hlen | ⟨w, hw, hle⟩
      · simp [hnil] at nonempty
      · exact hlen counts.symm
      · exact absurd (positive w hw) (not_lt.mpr hle)
    | child _ _ _ c hc bad => exact ih c hc bad

variable {d : MuxPaneSplitDirection} {total : ℚ} {cs : List (MuxPaneLayout ℚ)} {ws : List ℚ}

private theorem normalizeChildren_eq_some (hl : cs.length = ws.length)
    {flat : List (MuxPaneLayout ℚ) × List ℚ} (h : normalizeChildren d total cs ws = some flat) :
    ∀ c ∈ cs, ∃ t, normalize c = some t := by
  induction cs generalizing ws flat with
  | nil => simp
  | cons c cs ih =>
    cases ws with
    | nil => simp at hl
    | cons w ws =>
      rw [normalizeChildren] at h
      cases hc : normalize c with
      | none => simp [hc] at h
      | some t =>
        cases hr : normalizeChildren d total cs ws with
        | none => simp [hc, hr] at h
        | some rest =>
          intro e he
          rcases List.mem_cons.mp he with rfl | he
          · exact ⟨t, hc⟩
          · exact ih (by simpa using hl) hr e he

/-- Only an accepted tree normalises. -/
theorem weighted_of_normalize {t' : MuxPaneLayout ℚ} (h : normalize t = some t') :
    Weighted t := by
  induction t using induct generalizing t' with
  | pane id => exact .pane id
  | split d ws cs ih =>
    rw [normalize] at h
    split at h
    · next hv =>
      obtain ⟨hn, hl, hp⟩ := (validWeights_iff ws cs.length).mp hv
      cases hr : normalizeChildren d (Scalar.total ws) cs ws with
      | none => rw [hr] at h; simp at h
      | some flat =>
        apply Weighted.split d ws cs hn hl hp
        intro c hc
        obtain ⟨u, hu⟩ := normalizeChildren_eq_some hl hr c hc
        exact ih c hc hu
    · simp at h

/-- `normalize` rejects exactly the malformed trees. -/
theorem normalize_eq_none_iff (t : MuxPaneLayout ℚ) : normalize t = none ↔ Malformed t := by
  constructor
  · intro h
    rcases weighted_or_malformed t with hw | hm
    · have ⟨u, hu⟩ := hw.normalize
      simp [hu] at h
    · exact hm
  · intro hm
    cases h : normalize t with
    | none => rfl
    | some u => exact absurd hm (not_malformed_of_weighted (weighted_of_normalize h))

/-! ### The geometry of a raw tree -/

mutual

/-- The rectangle of every leaf when each split of the tree divides its area in proportion to
its own weights. -/
def regions : MuxPaneLayout ℚ → SurfaceRect ℚ → List (PaneId × SurfaceRect ℚ)
  | .pane id, area => [(id, area)]
  | .split d ws children, area => regionsAlong (d == .right) ws.sum area children ws 0

/-- The children of one split, from the fraction `offset` of the extent on. -/
def regionsAlong (horizontal : Bool) (total : ℚ) (area : SurfaceRect ℚ) :
    List (MuxPaneLayout ℚ) → List ℚ → ℚ → List (PaneId × SurfaceRect ℚ)
  | child :: children, weight :: weights, offset =>
    regions child (area.slice horizontal offset (weight / total)) ++
      regionsAlong horizontal total area children weights (offset + weight / total)
  | _, _, _ => []

end

private theorem regionsAlong_nil (b : Bool) (total : ℚ) (area : SurfaceRect ℚ) (ws : List ℚ)
    (o : ℚ) : regionsAlong b total area [] ws o = [] := by
  rw [regionsAlong]
  simp

/-- Shares of shares: a child split of the same direction, drawn in its slice, is its children
drawn with scaled weights in the whole. -/
private theorem regionsAlong_slice (b : Bool) (area : SurfaceRect ℚ) (o s : ℚ)
    (cs : List (MuxPaneLayout ℚ)) (ws : List ℚ) (o' : ℚ) :
    regionsAlong b 1 (area.slice b o s) cs ws o' =
      regionsAlong b 1 area cs (ws.map (s * ·)) (o + s * o') := by
  induction cs generalizing ws o' with
  | nil => rw [regionsAlong_nil, regionsAlong_nil]
  | cons c cs ih =>
    cases ws with
    | nil => simp [regionsAlong]
    | cons w ws =>
      rw [List.map_cons, regionsAlong, regionsAlong, SurfaceRect.slice_slice, ih,
        mul_div_assoc, mul_add, add_assoc]

/-- The children of a split, cut anywhere. -/
theorem regionsAlong_append (b : Bool) (total : ℚ) (area : SurfaceRect ℚ)
    (hl : cs.length = ws.length) (cs' : List (MuxPaneLayout ℚ)) (ws' : List ℚ) (o : ℚ) :
    regionsAlong b total area (cs ++ cs') (ws ++ ws') o =
      regionsAlong b total area cs ws o ++
        regionsAlong b total area cs' ws' (o + ws.sum / total) := by
  induction cs generalizing ws o with
  | nil =>
    have hnil : ws = [] := List.eq_nil_of_length_eq_zero (by simpa using hl.symm)
    subst hnil
    simp [regionsAlong_nil]
  | cons c cs ih =>
    cases ws with
    | nil => simp at hl
    | cons w ws =>
      rw [List.cons_append, List.cons_append, regionsAlong, regionsAlong,
        ih (by simpa using hl), List.append_assoc, List.sum_cons, add_div, ← add_assoc]

private theorem regionsAlong_splice (area : SurfaceRect ℚ) (w o : ℚ) {child : MuxPaneLayout ℚ}
    (hc : Canonical child) (rest : List (MuxPaneLayout ℚ) × List ℚ) :
    regionsAlong (d == .right) 1 area (splice d w child rest).1 (splice d w child rest).2 o =
      regions child (area.slice (d == .right) o w) ++
        regionsAlong (d == .right) 1 area rest.1 rest.2 (o + w) := by
  cases hc with
  | pane id => simp only [splice, regionsAlong, div_one]
  | split inner ws cs two counts positive unit child alternate =>
    by_cases hd : inner = d
    · subst hd
      have hsum : (ws.map (w * ·)).sum = w := by
        rw [sum_map_mul_left, unit, mul_one]
      simp only [splice, if_true]
      rw [regionsAlong_append _ _ _ (by simpa using counts), hsum, div_one, regions, unit,
        regionsAlong_slice, mul_zero, add_zero]
    · simp only [splice, if_neg hd, regionsAlong, div_one]

private theorem regionsAlong_normalizeChildren (area : SurfaceRect ℚ)
    (ih : ∀ c ∈ cs, ∀ t, normalize c = some t → ∀ area, regions t area = regions c area)
    (hl : cs.length = ws.length) {flat : List (MuxPaneLayout ℚ) × List ℚ}
    (h : normalizeChildren d total cs ws = some flat) (o : ℚ) :
    regionsAlong (d == .right) 1 area flat.1 flat.2 o =
      regionsAlong (d == .right) total area cs ws o := by
  induction cs generalizing ws flat o with
  | nil =>
    rw [normalizeChildren] at h
    · obtain rfl := Option.some.inj h
      rw [regionsAlong_nil, regionsAlong_nil]
    · simp
  | cons c cs ihc =>
    cases ws with
    | nil => simp at hl
    | cons w ws =>
      rw [normalizeChildren] at h
      cases hc : normalize c with
      | none => simp [hc] at h
      | some t =>
        cases hr : normalizeChildren d total cs ws with
        | none => simp [hc, hr] at h
        | some rest =>
          simp only [hc, hr, Option.some.injEq] at h
          subst h
          rw [regionsAlong_splice area _ _ (canonical_of_normalize hc), regionsAlong,
            ih c (by simp) t hc,
            ihc (fun e he ↦ ih e (by simp [he])) (by simpa using hl) hr]

private theorem regions_collapse (hl : cs.length = ws.length) (hs : ws.sum = 1)
    (h : collapse d cs ws = some t) (area : SurfaceRect ℚ) :
    regions t area = regionsAlong (d == .right) 1 area cs ws 0 := by
  unfold collapse at h
  split at h
  · next c =>
    obtain rfl := Option.some.inj h
    have ⟨w, hw⟩ := List.length_eq_one_iff.mp hl.symm
    subst hw
    have hone : w = 1 := by simpa using hs
    rw [regionsAlong, regionsAlong_nil, hone, div_one, SurfaceRect.slice_zero_one,
      List.append_nil]
  · split at h
    · simp at h
    · obtain rfl := Option.some.inj h
      rw [regions, hs]

/-- Normalisation draws every leaf where the raw tree draws it. -/
theorem regions_normalize {t' : MuxPaneLayout ℚ} (h : normalize t = some t') (area : SurfaceRect ℚ)
    : regions t' area = regions t area := by
  induction t using induct generalizing t' area with
  | pane id =>
    rw [normalize] at h
    obtain rfl := Option.some.inj h
    rfl
  | split d ws cs ih =>
    rw [normalize] at h
    split at h
    · next hv =>
      obtain ⟨hn, hl, hp⟩ := (validWeights_iff ws cs.length).mp hv
      have htotal : 0 < ws.sum := sum_pos_of_positive hp (by omega)
      rw [Scalar.total_rat] at h
      cases hr : normalizeChildren d ws.sum cs ws with
      | none => simp [hr] at h
      | some flat =>
        rw [hr] at h
        obtain ⟨hf, hs, _⟩ :=
          flat_normalizeChildren htotal (fun c _ t ht ↦ canonical_of_normalize ht) hl hp hr
        rw [regions_collapse hf.counts (by rw [hs, div_self (ne_of_gt htotal)]) h, regions]
        exact regionsAlong_normalizeChildren area (fun c hc t ht area ↦ ih c hc ht area) hl hr 0
    · simp at h

/-! ### The rectangles of the code -/

private theorem rectsAlong_eq_regionsAlong (b : Bool) {usable : ℚ} {area : SurfaceRect ℚ}
    (hw : 0 ≤ area.width) (hh : 0 ≤ area.height) (hu : usable = area.extent b)
    (hp : ∀ w ∈ ws, 0 < w)
    (ih : ∀ c ∈ cs, ∀ area : SurfaceRect ℚ, 0 ≤ area.width → 0 ≤ area.height →
      rectsIn 0 c area = regions c area) (o : ℚ) :
    rectsAlong 0 b usable area cs ws (area.extent b * o) = regionsAlong b 1 area cs ws o := by
  induction cs generalizing ws o with
  | nil => simp [rectsAlong, regionsAlong_nil]
  | cons c cs ihc =>
    cases ws with
    | nil => simp [rectsAlong, regionsAlong]
    | cons w ws =>
      have hpos : 0 ≤ w := le_of_lt (hp w (by simp))
      have hslice : (if b then SurfaceRect.fromMinSize (area.minX + area.extent b * o) area.minY
            (usable * w) area.height
          else SurfaceRect.fromMinSize area.minX (area.minY + area.extent b * o) area.width
            (usable * w)) = area.slice b o w := by
        cases b <;> simp [SurfaceRect.slice, SurfaceRect.extent, hu]
      have hrest := ihc (fun x hx ↦ hp x (List.mem_cons_of_mem w hx)) (fun e he ↦ ih e (by simp [he])) (o + w)
      have hoffset : area.extent b * o + (usable * w + 0) = area.extent b * (o + w) := by
        rw [hu]
        ring
      rw [rectsAlong, regionsAlong, hslice, hoffset, hrest, div_one, ih c (by simp)]
      · have hx := SurfaceRect.extent_slice b area o w true
        simp only [SurfaceRect.extent, if_true] at hx
        rw [hx]
        split
        · exact mul_nonneg hw hpos
        · exact hw
      · have hy := SurfaceRect.extent_slice b area o w false
        simp only [SurfaceRect.extent, Bool.false_eq_true, if_false] at hy
        rw [hy]
        split
        · exact mul_nonneg hh hpos
        · exact hh

/-- Without a gap `PaneLayout::rects` draws the regions of a canonical tree. -/
theorem rectsIn_zero (h : Canonical t) (area : SurfaceRect ℚ) (hw : 0 ≤ area.width)
    (hh : 0 ≤ area.height) : rectsIn 0 t area = regions t area := by
  induction h generalizing area with
  | pane id => rw [rectsIn, regions]
  | split d ws cs two counts positive unit _ _ ih =>
    have hextent : (if (d == .right) = true then area.width else area.height) =
        area.extent (d == .right) := rfl
    have hnonneg : 0 ≤ area.extent (d == .right) := by
      unfold SurfaceRect.extent
      split
      · exact hw
      · exact hh
    have hloop := rectsAlong_eq_regionsAlong (d == .right) hw hh rfl positive
      (fun c hc area hw hh ↦ ih c hc area hw hh) 0
    rw [mul_zero] at hloop
    rw [rectsIn, regions, unit, ← hloop]
    simp only [hextent, Scalar.literal_rat]
    rw [show Scalar.mulAdd (0 : ℚ) (-((cs.length - 1 : Nat) : ℚ)) (area.extent (d == .right)) =
      area.extent (d == .right) by simp [Scalar.mulAdd], max_eq_left hnonneg]

/-! ### Normalisation -/

/-- The contract of `normalize` on any tree: it rejects exactly the malformed ones, and of any
other it returns a canonical tree with the same leaves in the same order and the same rectangle
for each of them in every area, which it does not change again. -/
theorem normalize_contract (t : MuxPaneLayout ℚ) :
    (normalize t = none ↔ Malformed t) ∧
      ∀ t', normalize t = some t' →
        Canonical t' ∧ t'.leaves = t.leaves ∧
          (∀ area, regions t' area = regions t area) ∧
          (∀ area : SurfaceRect ℚ, 0 ≤ area.width → 0 ≤ area.height →
            rectsIn 0 t' area = regions t area) ∧
          normalize t' = some t' := by
  constructor
  · exact normalize_eq_none_iff t
  · intro t' h
    have hc := canonical_of_normalize h
    have hr := regions_normalize h
    constructor
    · exact hc
    constructor
    · exact leaves_normalize h
    constructor
    · exact hr
    constructor
    · intro area hw hh
      rw [rectsIn_zero hc area hw hh, hr]
    · exact hc.normalize_eq

/-! ### Layouts read from outside -/

mutual

/-- `Deserialize for MuxPaneLayout`, `pane_layout.rs:35–52`, on a tree as it was written: the
children are deserialised, and so normalised, before their parent. -/
def deserialize : MuxPaneLayout ℚ → Option (MuxPaneLayout ℚ)
  | .pane id => normalize (.pane id)
  | .split d ws children =>
    match deserializeAll children with
    | some children => normalize (.split d ws children)
    | none => none

/-- The `children` field of a saved split. -/
def deserializeAll : List (MuxPaneLayout ℚ) → Option (List (MuxPaneLayout ℚ))
  | [] => some []
  | child :: rest =>
    match deserialize child, deserializeAll rest with
    | some child, some rest => some (child :: rest)
    | _, _ => none

end

private theorem deserializeAll_spec (ih : ∀ c ∈ cs, deserialize c = normalize c) :
    (deserializeAll cs = none ∧ ∃ c ∈ cs, normalize c = none) ∨
      ∃ cs', deserializeAll cs = some cs' ∧ List.Forall₂ (fun c c' ↦ normalize c = some c') cs cs' := by
  induction cs with
  | nil => exact .inr ⟨[], by rw [deserializeAll], .nil⟩
  | cons c cs ihc =>
    rw [deserializeAll, ih c (by simp)]
    cases hc : normalize c with
    | none => exact .inl ⟨by simp, c, by simp, hc⟩
    | some c' =>
      rcases ihc (fun e he ↦ ih e (by simp [he])) with ⟨hr, e, he, hn⟩ | ⟨cs', hr, hall⟩
      · exact .inl ⟨by simp [hr], e, by simp [he], hn⟩
      · exact .inr ⟨c' :: cs', by simp [hr], .cons hc hall⟩

private theorem normalizeChildren_forall₂ {cs' : List (MuxPaneLayout ℚ)}
    (h : List.Forall₂ (fun c c' ↦ normalize c = some c') cs cs') (ws : List ℚ) :
    normalizeChildren d total cs' ws = normalizeChildren d total cs ws := by
  induction h generalizing ws with
  | nil => rfl
  | cons hc _ ih =>
    cases ws with
    | nil => simp [normalizeChildren]
    | cons w ws => rw [normalizeChildren, normalizeChildren, hc,
        (canonical_of_normalize hc).normalize_eq, ih]

/-- Normalising every subtree while it is read comes to normalising the tree once. -/
theorem deserialize_eq_normalize (t : MuxPaneLayout ℚ) : deserialize t = normalize t := by
  induction t using induct with
  | pane id => rw [deserialize]
  | split d ws cs ih =>
    rw [deserialize]
    rcases deserializeAll_spec ih with ⟨hr, c, hc, hn⟩ | ⟨cs', hr, hall⟩
    · rw [hr]
      show none = _
      symm
      rw [normalize_eq_none_iff]
      exact .child d ws cs c hc ((normalize_eq_none_iff c).mp hn)
    · rw [hr]
      show normalize (.split d ws cs') = _
      rw [normalize, normalize, hall.length_eq, normalizeChildren_forall₂ hall]

end MuxPaneLayout
end Bootty.Mux
