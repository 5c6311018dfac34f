import Bootty.Mux.PaneLayoutTiling
import Mathlib.Algebra.Order.Field.Basic

/-!
# Directional focus

`PaneLayout::neighbor` (`crates/bootty-mux/src/pane_layout.rs:340–360`) looks for the panes whose
centre lies on the asked side and that overlap the origin on the other axis
(`pane_layout.rs:405–447`), and `NativeMuxState::select_directional_pane`
(`crates/bootty-mux/src/native/state.rs:426–456`) asks it over the unit area without a gap. In a
tiling two rectangles that overlap on one axis are apart on the other, so the centre test picks
the panes beyond the origin's edge, and there is one exactly when that edge is not the area's.
-/

namespace Bootty.Mux

open Bootty.Base Bootty.Terminal

namespace Direction

/-- The rectangle reaches the side of the area. -/
def Touches (area r : SurfaceRect ℚ) : Direction → Prop
  | .left => r.minX = area.minX
  | .right => r.maxX = area.maxX
  | .up => r.minY = area.minY
  | .down => r.maxY = area.maxY

/-- The other rectangle lies entirely beyond the edge of the origin. -/
def Beyond (origin other : SurfaceRect ℚ) : Direction → Prop
  | .left => other.maxX ≤ origin.minX
  | .right => origin.maxX ≤ other.minX
  | .up => other.maxY ≤ origin.minY
  | .down => origin.maxY ≤ other.minY

/-- The centre of the other rectangle lies on the side. -/
def Forward (origin other : SurfaceRect ℚ) : Direction → Prop
  | .left => (other.minX + other.maxX) / 2 < (origin.minX + origin.maxX) / 2
  | .right => (origin.minX + origin.maxX) / 2 < (other.minX + other.maxX) / 2
  | .up => (other.minY + other.maxY) / 2 < (origin.minY + origin.maxY) / 2
  | .down => (origin.minY + origin.maxY) / 2 < (other.minY + other.maxY) / 2

/-- How far the extents of two rectangles overlap on the other axis; negative when they are
apart. -/
def overlap (a b : SurfaceRect ℚ) : Direction → ℚ
  | .left | .right => min a.maxY b.maxY - max a.minY b.minY
  | .up | .down => min a.maxX b.maxX - max a.minX b.minX

/-- Beyond the edge, with a part of the origin's extent in common. -/
def Faces (origin other : SurfaceRect ℚ) (side : Direction) : Prop :=
  side.Beyond origin other ∧ 0 < side.overlap origin other

end Direction

/-! ### The candidates -/

variable {a b c d : ℚ}

private theorem exists_mem_Ioo (h : 0 < min b d - max a c) :
    ∃ x, x ∈ Set.Ioo a b ∧ x ∈ Set.Ioo c d := by
  have hlt : max a c < min b d := sub_pos.mp h
  have ⟨x, hlow, hhigh⟩ := exists_between hlt
  have ⟨ha, hc⟩ := max_lt_iff.mp hlow
  have ⟨hb, hd⟩ := lt_min_iff.mp hhigh
  exact ⟨x, ⟨ha, hb⟩, ⟨hc, hd⟩⟩

variable {r s : SurfaceRect ℚ}

/-- Rectangles without a common interior point are apart on an axis on which they do not
overlap. -/
private theorem not_overlap_both (h : Disjoint r.interior s.interior)
    (hx : 0 < min r.maxX s.maxX - max r.minX s.minX) :
    ¬0 < min r.maxY s.maxY - max r.minY s.minY := by
  intro hy
  have ⟨x, hxr, hxs⟩ := exists_mem_Ioo hx
  have ⟨y, hyr, hys⟩ := exists_mem_Ioo hy
  have hmem : (x, y) ∈ r.interior := ⟨hxr, hyr⟩
  exact Set.disjoint_left.mp h hmem ⟨hxs, hys⟩

private theorem le_of_centre_lt (hab : a < b) (hcd : c < d) (h : ¬0 < min b d - max a c) :
    (a + b) / 2 < (c + d) / 2 ↔ b ≤ c := by
  rw [sub_pos, lt_min_iff, max_lt_iff, max_lt_iff] at h
  constructor
  · intro hcentre
    by_contra hbc
    push Not at hbc
    apply h
    refine ⟨⟨hab, hbc⟩, ?_, hcd⟩
    linarith
  · intro hbc
    linarith

/-- The candidates of `directional_gap`. -/
theorem directionalGap_isSome (origin other : SurfaceRect ℚ) (side : Direction) :
    (directionalGap origin other side).isSome = true ↔
      side.Forward origin other ∧ 0 < side.overlap origin other := by
  have hpositive : ∀ x : ℚ, 0 < max x 0 ↔ 0 < x := by simp
  cases side <;>
    simp only [directionalGap, Option.isSome_ite, Bool.and_eq_true, decide_eq_true_eq, Scalar.literal_rat,
      verticalOverlap, horizontalOverlap, hpositive, Direction.overlap, Direction.Forward,
      Scalar.midpoint]

variable {side : Direction}

/-- In a tiling the candidates are the rectangles that face the origin. -/
theorem forward_iff_beyond {origin other : SurfaceRect ℚ} (horigin : origin.Extended)
    (hother : other.Extended) (h : Disjoint origin.interior other.interior)
    (hacross : 0 < side.overlap origin other) :
    side.Forward origin other ↔ side.Beyond origin other := by
  have hx : origin.minX < origin.maxX := sub_pos.mp horigin.1
  have hy : origin.minY < origin.maxY := sub_pos.mp horigin.2
  have hx' : other.minX < other.maxX := sub_pos.mp hother.1
  have hy' : other.minY < other.maxY := sub_pos.mp hother.2
  cases side with
  | right => exact le_of_centre_lt hx hx' fun hboth ↦ not_overlap_both h hboth hacross
  | left =>
    apply le_of_centre_lt hx' hx
    rw [min_comm, max_comm]
    exact fun hboth ↦ not_overlap_both h hboth hacross
  | down => exact le_of_centre_lt hy hy' (not_overlap_both h hacross)
  | up =>
    apply le_of_centre_lt hy' hy
    rw [min_comm, max_comm]
    exact not_overlap_both h hacross

/-! ### Where there is one -/

/-- A corner of the origin on the asked side, at which the rectangle beyond it begins. -/
private def corner (r : SurfaceRect ℚ) : Direction → ℚ × ℚ
  | .left => (r.minX, r.maxY)
  | .right => (r.maxX, r.minY)
  | .up => (r.maxX, r.minY)
  | .down => (r.minX, r.maxY)

/-- Whether the edges at the corner belong to the rectangle beyond it as its lower ones. -/
private def lower : Direction → Bool
  | .left | .up => false
  | .right | .down => true

variable {area : SurfaceRect ℚ}

private theorem corner_mem (hr : r.Extended) (hinside : r.Inside area)
    (htouch : ¬side.Touches area r) :
    corner r side ∈ area.cells (lower side) := by
  have hx : r.minX < r.maxX := sub_pos.mp hr.1
  have hy : r.minY < r.maxY := sub_pos.mp hr.2
  have ⟨hminX, hmaxX, hminY, hmaxY⟩ := hinside
  cases side with
  | left =>
    have hedge : area.minX < r.minX := lt_of_le_of_ne hminX fun heq ↦ htouch heq.symm
    exact ⟨⟨hedge, by show r.minX ≤ _; linarith⟩, ⟨by show _ < r.maxY; linarith, hmaxY⟩⟩
  | right =>
    have hedge : r.maxX < area.maxX := lt_of_le_of_ne hmaxX htouch
    exact ⟨⟨by show _ ≤ r.maxX; linarith, hedge⟩, ⟨hminY, by show r.minY < _; linarith⟩⟩
  | up =>
    have hedge : area.minY < r.minY := lt_of_le_of_ne hminY fun heq ↦ htouch heq.symm
    exact ⟨⟨by show _ < r.maxX; linarith, hmaxX⟩, ⟨hedge, by show r.minY ≤ _; linarith⟩⟩
  | down =>
    have hedge : r.maxY < area.maxY := lt_of_le_of_ne hmaxY htouch
    exact ⟨⟨hminX, by show r.minX < _; linarith⟩, ⟨by show _ ≤ r.maxY; linarith, hedge⟩⟩

private theorem exists_corner {rects : List (SurfaceRect ℚ)} (h : SurfaceRect.Subdivides rects area)
    (hr : r ∈ rects) (htouch : ¬side.Touches area r) :
    ∃ s ∈ rects, corner r side ∈ s.cells (lower side) := by
  have ⟨cells, hcells, hcorner⟩ := ((h.cells (lower side)).covers _).mp
    (corner_mem (h.extended r hr) (h.inside hr) htouch)
  have ⟨s, hs, heq⟩ := List.mem_map.mp hcells
  exact ⟨s, hs, heq ▸ hcorner⟩

private theorem corner_not_mem (r : SurfaceRect ℚ) (side : Direction) :
    corner r side ∉ r.cells (lower side) := by
  rintro ⟨hx, hy⟩
  cases side with
  | left => exact lt_irrefl _ hx.1
  | right => exact lt_irrefl _ hx.2
  | up => exact lt_irrefl _ hy.1
  | down => exact lt_irrefl _ hy.2

private theorem overlap_pos (hab : a < b) (had : a < d) (hcb : c < b) (hcd : c < d) :
    0 < min b d - max a c :=
  sub_pos.mpr (lt_min (max_lt hab hcb) (max_lt had hcd))

private theorem faces_of_corner (hr : r.Extended) (hs : s.Extended)
    (hdisjoint : Disjoint r.interior s.interior) (h : corner r side ∈ s.cells (lower side)) :
    side.Faces r s := by
  have hx : r.minX < r.maxX := sub_pos.mp hr.1
  have hy : r.minY < r.maxY := sub_pos.mp hr.2
  have hx' : s.minX < s.maxX := sub_pos.mp hs.1
  have hy' : s.minY < s.maxY := sub_pos.mp hs.2
  cases side with
  | left =>
    have ⟨⟨hlow, _⟩, ⟨hlow', hhigh'⟩⟩ : (s.minX < r.minX ∧ r.minX ≤ s.maxX) ∧
      (s.minY < r.maxY ∧ r.maxY ≤ s.maxY) := h
    have hacross := overlap_pos hy (hy.trans_le hhigh') hlow' hy'
    constructor
    · apply le_of_not_gt
      intro hlt
      exact not_overlap_both hdisjoint (overlap_pos hx hlt (hlow.trans hx) hx') hacross
    · exact hacross
  | right =>
    have ⟨⟨_, hhigh⟩, ⟨hlow', hhigh'⟩⟩ : (s.minX ≤ r.maxX ∧ r.maxX < s.maxX) ∧
      (s.minY ≤ r.minY ∧ r.minY < s.maxY) := h
    have hacross := overlap_pos hy hhigh' (hlow'.trans_lt hy) hy'
    constructor
    · apply le_of_not_gt
      intro hlt
      exact not_overlap_both hdisjoint (overlap_pos hx (hx.trans hhigh) hlt hx') hacross
    · exact hacross
  | up =>
    have ⟨⟨hlow, hhigh⟩, ⟨hlow', _⟩⟩ : (s.minX < r.maxX ∧ r.maxX ≤ s.maxX) ∧
      (s.minY < r.minY ∧ r.minY ≤ s.maxY) := h
    have hacross := overlap_pos hx (hx.trans_le hhigh) hlow hx'
    constructor
    · apply le_of_not_gt
      intro hlt
      exact not_overlap_both hdisjoint hacross (overlap_pos hy hlt (hlow'.trans hy) hy')
    · exact hacross
  | down =>
    have ⟨⟨hlow, hhigh⟩, ⟨_, hhigh'⟩⟩ : (s.minX ≤ r.minX ∧ r.minX < s.maxX) ∧
      (s.minY ≤ r.maxY ∧ r.maxY < s.maxY) := h
    have hacross := overlap_pos hx hhigh (hlow.trans_lt hx) hx'
    constructor
    · apply le_of_not_gt
      intro hlt
      exact not_overlap_both hdisjoint hacross (overlap_pos hy (hy.trans hhigh') hlt hy')
    · exact hacross

private theorem not_faces_of_touches (hs : s.Extended) (hinside : s.Inside area)
    (htouch : side.Touches area r) :
    ¬side.Faces r s := by
  have hx : s.minX < s.maxX := sub_pos.mp hs.1
  have hy : s.minY < s.maxY := sub_pos.mp hs.2
  have ⟨hminX, hmaxX, hminY, hmaxY⟩ := hinside
  rintro ⟨hbeyond, _⟩
  cases side <;> simp only [Direction.Touches, Direction.Beyond] at htouch hbeyond <;> linarith

namespace PaneLayout

open MuxPaneLayout

/-! ### The choice -/

section Choice

variable {K : Type} [Scalar K]

private theorem minByScore_eq_none {xs : List (K × PaneId)} : minByScore xs = none ↔ xs = [] := by
  cases xs <;> simp [minByScore]

/-- `neighbor` names a candidate, and none only if there is none. -/
theorem neighbor_candidates {l : PaneLayout K} {source : PaneId} {origin : SurfaceRect K}
    {area : SurfaceRect K} {gap : K} {direction : Direction}
    (horigin : (l.rects area gap).find? (fun entry ↦ entry.1 == source) = some (source, origin)) :
    (l.neighbor source direction area gap = none ↔
      ∀ entry ∈ l.rects area gap, entry.1 ≠ source →
        (directionalGap origin entry.2 direction).isSome = false) ∧
      ∀ pane, l.neighbor source direction area gap = some pane →
        ∃ r, (pane, r) ∈ l.rects area gap ∧ pane ≠ source ∧
          (directionalGap origin r direction).isSome = true := by
  unfold neighbor
  simp only [horigin, Option.bind_eq_bind, Option.bind_some]
  constructor
  · rw [Option.bind_eq_none_iff]
    simp only [reduceCtorEq, imp_false, ← Option.eq_none_iff_forall_ne_some, minByScore_eq_none,
      List.filterMap_eq_nil_iff, List.mem_filter, bne_iff_ne, Option.bind_eq_none_iff]
    simp only [Option.isSome_eq_false_iff, Option.isNone_iff_eq_none, and_imp]
  · intro pane hpane
    have ⟨best, hbest, heq⟩ := Option.bind_eq_some_iff.mp hpane
    have ⟨⟨found, r⟩, hentry, hscore⟩ := List.mem_filterMap.mp (mem_of_minByScore hbest)
    have ⟨score, hgap, hs⟩ := Option.bind_eq_some_iff.mp hscore
    obtain rfl := Option.some.inj hs
    obtain rfl := Option.some.inj heq
    have ⟨hmem, hne⟩ := List.mem_filter.mp hentry
    exact ⟨r, hmem, by simpa using hne, by rw [hgap]; rfl⟩

end Choice

/-- Directional focus is sound and complete: there is no neighbour exactly when the pane's
rectangle reaches that side of the area, and otherwise the neighbour is another pane, entirely
beyond the edge and with a part of the pane's extent on the other axis in common. -/
theorem Wf.neighbor_faces {l : PaneLayout ℚ} (h : Wf l) {area : SurfaceRect ℚ}
    (harea : 0 < area.width ∧ 0 < area.height) {pane : PaneId} (hpane : pane ∈ l.panes)
    (side : Direction) :
    ∃ r, (pane, r) ∈ l.rects area 0 ∧
      (l.neighbor pane side area 0 = none ↔ side.Touches area r) ∧
      ∀ other, l.neighbor pane side area 0 = some other → other ≠ pane ∧
        ∃ s, (other, s) ∈ l.rects area 0 ∧ side.Beyond r s ∧ 0 < side.overlap r s := by
  have hrects := h.rects_zero harea
  have hkeys := map_fst_regions h.canonical.weighted area
  have hsub := subdivides_regions h.canonical.weighted area harea
  rw [← hrects] at hkeys hsub
  have hnodup : ((l.rects area 0).map Prod.fst).Nodup := by
    rw [hkeys]
    exact h.nodup
  have hpane' : pane ∈ (l.rects area 0).map Prod.fst := by
    rw [hkeys]
    exact hpane
  have ⟨⟨id, r⟩, hr, hid⟩ := List.mem_map.mp hpane'
  obtain rfl : id = pane := hid
  have horigin := find?_key hnodup hr
  have hextended : ∀ {entry}, entry ∈ l.rects area 0 → entry.2.Extended :=
    fun hentry ↦ hsub.extended _ (List.mem_map_of_mem hentry)
  have hapart : ∀ {entry}, entry ∈ l.rects area 0 → entry.1 ≠ id →
      Disjoint r.interior entry.2.interior := by
    intro entry hentry hne
    have hsymm : Std.Symm fun a b : PaneId × SurfaceRect ℚ ↦
        Disjoint a.2.interior b.2.interior := ⟨fun _ _ hab ↦ hab.symm⟩
    have hpairs := List.pairwise_map.mp hsub.tiles.disjoint
    apply hpairs.forall hr hentry
    rintro rfl
    exact hne rfl
  have hfaces : ∀ {entry}, entry ∈ l.rects area 0 → entry.1 ≠ id →
      ((directionalGap r entry.2 side).isSome = true ↔ side.Faces r entry.2) := by
    intro entry hentry hne
    rw [directionalGap_isSome, Direction.Faces, and_comm, @and_comm (side.Beyond _ _)]
    exact and_congr_right fun hacross ↦
      forward_iff_beyond (hextended hr) (hextended hentry) (hapart hentry hne) hacross
  have ⟨hnone, hsome⟩ := @neighbor_candidates _ _ _ _ _ _ _ side horigin
  refine ⟨r, hr, ?_, ?_⟩
  · rw [hnone]
    constructor
    · intro hall
      by_contra htouch
      -- The rectangle that has the corner is a candidate.
      have ⟨_, hs, hcorner⟩ := exists_corner hsub (List.mem_map_of_mem hr) htouch
      have ⟨entry, hentry, hsnd⟩ := List.mem_map.mp hs
      subst hsnd
      have hne : entry.1 ≠ id := by
        intro heq
        have hsame := (find?_key hnodup hentry).symm.trans (heq ▸ horigin)
        rw [Option.some.inj hsame] at hcorner
        exact corner_not_mem r side hcorner
      have hcandidate := (hfaces hentry hne).mpr
        (faces_of_corner (hextended hr) (hextended hentry) (hapart hentry hne) hcorner)
      rw [hall entry hentry hne] at hcandidate
      cases hcandidate
    · intro htouch entry hentry hne
      apply Bool.eq_false_iff.mpr
      intro hcandidate
      have hinside := hsub.inside (List.mem_map_of_mem hentry)
      exact not_faces_of_touches (hextended hentry) hinside htouch
        ((hfaces hentry hne).mp hcandidate)
  · intro other hother
    have ⟨s, hs, hne, hcandidate⟩ := hsome other hother
    exact ⟨hne, s, hs, (hfaces hs hne).mp hcandidate⟩

/-- Two panes side by side. -/
def beside : PaneLayout ℚ := ⟨.split .right [1 / 2, 1 / 2] [.pane "a", .pane "b"], "a"⟩

private theorem wf_beside : Wf beside := by
  constructor
  · apply Canonical.split
    · decide
    · rfl
    · norm_num
    · norm_num
    · intro c hc
      simp only [List.mem_cons, List.not_mem_nil, or_false] at hc
      rcases hc with rfl | rfl
      · exact .pane _
      · exact .pane _
    · simp [direction?]
  · decide
  · decide

/-- The left one of them has a neighbour to the right. -/
theorem neighbor_faces_beside :
    ∃ other, beside.neighbor "a" .right (.fromMinSize 0 0 1 1) 0 = some other ∧ other ≠ "a" := by
  have harea : 0 < (SurfaceRect.fromMinSize 0 0 1 1 : SurfaceRect ℚ).width ∧
      0 < (SurfaceRect.fromMinSize 0 0 1 1 : SurfaceRect ℚ).height := by
    norm_num [SurfaceRect.fromMinSize, SurfaceRect.width, SurfaceRect.height]
  obtain ⟨r, hr, hnone, hsome⟩ := @Wf.neighbor_faces _ wf_beside _ harea "a" (by decide) .right
  cases hneighbor : beside.neighbor "a" .right (.fromMinSize 0 0 1 1) 0 with
  | none =>
    have htouch := hnone.mp hneighbor
    norm_num [beside, rects, rectsIn, rectsAlong, SurfaceRect.fromMinSize, SurfaceRect.width,
      SurfaceRect.height, Scalar.mulAdd, show "a" ≠ "b" by decide] at hr
    norm_num [hr, Direction.Touches, SurfaceRect.fromMinSize] at htouch
  | some other => exact ⟨other, rfl, (hsome other hneighbor).1⟩

end PaneLayout
end Bootty.Mux
