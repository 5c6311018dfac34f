import Bootty.Mux.PaneLayoutLeaves
import Mathlib.Algebra.Order.BigOperators.Group.List
import Mathlib.Algebra.BigOperators.Ring.List
import Mathlib.Tactic.Linarith
import Mathlib.Tactic.FieldSimp

/-!
# Canonical layouts over exact weights

The documented contract of the split tree (`snapshot.rs:62–63`): splits have at least
two children, positive unit-sum weights and no child split of the same direction. With
exact weights `normalize` produces canonical trees, fixes them, and accepts every tree
whose splits are nonempty with one positive weight for each child. Each `PaneLayout`
operation keeps the contract and changes the leaves by exactly what it names.
-/

namespace Bootty.Mux
namespace MuxPaneLayout

open Bootty.Base

/-- The documented contract of a native split tree. -/
inductive Canonical : MuxPaneLayout ℚ → Prop
  | pane (id : PaneId) : Canonical (.pane id)
  | split (d : MuxPaneSplitDirection) (ws : List ℚ) (children : List (MuxPaneLayout ℚ))
      (two : 2 ≤ children.length) (counts : children.length = ws.length)
      (positive : ∀ w ∈ ws, 0 < w) (unit : ws.sum = 1)
      (child : ∀ c ∈ children, Canonical c) (alternate : ∀ c ∈ children, c.direction? ≠ some d) :
      Canonical (.split d ws children)

/-- What `normalize` accepts: at every split one positive weight for each of some children. -/
inductive Weighted : MuxPaneLayout ℚ → Prop
  | pane (id : PaneId) : Weighted (.pane id)
  | split (d : MuxPaneSplitDirection) (ws : List ℚ) (children : List (MuxPaneLayout ℚ))
      (nonempty : 0 < children.length) (counts : children.length = ws.length)
      (positive : ∀ w ∈ ws, 0 < w) (child : ∀ c ∈ children, Weighted c) :
      Weighted (.split d ws children)

variable {t : MuxPaneLayout ℚ}

/-- A canonical tree is accepted. -/
theorem Canonical.weighted (h : Canonical t) : Weighted t := by
  induction h with
  | pane id => exact .pane id
  | split d ws cs two counts positive _ _ _ ih =>
    exact .split d ws cs (by omega) counts positive ih

/-- A tree has a first leaf as soon as it is accepted. -/
theorem Weighted.firstLeaf (h : Weighted t) : ∃ p, t.firstLeaf = some p := by
  induction h with
  | pane id => exact ⟨id, by simp [MuxPaneLayout.firstLeaf]⟩
  | split d ws cs nonempty _ _ _ ih =>
    cases cs with
    | nil => simp at nonempty
    | cons c cs =>
      obtain ⟨p, hp⟩ := ih c (by simp)
      exact ⟨p, by simpa [MuxPaneLayout.firstLeaf, firstLeafOf] using hp⟩

/-- With exact weights the weight check is a count and positivity. -/
theorem validWeights_iff (ws : List ℚ) (n : Nat) :
    validWeights ws n = true ↔ 0 < n ∧ n = ws.length ∧ ∀ w ∈ ws, 0 < w := by
  simp [validWeights, and_assoc]

/-! ### The flattening loop -/

/-- The accumulated children and weights of a split of direction `d`. -/
structure Flat (d : MuxPaneSplitDirection) (flat : List (MuxPaneLayout ℚ) × List ℚ) :
    Prop where
  canonical : ∀ c ∈ flat.1, Canonical c
  alternate : ∀ c ∈ flat.1, c.direction? ≠ some d
  counts : flat.1.length = flat.2.length
  positive : ∀ w ∈ flat.2, 0 < w

/-- Scaling every weight scales their sum. -/
theorem sum_map_mul_left (w : ℚ) (ws : List ℚ) : (ws.map (w * ·)).sum = w * ws.sum := by
  simpa using List.sum_map_mul_left ws (fun x ↦ x) w

variable {d : MuxPaneSplitDirection}

private theorem Flat.splice {w : ℚ} {child : MuxPaneLayout ℚ}
    {rest : List (MuxPaneLayout ℚ) × List ℚ} (hr : Flat d rest) (hc : Canonical child) (hw : 0 < w)
    :
    Flat d (splice d w child rest) ∧ (splice d w child rest).2.sum = w + rest.2.sum ∧
      rest.1.length < (splice d w child rest).1.length := by
  -- Consing an unspliced child is the same argument for a leaf and for the other direction.
  have hcons : child.direction? ≠ some d → Flat d (child :: rest.1, w :: rest.2) := by
    intro hd
    refine ⟨?_, ?_, by simp [hr.counts], ?_⟩
    · simpa using ⟨hc, hr.canonical⟩
    · simpa using ⟨hd, hr.alternate⟩
    · simpa using ⟨hw, hr.positive⟩
  cases child with
  | pane id =>
    simp only [MuxPaneLayout.splice]
    exact ⟨hcons (by simp [direction?]), by simp, by simp⟩
  | split inner ws cs =>
    simp only [MuxPaneLayout.splice]
    split
    · next he =>
      subst he
      cases hc with
      | split _ _ _ two counts positive unit child alternate =>
        refine ⟨⟨?_, ?_, ?_, ?_⟩, ?_, ?_⟩
        · intro c hm
          rcases List.mem_append.mp hm with h | h
          · exact child c h
          · exact hr.canonical c h
        · intro c hm
          rcases List.mem_append.mp hm with h | h
          · exact alternate c h
          · exact hr.alternate c h
        · simp [counts, hr.counts]
        · intro x hx
          rcases List.mem_append.mp hx with h | h
          · obtain ⟨y, hy, rfl⟩ := List.mem_map.mp h
            exact mul_pos hw (positive y hy)
          · exact hr.positive x h
        · rw [List.sum_append, sum_map_mul_left, unit, mul_one]
        · simp only [List.length_append]
          omega
    · next hne =>
      exact ⟨hcons (by simpa [direction?] using hne), by simp, by simp⟩

variable {cs : List (MuxPaneLayout ℚ)} {ws : List ℚ}

/-- The loop over the weighted children accumulates canonical children of the other direction
whose weights are the given ones divided by the total. -/
theorem flat_normalizeChildren {total : ℚ} (ht : 0 < total)
    (ih : ∀ c ∈ cs, ∀ t, normalize c = some t → Canonical t) (hl : cs.length = ws.length)
    (hp : ∀ w ∈ ws, 0 < w) {flat : List (MuxPaneLayout ℚ) × List ℚ}
    (h : normalizeChildren d total cs ws = some flat) :
    Flat d flat ∧ flat.2.sum = ws.sum / total ∧ cs.length ≤ flat.1.length := by
  induction cs generalizing ws flat with
  | nil =>
    rw [normalizeChildren] at h
    · obtain rfl := Option.some.inj h
      have : ws = [] := List.eq_nil_of_length_eq_zero (by simpa using hl.symm)
      subst this
      exact ⟨⟨by simp, by simp, rfl, by simp⟩, by simp, by simp⟩
    · simp
  | cons c cs ihc =>
    cases ws with
    | nil => simp at hl
    | cons w ws =>
      rw [normalizeChildren] at h
      cases hc : normalize c with
      | none => simp [hc] at h
      | some c' =>
        cases hr : normalizeChildren d total cs ws with
        | none => simp [hc, hr] at h
        | some rest =>
          simp only [hc, hr, Option.some.injEq] at h
          subst h
          obtain ⟨hf, hs, hlen⟩ := ihc (fun e he ↦ ih e (by simp [he])) (by simpa using hl)
            (fun x hx ↦ hp x (by simp [hx])) hr
          have hw : 0 < w / total := div_pos (hp w (by simp)) ht
          obtain ⟨hsplice, hsum, hlt⟩ := hf.splice (ih c (by simp) c' hc) hw
          refine ⟨hsplice, ?_, ?_⟩
          · rw [hsum, hs, List.sum_cons, add_div]
          · simp only [List.length_cons]
            omega

private theorem collapse_cons_cons (hp : ∀ w ∈ ws, 0 < w) (a b : MuxPaneLayout ℚ)
    (cs : List (MuxPaneLayout ℚ)) :
    collapse d (a :: b :: cs) ws = some (.split d ws (a :: b :: cs)) := by
  simpa [collapse] using hp

private theorem canonical_collapse {flat : List (MuxPaneLayout ℚ) × List ℚ} (hf : Flat d flat)
    (hs : flat.2.sum = 1) (hn : 0 < flat.1.length) :
    ∃ t, collapse d flat.1 flat.2 = some t ∧ Canonical t := by
  obtain ⟨cs, ws⟩ := flat
  match cs, hf, hn with
  | [c], hf, _ => exact ⟨c, rfl, hf.canonical c (by simp)⟩
  | a :: b :: cs, hf, _ =>
    exact ⟨.split d ws (a :: b :: cs), collapse_cons_cons hf.positive a b cs,
      .split d ws _ (by simp) hf.counts hf.positive hs hf.canonical hf.alternate⟩

/-- The weights of a nonempty split have a positive total. -/
theorem sum_pos_of_positive (hp : ∀ w ∈ ws, 0 < w) (hn : 0 < ws.length) :
    0 < ws.sum :=
  List.sum_pos ws hp (List.ne_nil_of_length_pos hn)

/-- Everything `normalize` returns is canonical. -/
theorem canonical_of_normalize {t' : MuxPaneLayout ℚ} (h : normalize t = some t') :
    Canonical t' := by
  induction t using induct generalizing t' with
  | pane id =>
    rw [normalize] at h
    obtain rfl := Option.some.inj h
    exact .pane id
  | split d ws cs ih =>
    rw [normalize] at h
    split at h
    · next hv =>
      obtain ⟨hn, hl, hp⟩ := (validWeights_iff ws cs.length).mp hv
      have htotal : 0 < ws.sum := sum_pos_of_positive hp (by omega)
      rw [Scalar.total_rat] at h
      cases hr : normalizeChildren d ws.sum cs ws with
      | none => simp [hr] at h
      | some flat =>
        simp only [hr] at h
        obtain ⟨hf, hs, hlen⟩ :=
          flat_normalizeChildren htotal (fun c hc t ht ↦ ih c hc ht) hl hp hr
        obtain ⟨u, hu, hc⟩ := canonical_collapse hf
          (by rw [hs, div_self (ne_of_gt htotal)]) (by omega)
        rw [h] at hu
        obtain rfl := Option.some.inj hu
        exact hc
    · simp at h

private theorem normalizeChildren_isSome (d : MuxPaneSplitDirection) (total : ℚ)
    (ih : ∀ c ∈ cs, ∃ t, normalize c = some t) (ws : List ℚ) :
    ∃ flat, normalizeChildren d total cs ws = some flat := by
  induction cs generalizing ws with
  | nil => exact ⟨([], []), by rw [normalizeChildren]; simp⟩
  | cons c cs ihc =>
    cases ws with
    | nil => exact ⟨([], []), by rw [normalizeChildren]; simp⟩
    | cons w ws =>
      obtain ⟨c', hc⟩ := ih c (by simp)
      obtain ⟨rest, hr⟩ := ihc (fun e he ↦ ih e (by simp [he])) ws
      exact ⟨splice d (w / total) c' rest, by rw [normalizeChildren]; simp [hc, hr]⟩

/-- Every accepted tree normalises. -/
theorem Weighted.normalize (h : Weighted t) :
    ∃ t', t.normalize = some t' := by
  induction h with
  | pane id => exact ⟨.pane id, by simp [MuxPaneLayout.normalize]⟩
  | split d ws cs nonempty counts positive _ ih =>
    have hv := (validWeights_iff ws cs.length).mpr ⟨nonempty, counts, positive⟩
    have htotal : 0 < ws.sum := sum_pos_of_positive positive (by omega)
    obtain ⟨flat, hr⟩ := normalizeChildren_isSome d (Scalar.total ws) ih ws
    obtain ⟨hf, hs, hlen⟩ := flat_normalizeChildren htotal
      (fun c _ t ht ↦ canonical_of_normalize ht) counts positive (by rwa [Scalar.total_rat] at hr)
    obtain ⟨t, ht, -⟩ := canonical_collapse hf
      (by rw [hs, div_self (ne_of_gt htotal)]) (by omega)
    exact ⟨t, by rw [MuxPaneLayout.normalize, if_pos hv, hr]; exact ht⟩

/-! ### Canonical trees are fixed -/

private theorem normalizeChildren_canonical (ih : ∀ c ∈ cs, normalize c = some c)
    (ha : ∀ c ∈ cs, c.direction? ≠ some d) (hl : cs.length = ws.length) :
    normalizeChildren d 1 cs ws = some (cs, ws) := by
  induction cs generalizing ws with
  | nil =>
    have : ws = [] := List.eq_nil_of_length_eq_zero (by simpa using hl.symm)
    subst this
    rw [normalizeChildren]
    simp
  | cons c cs ihc =>
    cases ws with
    | nil => simp at hl
    | cons w ws =>
      have hrest := ihc (fun e he ↦ ih e (by simp [he])) (fun e he ↦ ha e (by simp [he]))
        (by simpa using hl)
      rw [normalizeChildren, ih c (by simp)]
      simp only [hrest, div_one, Option.some.injEq]
      have hd := ha c (by simp)
      cases c with
      | pane id => rfl
      | split inner iw ic =>
        have hne : inner ≠ d := by simpa [direction?] using hd
        simp [splice, hne]

/-- `normalize` returns a canonical tree unchanged. -/
theorem Canonical.normalize_eq (h : Canonical t) :
    t.normalize = some t := by
  induction h with
  | pane id => simp [MuxPaneLayout.normalize]
  | split d ws cs two counts positive unit _ alternate ih =>
    have hv := (validWeights_iff ws cs.length).mpr ⟨by omega, counts, positive⟩
    rw [MuxPaneLayout.normalize, if_pos hv, Scalar.total_rat, unit,
      normalizeChildren_canonical ih alternate counts]
    cases cs with
    | nil => cases two
    | cons a cs =>
      cases cs with
      | nil => exact absurd two (by simp)
      | cons b cs => exact collapse_cons_cons positive a b cs

/-! ### Edits keep a tree acceptable -/

private theorem length_swapLeavesOf (a b : PaneId) (cs : List (MuxPaneLayout ℚ)) :
    (swapLeavesOf a b cs).length = cs.length := by
  induction cs with
  | nil => simp [swapLeavesOf]
  | cons c cs ih => simp [swapLeavesOf, ih]

variable {c : MuxPaneLayout ℚ}

private theorem exists_of_mem_swapLeavesOf {a b : PaneId} (h : c ∈ swapLeavesOf a b cs) :
    ∃ e ∈ cs, c = swapLeaves a b e := by
  induction cs with
  | nil => simp [swapLeavesOf] at h
  | cons d ds ih =>
    rcases List.mem_cons.mp (by simpa [swapLeavesOf] using h) with rfl | h
    · exact ⟨d, by simp, rfl⟩
    · obtain ⟨e, he, hc⟩ := ih h
      exact ⟨e, by simp [he], hc⟩

private theorem direction?_swapLeaves (a b : PaneId) (t : MuxPaneLayout ℚ) :
    (swapLeaves a b t).direction? = t.direction? := by
  cases t <;> simp [swapLeaves, direction?]

/-- Relabelling leaves keeps the contract. -/
theorem Canonical.swapLeaves (h : Canonical t) (a b : PaneId) :
    Canonical (t.swapLeaves a b) := by
  induction h with
  | pane id => simpa [MuxPaneLayout.swapLeaves] using .pane _
  | split d ws cs two counts positive unit _ alternate ih =>
    rw [MuxPaneLayout.swapLeaves]
    refine .split d ws _ (by rwa [length_swapLeavesOf]) (by rwa [length_swapLeavesOf]) positive
      unit ?_ ?_
    · intro c hc
      obtain ⟨e, he, rfl⟩ := exists_of_mem_swapLeavesOf hc
      exact ih e he
    · intro c hc
      obtain ⟨e, he, rfl⟩ := exists_of_mem_swapLeavesOf hc
      rw [direction?_swapLeaves]
      exact alternate e he

private theorem length_insertLeaves (p t : PaneId) (dir : Direction)
    (cs : List (MuxPaneLayout ℚ)) : (insertLeaves p t dir cs).length = cs.length := by
  induction cs with
  | nil => simp [insertLeaves]
  | cons c cs ih => simp [insertLeaves, ih]

private theorem exists_of_mem_insertLeaves {p t : PaneId} {dir : Direction}
    (h : c ∈ insertLeaves p t dir cs) :
    ∃ e ∈ cs, c = insertLeaf p t dir e := by
  induction cs with
  | nil => simp [insertLeaves] at h
  | cons d ds ih =>
    rcases List.mem_cons.mp (by simpa [insertLeaves] using h) with rfl | h
    · exact ⟨d, by simp, rfl⟩
    · obtain ⟨e, he, hc⟩ := ih h
      exact ⟨e, by simp [he], hc⟩

private theorem weighted_pair (d : MuxPaneSplitDirection) {a b : MuxPaneLayout ℚ}
    (ha : Weighted a) (hb : Weighted b) : Weighted (.split d [1 / 2, 1 / 2] [a, b]) := by
  refine .split d _ _ (by simp) (by simp) ?_ ?_
  · intro w hw
    simp only [List.mem_cons, List.not_mem_nil, or_false, or_self] at hw
    rw [hw]
    norm_num
  · intro c hc
    simp only [List.mem_cons, List.not_mem_nil, or_false] at hc
    rcases hc with rfl | rfl
    · exact ha
    · exact hb

private theorem weighted_splitLeaf (t p : PaneId) (dir : Direction) :
    Weighted (splitLeaf t p dir) := by
  cases dir <;> exact weighted_pair _ (.pane _) (.pane _)

/-- Splitting a leaf keeps the tree acceptable. -/
theorem Weighted.insertLeaf {tree : MuxPaneLayout ℚ} (h : Weighted tree) (p t : PaneId)
    (dir : Direction) : Weighted (tree.insertLeaf p t dir) := by
  induction h with
  | pane id =>
    rw [MuxPaneLayout.insertLeaf]
    split
    · exact weighted_splitLeaf id p dir
    · exact .pane id
  | split d ws cs nonempty counts positive _ ih =>
    rw [MuxPaneLayout.insertLeaf]
    refine .split d ws _ (by rwa [length_insertLeaves]) (by rwa [length_insertLeaves]) positive ?_
    intro c hc
    obtain ⟨e, he, rfl⟩ := exists_of_mem_insertLeaves hc
    exact ih e he

private theorem length_pruneLeaves (p : PaneId) (cs : List (MuxPaneLayout ℚ)) :
    (pruneLeaves p cs).length = cs.length := by
  induction cs with
  | nil => simp [pruneLeaves]
  | cons c cs ih => simp [pruneLeaves, ih]

private theorem exists_of_mem_pruneLeaves {p : PaneId} (h : c ∈ pruneLeaves p cs) :
    ∃ e ∈ cs, c = pruneLeaf p e := by
  induction cs with
  | nil => simp [pruneLeaves] at h
  | cons d ds ih =>
    rcases List.mem_cons.mp (by simpa [pruneLeaves] using h) with rfl | h
    · exact ⟨d, by simp, rfl⟩
    · obtain ⟨e, he, hc⟩ := ih h
      exact ⟨e, by simp [he], hc⟩

/-- A canonical split keeps a child when a leaf is pruned, so it stays acceptable. -/
theorem Canonical.weighted_pruneLeaf (h : Canonical t) (p : PaneId) :
    Weighted (t.pruneLeaf p) := by
  induction h with
  | pane id => simpa [MuxPaneLayout.pruneLeaf] using .pane id
  | split d ws cs two counts positive _ child _ ih =>
    rw [MuxPaneLayout.pruneLeaf]
    cases hix : cs.findIdx? (isPane p) with
    | some ix =>
      have hlt : ix < cs.length := by
        rw [List.findIdx?_eq_some_iff_getElem] at hix
        exact hix.1
      refine .split d _ _ ?_ ?_ ?_ ?_
      · rw [List.length_eraseIdx_of_lt hlt]; omega
      · rw [List.length_eraseIdx_of_lt hlt, List.length_eraseIdx_of_lt (by omega), counts]
      · intro w hw
        exact positive w (List.mem_of_mem_eraseIdx hw)
      · intro c hc
        exact (child c (List.mem_of_mem_eraseIdx hc)).weighted
    | none =>
      refine .split d ws _ (by rw [length_pruneLeaves]; omega)
        (by rwa [length_pruneLeaves]) positive ?_
      intro c hc
      obtain ⟨e, he, rfl⟩ := exists_of_mem_pruneLeaves hc
      exact ih e he

end MuxPaneLayout
end Bootty.Mux
