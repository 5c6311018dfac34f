import Bootty.Mux.PaneLayout
import Mathlib.Data.List.Nodup
import Mathlib.Data.List.Perm.Subperm

/-!
# Leaves of a pane layout

What every layout operation does to the ordered list of leaves. None of these laws uses
the arithmetic of the weights, so they hold for the machine format.
-/

namespace Bootty.Mux
namespace MuxPaneLayout

open Bootty.Base Bootty.Terminal

variable {K : Type}

/-- Tree induction with one hypothesis for each child. -/
@[elab_as_elim]
theorem induct {P : MuxPaneLayout K → Prop} (pane : ∀ id, P (.pane id))
    (split : ∀ d ws children, (∀ child ∈ children, P child) → P (.split d ws children)) :
    ∀ t, P t := by
  intro t
  refine MuxPaneLayout.rec (motive_1 := P) (motive_2 := fun cs ↦ ∀ c ∈ cs, P c)
    pane split ?_ ?_ t
  · simp
  · intro head tail hh ht
    simpa using ⟨hh, ht⟩

@[simp] theorem leaves_pane (id : PaneId) : (pane id : MuxPaneLayout K).leaves = [id] := by
  simp [leaves]

@[simp] theorem leaves_split (d : MuxPaneSplitDirection) (ws : List K)
    (children : List (MuxPaneLayout K)) :
    (split d ws children).leaves = leavesOf children := by
  simp [leaves]

@[simp] theorem leavesOf_nil : leavesOf ([] : List (MuxPaneLayout K)) = [] := by simp [leavesOf]

@[simp] theorem leavesOf_cons (child : MuxPaneLayout K) (rest : List (MuxPaneLayout K)) :
    leavesOf (child :: rest) = child.leaves ++ leavesOf rest := by simp [leavesOf]

@[simp] theorem leavesOf_append (xs ys : List (MuxPaneLayout K)) :
    leavesOf (xs ++ ys) = leavesOf xs ++ leavesOf ys := by
  induction xs with
  | nil => simp
  | cons x xs ih => simp [ih]

variable {p : PaneId} {cs : List (MuxPaneLayout K)}

/-- The leaves of some children. -/
theorem mem_leavesOf :
    p ∈ leavesOf cs ↔ ∃ c ∈ cs, p ∈ c.leaves := by
  induction cs with
  | nil => simp
  | cons c cs ih => simp [ih]

/-- A child's leaves form a sublist of its parent's. -/
theorem leaves_sublist_leavesOf {c : MuxPaneLayout K} (hc : c ∈ cs) :
    c.leaves.Sublist (leavesOf cs) := by
  induction cs with
  | nil => simp at hc
  | cons d ds ih =>
    rw [leavesOf_cons]
    rcases List.mem_cons.mp hc with rfl | hd
    · exact List.sublist_append_left _ _
    · exact (ih hd).trans (List.sublist_append_right _ _)

/-! ### Membership -/

private theorem containsAny_iff_exists (p : PaneId) (cs : List (MuxPaneLayout K)) :
    containsAny p cs = true ↔ ∃ c ∈ cs, contains p c = true := by
  induction cs with
  | nil => simp [containsAny]
  | cons c cs ih => simp [containsAny, ih]

/-- `contains` decides membership among the leaves. -/
@[simp] theorem contains_iff_mem (p : PaneId) (t : MuxPaneLayout K) :
    contains p t = true ↔ p ∈ t.leaves := by
  induction t using induct with
  | pane id => rw [contains, leaves_pane, List.mem_singleton, beq_iff_eq, eq_comm]
  | split d ws cs ih =>
    rw [contains, containsAny_iff_exists, leaves_split, mem_leavesOf]
    exact ⟨fun ⟨c, hc, hp⟩ ↦ ⟨c, hc, (ih c hc).mp hp⟩,
      fun ⟨c, hc, hp⟩ ↦ ⟨c, hc, (ih c hc).mpr hp⟩⟩

variable {t : MuxPaneLayout K}

/-- The first leaf is a leaf. -/
theorem mem_of_firstLeaf (h : t.firstLeaf = some p) :
    p ∈ t.leaves := by
  induction t using induct with
  | pane id => simpa [firstLeaf, eq_comm] using h
  | split d ws cs ih =>
    cases cs with
    | nil => simp [firstLeaf, firstLeafOf] at h
    | cons c cs =>
      have hp := ih c (by simp) (by simpa [firstLeaf, firstLeafOf] using h)
      simp [hp]

/-! ### Relabelling -/

private theorem leavesOf_swapLeavesOf {a b : PaneId}
    (h : ∀ c ∈ cs, (swapLeaves a b c).leaves = c.leaves.map (swapId a b)) :
    leavesOf (swapLeavesOf a b cs) = (leavesOf cs).map (swapId a b) := by
  induction cs with
  | nil => simp [swapLeavesOf]
  | cons c cs ih =>
    rw [swapLeavesOf, leavesOf_cons, leavesOf_cons, h c (by simp),
      ih (fun d hd ↦ h d (by simp [hd])), List.map_append]

/-- Swapping relabels the leaf list pointwise. -/
theorem leaves_swapLeaves (a b : PaneId) (t : MuxPaneLayout K) :
    (swapLeaves a b t).leaves = t.leaves.map (swapId a b) := by
  induction t using induct with
  | pane id => simp [swapLeaves]
  | split d ws cs ih => simpa [swapLeaves] using leavesOf_swapLeavesOf ih

/-- The transposition of two ids is an involution, hence injective. -/
theorem swapId_injective (a b : PaneId) : Function.Injective (swapId a b) := by
  intro x y h
  unfold swapId at h
  split_ifs at h <;> simp_all

/-! ### Equal structure -/

private theorem leavesOf_of_sameStructures {as bs : List (MuxPaneLayout K)}
    (ih : ∀ a ∈ as, ∀ b, sameStructure a b = true → b.leaves = a.leaves)
    (h : sameStructures as bs = true) : leavesOf bs = leavesOf as := by
  induction as generalizing bs with
  | nil =>
    cases bs with
    | nil => rfl
    | cons b bs => simp [sameStructures] at h
  | cons a as iha =>
    cases bs with
    | nil => simp [sameStructures] at h
    | cons b bs =>
      rw [sameStructures, Bool.and_eq_true] at h
      rw [leavesOf_cons, leavesOf_cons, ih a (by simp) b h.1,
        iha (fun e he ↦ ih e (by simp [he])) h.2]

/-- Trees of the same structure have the same leaves in the same order. -/
theorem leaves_of_sameStructure {a b : MuxPaneLayout K} (h : sameStructure a b = true) :
    b.leaves = a.leaves := by
  induction a using induct generalizing b with
  | pane id =>
    cases b with
    | pane id' =>
      rw [sameStructure, beq_iff_eq] at h
      rw [h]
    | split d ws cs => simp [sameStructure] at h
  | split d ws cs ih =>
    cases b with
    | pane id => simp [sameStructure] at h
    | split d' ws' cs' =>
      rw [sameStructure, Bool.and_eq_true] at h
      rw [leaves_split, leaves_split]
      exact leavesOf_of_sameStructures (fun a ha b hb ↦ ih a ha hb) h.2

/-! ### Pruning -/

/-- The position `prune_leaf` finds splits the children at the leaf. -/
theorem findIdx?_isPane {ix : Nat} (h : cs.findIdx? (isPane p) = some ix) :
    ∃ before after, cs = before ++ .pane p :: after ∧ before.length = ix := by
  rw [List.findIdx?_eq_some_iff_getElem] at h
  obtain ⟨hix, hp, -⟩ := h
  refine ⟨cs.take ix, cs.drop (ix + 1), ?_, by simp; omega⟩
  have hg : cs[ix] = .pane p := by
    cases hc : cs[ix] with
    | pane id => simp [hc, isPane] at hp; rw [hp]
    | split d ws cs' => simp [hc, isPane] at hp
  calc cs = cs.take ix ++ cs.drop ix := (List.take_append_drop ix cs).symm
    _ = cs.take ix ++ cs[ix] :: cs.drop (ix + 1) := by rw [List.drop_eq_getElem_cons hix]
    _ = cs.take ix ++ .pane p :: cs.drop (ix + 1) := by rw [hg]

private theorem leavesOf_pruneLeaves
    (h : ∀ c ∈ cs, (pruneLeaf p c).leaves = c.leaves.filter (· ≠ p)) :
    leavesOf (pruneLeaves p cs) = (leavesOf cs).filter (· ≠ p) := by
  induction cs with
  | nil => simp [pruneLeaves]
  | cons c cs ih =>
    rw [pruneLeaves, leavesOf_cons, leavesOf_cons, h c (by simp),
      ih (fun d hd ↦ h d (by simp [hd])), List.filter_append]

/-- Pruning drops exactly the named leaf of a duplicate-free tree; a lone leaf stays. -/
theorem leaves_pruneLeaf (hn : t.leaves.Nodup) (ht : isPane p t = false) :
    (pruneLeaf p t).leaves = t.leaves.filter (· ≠ p) := by
  induction t using induct with
  | pane id =>
    have : id ≠ p := by simpa [isPane] using ht
    simp [pruneLeaf, this]
  | split d ws cs ih =>
    rw [pruneLeaf]
    cases hix : cs.findIdx? (isPane p) with
    | some ix =>
      obtain ⟨before, after, rfl, rfl⟩ := findIdx?_isPane hix
      simp only [leaves_split, leavesOf_append, leavesOf_cons, leaves_pane] at hn ⊢
      have hb : p ∉ leavesOf before := by
        intro hp
        have := (List.nodup_append.mp hn).2.2 p hp p (by simp)
        exact this rfl
      have ha : p ∉ leavesOf after := by
        have h2 := (List.nodup_append.mp hn).2.1
        simpa using (List.nodup_cons.mp (by simpa using h2)).1
      rw [List.eraseIdx_append_of_length_le (Nat.le_refl _)]
      simp only [Nat.sub_self, List.eraseIdx_cons_zero, leavesOf_append, List.filter_append,
        List.singleton_append]
      rw [List.filter_cons_of_neg (by simp), List.filter_eq_self.mpr, List.filter_eq_self.mpr]
      · intro q hq
        exact decide_eq_true (fun he ↦ ha (he ▸ hq))
      · intro q hq
        exact decide_eq_true (fun he ↦ hb (he ▸ hq))
    | none =>
      rw [leaves_split] at hn ⊢
      rw [leaves_split]
      apply leavesOf_pruneLeaves
      intro c hc
      refine ih c hc (hn.sublist (leaves_sublist_leavesOf hc)) ?_
      have hnone := List.findIdx?_eq_none_iff.mp hix c hc
      simpa using hnone

/-! ### Insertion -/

section Scaled

variable [Scalar K]

/-- The two leaves of the split that replaces a target. -/
def besideLeaves (pane target : PaneId) : Direction → List PaneId
  | .left | .up => [pane, target]
  | .right | .down => [target, pane]

/-- What an insertion makes of one leaf. -/
def insertedLeaves (pane target : PaneId) (direction : Direction) (id : PaneId) : List PaneId :=
  if id = target then besideLeaves pane id direction else [id]

private theorem leaves_splitLeaf (target pane : PaneId) (direction : Direction) :
    (splitLeaf target pane direction : MuxPaneLayout K).leaves =
      besideLeaves pane target direction := by
  cases direction <;> simp [splitLeaf, besideLeaves]

variable {dir : Direction}

private theorem leavesOf_insertLeaves {t : PaneId}
    (h : ∀ c ∈ cs, (insertLeaf p t dir c).leaves = c.leaves.flatMap (insertedLeaves p t dir)) :
    leavesOf (insertLeaves p t dir cs) = (leavesOf cs).flatMap (insertedLeaves p t dir) := by
  induction cs with
  | nil => simp [insertLeaves]
  | cons c cs ih =>
    rw [insertLeaves, leavesOf_cons, leavesOf_cons, h c (by simp),
      ih (fun d hd ↦ h d (by simp [hd])), List.flatMap_append]

/-- Insertion replaces each occurrence of the target by the pair. -/
theorem leaves_insertLeaf (p t : PaneId) (dir : Direction) (tree : MuxPaneLayout K) :
    (insertLeaf p t dir tree).leaves = tree.leaves.flatMap (insertedLeaves p t dir) := by
  induction tree using induct with
  | pane id =>
    rw [insertLeaf, leaves_pane, List.flatMap_singleton, insertedLeaves]
    split
    · rw [leaves_splitLeaf]
    · rw [leaves_pane]
  | split d ws cs ih => simpa [insertLeaf] using leavesOf_insertLeaves ih

private theorem flatMap_inserted_of_not_mem {t : PaneId} {ids : List PaneId} (h : t ∉ ids) :
    ids.flatMap (insertedLeaves p t dir) = ids := by
  induction ids with
  | nil => rfl
  | cons id ids ih =>
    have hne : id ≠ t := fun he ↦ h (by simp [he])
    rw [List.flatMap_cons, insertedLeaves, if_neg hne, ih (fun hm ↦ h (by simp [hm]))]
    rfl

/-- Inserting beside a leaf of a duplicate-free list adds exactly one pane. -/
theorem flatMap_inserted_perm {t : PaneId} {ids : List PaneId} (hn : ids.Nodup) (ht : t ∈ ids) :
    (ids.flatMap (insertedLeaves p t dir)).Perm (p :: ids) := by
  induction ids with
  | nil => simp at ht
  | cons id ids ih =>
    have hid := (List.nodup_cons.mp hn).1
    rw [List.flatMap_cons, insertedLeaves]
    split
    · next he =>
      subst he
      rw [flatMap_inserted_of_not_mem hid]
      cases dir with
      | left => exact List.Perm.refl _
      | up => exact List.Perm.refl _
      | right => exact List.Perm.swap p id ids
      | down => exact List.Perm.swap p id ids
    · next hne =>
      have hm : t ∈ ids := by
        rcases List.mem_cons.mp ht with h | h
        · exact absurd h.symm hne
        · exact h
      exact ((ih (List.nodup_cons.mp hn).2 hm).cons id).trans (List.Perm.swap p id ids)

/-! ### Normalisation -/

private theorem leavesOf_splice (d : MuxPaneSplitDirection) (w : K) (child : MuxPaneLayout K)
    (rest : List (MuxPaneLayout K) × List K) :
    leavesOf (splice d w child rest).1 = child.leaves ++ leavesOf rest.1 := by
  cases child with
  | pane id => simp [splice]
  | split inner ws cs =>
    simp only [splice]
    split <;> simp

variable {ws : List K}

private theorem leaves_collapse {d : MuxPaneSplitDirection} (h : collapse d cs ws = some t) :
    t.leaves = leavesOf cs := by
  unfold collapse at h
  split at h
  · obtain rfl := Option.some.inj h
    simp
  · split at h
    · simp at h
    · obtain rfl := Option.some.inj h
      simp

private theorem leavesOf_normalizeChildren {d : MuxPaneSplitDirection} {total : K}
    {flat : List (MuxPaneLayout K) × List K}
    (ih : ∀ c ∈ cs, ∀ {t}, normalize c = some t → t.leaves = c.leaves) (hl : cs.length = ws.length)
    (h : normalizeChildren d total cs ws = some flat) :
    leavesOf flat.1 = leavesOf cs := by
  induction cs generalizing ws flat with
  | nil =>
    rw [normalizeChildren] at h
    · obtain rfl := Option.some.inj h; simp
    · simp
  | cons c cs ihc =>
    cases ws with
    | nil => simp at hl
    | cons w ws =>
      rw [normalizeChildren] at h
      cases hc : normalize c with
      | none => simp [hc] at h
      | some c' =>
        cases hr : normalizeChildren d total cs ws with
        | none => simp [hc, hr] at h
        | some rest =>
          simp only [hc, hr, Option.some.injEq] at h
          subst h
          rw [leavesOf_splice, leavesOf_cons, ih c (by simp) hc,
            ihc (fun e he ↦ ih e (by simp [he])) (by simpa using hl) hr]

/-- What a successful weight check says about the counts. -/
theorem length_of_validWeights {n : Nat} (h : validWeights ws n = true) :
    0 < n ∧ n = ws.length := by
  simp only [validWeights, Bool.and_eq_true, decide_eq_true_eq, beq_iff_eq] at h
  exact h.1.1

/-- Normalisation keeps the leaves and their order. -/
theorem leaves_normalize {t' : MuxPaneLayout K} (h : normalize t = some t') :
    t'.leaves = t.leaves := by
  induction t using induct generalizing t' with
  | pane id =>
    rw [normalize] at h
    obtain rfl := Option.some.inj h
    rfl
  | split d ws cs ih =>
    rw [normalize] at h
    split at h
    · next hv =>
      cases hr : normalizeChildren d (Scalar.total ws) cs ws with
      | none => simp [hr] at h
      | some flat =>
        simp only [hr] at h
        rw [leaves_collapse h, leaves_split]
        exact leavesOf_normalizeChildren (fun c hc _ ht ↦ ih c hc ht)
          (length_of_validWeights hv).2 hr
    · simp at h

/-! ### Geometry -/

private theorem fst_rectsAlong_subset {gap usable : K} {horizontal : Bool} {area : SurfaceRect K}
    (ih : ∀ c ∈ cs, ∀ area, ∀ e ∈ rectsIn gap c area, e.1 ∈ c.leaves) (ws : List K) (offset : K) :
    ∀ e ∈ rectsAlong gap horizontal usable area cs ws offset, e.1 ∈ leavesOf cs := by
  induction cs generalizing ws offset with
  | nil => intro e he; simp [rectsAlong] at he
  | cons c cs ihc =>
    intro e he
    cases ws with
    | nil => simp [rectsAlong] at he
    | cons w ws =>
      rw [rectsAlong] at he
      rw [leavesOf_cons, List.mem_append]
      rcases List.mem_append.mp he with h | h
      · exact .inl (ih c (by simp) _ e h)
      · exact .inr (ihc (fun d hd ↦ ih d (by simp [hd])) _ _ e h)

/-- Every rectangle belongs to a leaf. -/
theorem mem_leaves_of_mem_rectsIn {gap : K} {area : SurfaceRect K} {e : PaneId × SurfaceRect K}
    (he : e ∈ rectsIn gap t area) : e.1 ∈ t.leaves := by
  induction t using induct generalizing area e with
  | pane id =>
    simp only [rectsIn, List.mem_singleton] at he
    simp [he]
  | split d ws cs ih =>
    rw [rectsIn] at he
    rw [leaves_split]
    exact fst_rectsAlong_subset (fun c hc _ _ he ↦ ih c hc he) _ _ e he

end Scaled
end MuxPaneLayout
end Bootty.Mux
