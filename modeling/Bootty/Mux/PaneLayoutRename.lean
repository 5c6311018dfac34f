import Bootty.Mux.PaneLayoutCanonical
import Bootty.Mux.PaneLayoutLeaves

/-!
# Renaming the panes of a layout

A layout whose panes are renamed is normalised to the renamed normal form: `normalize`
(`crates/bootty-mux/src/pane_layout.rs:54–106`) does not look at the ids.
-/

namespace Bootty.Mux
namespace MuxPaneLayout

open Bootty.Base

variable {K : Type}

mutual

/-- Every pane with its new id. -/
def rename (f : PaneId → PaneId) : MuxPaneLayout K → MuxPaneLayout K
  | .pane id => .pane (f id)
  | .split direction weights children => .split direction weights (renameAll f children)

/-- The children are renamed. -/
def renameAll (f : PaneId → PaneId) : List (MuxPaneLayout K) → List (MuxPaneLayout K)
  | [] => []
  | child :: rest => rename f child :: renameAll f rest

end

variable {f : PaneId → PaneId}

private theorem renameAll_eq_map (f : PaneId → PaneId) (cs : List (MuxPaneLayout K)) :
    renameAll f cs = cs.map (rename f) := by
  induction cs with
  | nil => rfl
  | cons c cs ih => rw [renameAll, ih, List.map_cons]

/-- The leaves of a renamed tree. -/
theorem leaves_rename (f : PaneId → PaneId) (t : MuxPaneLayout K) :
    (t.rename f).leaves = t.leaves.map f := by
  induction t using induct with
  | pane id => rfl
  | split d ws cs ih =>
    rw [rename, leaves_split, leaves_split]
    induction cs with
    | nil => rfl
    | cons c cs ihcs =>
      have ⟨hc, hcs⟩ := List.forall_mem_cons.mp ih
      rw [renameAll, leavesOf_cons, leavesOf_cons, List.map_append, hc, ihcs hcs]

section Normal

variable [Scalar K]

private theorem splice_rename (d : MuxPaneSplitDirection) (w : K) (c : MuxPaneLayout K)
    (rest : List (MuxPaneLayout K) × List K) :
    splice d w (c.rename f) (renameAll f rest.1, rest.2) =
      (renameAll f (splice d w c rest).1, (splice d w c rest).2) := by
  cases c with
  | pane id => rfl
  | split inner ws cs =>
    unfold rename splice
    dsimp only
    by_cases hinner : inner = d
    · rw [if_pos hinner, if_pos hinner]
      simp only [renameAll_eq_map, List.map_append]
    · rw [if_neg hinner, if_neg hinner]
      rfl

private theorem collapse_rename (d : MuxPaneSplitDirection) (cs : List (MuxPaneLayout K))
    (ws : List K) : collapse d (renameAll f cs) ws = (collapse d cs ws).map (rename f) := by
  match cs with
  | [] =>
    unfold renameAll collapse
    dsimp only
    split <;> rfl
  | [c] => rfl
  | c :: c' :: cs =>
    unfold renameAll renameAll collapse
    dsimp only
    split <;> rfl

private theorem normalizeChildren_rename (d : MuxPaneSplitDirection) (total : K)
    {cs : List (MuxPaneLayout K)} (ws : List K)
    (h : ∀ c ∈ cs, (c.rename f).normalize = c.normalize.map (rename f)) :
    normalizeChildren d total (renameAll f cs) ws =
      (normalizeChildren d total cs ws).map fun flat ↦ (renameAll f flat.1, flat.2) := by
  induction cs generalizing ws with
  | nil => cases ws <;> rfl
  | cons c cs ih =>
    have ⟨hc, hcs⟩ := List.forall_mem_cons.mp h
    cases ws with
    | nil => rfl
    | cons w ws =>
      rw [renameAll, normalizeChildren, normalizeChildren, hc, ih ws hcs]
      cases c.normalize with
      | none => rfl
      | some c' =>
        cases normalizeChildren d total cs ws with
        | none => rfl
        | some rest => exact congrArg some (splice_rename d (w / total) c' rest)

/-- Normalisation does not look at the ids. -/
theorem normalize_rename (f : PaneId → PaneId) (t : MuxPaneLayout K) :
    (t.rename f).normalize = t.normalize.map (rename f) := by
  induction t using induct with
  | pane id => rfl
  | split d ws cs ih =>
    have hlength : (renameAll f cs).length = cs.length := by
      rw [renameAll_eq_map, List.length_map]
    unfold rename normalize
    rw [hlength, normalizeChildren_rename d _ ws ih]
    split
    · cases normalizeChildren d (Scalar.total ws) cs ws with
      | none => rfl
      | some flat => exact collapse_rename d flat.1 flat.2
    · rfl

end Normal

end MuxPaneLayout
end Bootty.Mux
