import Bootty.Mux.PaneLayoutOps

/-!
# Pane layouts under any sequence of methods

The methods of `PaneLayout` (`crates/bootty-mux/src/pane_layout.rs:114–284`) as they are
written: over `&mut self`, with their early returns and with their assignments one after the
other. Each refines the pure operation of the same name, so a method that returns `false` has
assigned nothing.
-/

namespace Bootty.Mux

open Bootty.Base Bootty.Terminal MuxPaneLayout

namespace PaneLayout

/-! ### The methods -/

namespace Method

variable {K : Type}

/-- `set_focus`. -/
def setFocus (pane : PaneId) : StateM (PaneLayout K) Bool := do
  if !(← get).contains pane then
    return false
  modify fun self ↦ { self with focused := pane }
  return true

/-- `swap`. -/
def swap (first second : PaneId) : StateM (PaneLayout K) Bool := do
  let self ← get
  if first = second || !self.contains first || !self.contains second then
    return false
  modify fun self ↦ { self with root := self.root.swapLeaves first second }
  return true

/-- `replace`. -/
def replace (pane replacement : PaneId) : StateM (PaneLayout K) Bool := do
  let self ← get
  if !self.contains pane || self.contains replacement then
    return false
  modify fun self ↦ { self with root := self.root.swapLeaves pane replacement }
  if (← get).focused = pane then
    modify fun self ↦ { self with focused := replacement }
  return true

variable [Scalar K]

/-- `merge`. -/
def merge (other : PaneLayout K) : StateM (PaneLayout K) Bool := do
  let self ← get
  if other.panes.any self.contains then
    return false
  let half : K := Scalar.literal (1 / 2)
  match (MuxPaneLayout.split .right [half, half] [self.root, other.root]).normalize with
  | none => return false
  | some root =>
    modify fun self ↦ { self with root := root }
    modify fun self ↦ { self with focused := other.focused }
    return true

/-- `insert_beside`. -/
def insertBeside (pane target : PaneId) (direction : Direction) :
    StateM (PaneLayout K) Bool := do
  let self ← get
  if self.contains pane || !self.contains target then
    return false
  match (self.root.insertLeaf pane target direction).normalize with
  | none => return false
  | some root =>
    modify fun self ↦ { self with root := root }
    modify fun self ↦ { self with focused := pane }
    return true

/-- `split_focused`. -/
def splitFocused (pane : PaneId) (direction : SplitDirection) : StateM (PaneLayout K) Unit := do
  let direction := match direction with
    | .right => Direction.right
    | .down => Direction.down
  let focused := (← get).focused
  discard (insertBeside pane focused direction)

/-- `remove`. -/
def remove (pane : PaneId) : StateM (PaneLayout K) Bool := do
  let self ← get
  if self.isSingle || !self.contains pane then
    return false
  match (self.root.pruneLeaf pane).normalize with
  | none => return false
  | some root =>
    modify fun self ↦ { self with root := root }
    let self ← get
    if !self.contains self.focused then
      match self.root.firstLeaf with
      | some focused => modify fun self ↦ { self with focused := focused }
      | none => pure ()
    return true

/-- The edits are made on a clone, which replaces `self` only after both succeed. -/
def moveBeside (pane target : PaneId) (direction : Direction) : StateM (PaneLayout K) Bool := do
  let self ← get
  if pane = target || !self.contains pane || !self.contains target then
    return false
  let (removed, candidate) := (remove pane).run self
  if !removed then
    return false
  let (inserted, candidate) := (insertBeside pane target direction).run candidate
  if !inserted then
    return false
  set candidate
  return true

/-- `reconcile_with_new_pane_direction`. -/
def reconcileWithNewPaneDirection (ids : List PaneId) (direction : SplitDirection) :
    StateM (PaneLayout K) Unit := do
  match ids with
  | [] => pure ()
  | first :: _ =>
    if !(← get).panes.any ids.contains then
      set (PaneLayout.single first : PaneLayout K)
    (← get).panes.forM fun pane ↦ do
      if !ids.contains pane then
        discard (remove pane)
    ids.forM fun pane ↦ do
      if !(← get).contains pane then
        splitFocused pane direction

/-- `reconcile`. -/
def reconcile (ids : List PaneId) : StateM (PaneLayout K) Unit :=
  reconcileWithNewPaneDirection ids .right

/-- `resize`. -/
def resize (proposed : MuxPaneLayout K) : StateM (PaneLayout K) Bool := do
  match fromMuxLayout proposed with
  | none => return false
  | some proposed =>
    if !(← get).root.sameStructure proposed.root then
      return false
    modify fun self ↦ { self with root := proposed.root }
    return true

/-! ### Each method is its pure operation -/

/-- What a method reports and leaves behind when its operation is partial. -/
def outcome (self : PaneLayout K) : Option (PaneLayout K) → Bool × PaneLayout K
  | some l => (true, l)
  | none => (false, self)

omit [Scalar K] in
/-- The method does what the function says. -/
theorem run_setFocus (self : PaneLayout K) (pane : PaneId) :
    (setFocus pane).run self = outcome self (self.setFocus pane) := by
  unfold setFocus PaneLayout.setFocus
  simp only [StateT.run_bind, StateT.run_get, pure_bind]
  cases self.contains pane with
  | true => rfl
  | false => rfl

omit [Scalar K] in
/-- So does `swap`. -/
theorem run_swap (self : PaneLayout K) (first second : PaneId) :
    (swap first second).run self = outcome self (self.swap first second) := by
  unfold swap PaneLayout.swap
  simp only [StateT.run_bind, StateT.run_get, pure_bind]
  split
  · rfl
  · rfl

omit [Scalar K] in
/-- So does `replace`. -/
theorem run_replace (self : PaneLayout K) (pane replacement : PaneId) :
    (replace pane replacement).run self = outcome self (self.replace pane replacement) := by
  unfold replace PaneLayout.replace
  simp only [StateT.run_bind, StateT.run_get, pure_bind]
  split
  · rfl
  · by_cases hf : self.focused = pane
    · simp only [StateT.run_bind, StateT.run_modify, StateT.run_get, pure_bind, if_pos hf]
      rfl
    · simp only [StateT.run_bind, StateT.run_modify, StateT.run_get, pure_bind, if_neg hf]
      rfl

/-- So does `merge`. -/
theorem run_merge (self other : PaneLayout K) :
    (merge other).run self = outcome self (self.merge other) := by
  unfold merge PaneLayout.merge
  simp only [StateT.run_bind, StateT.run_get, pure_bind]
  split
  · rfl
  · split
    · next hr => rw [hr]; rfl
    · next hr => rw [hr]; rfl

/-- So does `insert_beside`. -/
theorem run_insertBeside (self : PaneLayout K) (pane target : PaneId) (direction : Direction) :
    (insertBeside pane target direction).run self =
      outcome self (self.insertBeside pane target direction) := by
  unfold insertBeside PaneLayout.insertBeside
  simp only [StateT.run_bind, StateT.run_get, pure_bind]
  split
  · rfl
  · split
    · next hr => rw [hr]; rfl
    · next hr => rw [hr]; rfl

omit [Scalar K] in
private theorem snd_outcome (self : PaneLayout K) (l : Option (PaneLayout K)) :
    (outcome self l).2 = l.getD self := by
  cases l <;> rfl

/-- So does `split_focused`. -/
theorem run_splitFocused (self : PaneLayout K) (pane : PaneId) (direction : SplitDirection) :
    (splitFocused pane direction).run self = ((), self.splitFocused pane direction) := by
  have hinsert : ∀ d, ((discard (insertBeside pane self.focused d)).run self : Unit × _) =
      ((), (self.insertBeside pane self.focused d).getD self) := by
    intro d
    rw [← snd_outcome, ← run_insertBeside]
    rfl
  cases direction with
  | right => exact hinsert .right
  | down => exact hinsert .down

/-- So does `remove`. -/
theorem run_remove (self : PaneLayout K) (pane : PaneId) :
    (remove pane).run self = outcome self (self.remove pane) := by
  unfold remove PaneLayout.remove
  simp only [StateT.run_bind, StateT.run_get, pure_bind]
  split
  · rfl
  · split
    · next hr => rw [hr]; rfl
    · next root hr =>
      rw [hr]
      simp only [StateT.run_bind, StateT.run_modify, StateT.run_get, pure_bind,
        PaneLayout.contains]
      by_cases hc : root.contains self.focused = true
      · simp only [hc]
        rfl
      · rw [Bool.not_eq_true] at hc
        cases root.firstLeaf with
        | none => simp only [hc]; rfl
        | some first => simp only [hc]; rfl

/-- So does `move_beside`. -/
theorem run_moveBeside (self : PaneLayout K) (pane target : PaneId) (direction : Direction) :
    (moveBeside pane target direction).run self =
      outcome self (self.moveBeside pane target direction) := by
  unfold moveBeside PaneLayout.moveBeside
  simp only [StateT.run_bind, StateT.run_get, pure_bind, run_remove]
  split
  · rfl
  · cases self.remove pane with
    | none => rfl
    | some candidate =>
      simp only [outcome, run_insertBeside]
      cases candidate.insertBeside pane target direction with
      | none => rfl
      | some moved => rfl

omit [Scalar K] in
private theorem run_forM {xs : List PaneId} {f : PaneId → StateM (PaneLayout K) Unit}
    {g : PaneLayout K → PaneId → PaneLayout K} (h : ∀ l pane, (f pane).run l = ((), g l pane))
    (self : PaneLayout K) : (xs.forM f).run self = ((), xs.foldl g self) := by
  induction xs generalizing self with
  | nil => rfl
  | cons x xs ih =>
    show (xs.forM f).run ((f x).run self).2 = _
    rw [h, ih]
    rfl

private theorem run_pruneStep (ids : List PaneId) (self : PaneLayout K) (pane : PaneId) :
    (do if !ids.contains pane then discard (remove pane) : StateM (PaneLayout K) Unit).run self =
      ((), if ids.contains pane then self else (self.remove pane).getD self) := by
  cases ids.contains pane with
  | true => rfl
  | false =>
    show ((), ((remove pane).run self).2) = _
    rw [run_remove, snd_outcome]
    rfl

private theorem run_splitStep (direction : SplitDirection) (self : PaneLayout K)
    (pane : PaneId) :
    (do if !(← get).contains pane then splitFocused pane direction :
      StateM (PaneLayout K) Unit).run self =
      ((), if self.contains pane then self else self.splitFocused pane direction) := by
  simp only [StateT.run_bind, StateT.run_get, pure_bind]
  cases self.contains pane with
  | true => rfl
  | false => exact run_splitFocused self pane direction

/-- So does `reconcile_with_new_pane_direction`. -/
theorem run_reconcileWithNewPaneDirection (self : PaneLayout K) (ids : List PaneId)
    (direction : SplitDirection) :
    (reconcileWithNewPaneDirection ids direction).run self =
      ((), self.reconcileWithNewPaneDirection ids direction) := by
  unfold reconcileWithNewPaneDirection PaneLayout.reconcileWithNewPaneDirection
  cases ids with
  | nil => rfl
  | cons first rest =>
    -- The two loops, from whichever layout is kept for pruning.
    have hloops : ∀ kept : PaneLayout K,
        (do
          (← get).panes.forM fun pane ↦ do
            if !(first :: rest).contains pane then discard (remove pane)
          (first :: rest).forM fun pane ↦ do
            if !(← get).contains pane then splitFocused pane direction :
          StateM (PaneLayout K) Unit).run kept =
        ((), (first :: rest).foldl
          (fun l pane ↦ if l.contains pane then l else l.splitFocused pane direction)
          (kept.panes.foldl (fun l pane ↦
            if (first :: rest).contains pane then l else (l.remove pane).getD l) kept)) := by
      intro kept
      simp only [StateT.run_bind, StateT.run_get, pure_bind]
      rw [run_forM (run_pruneStep (first :: rest))]
      exact run_forM (run_splitStep direction) _
    cases hany : self.panes.any (first :: rest).contains with
    | true =>
      have h := hloops self
      simp only [StateT.run_bind, StateT.run_get, pure_bind, hany] at h ⊢
      exact h
    | false =>
      have h := hloops (single first)
      simp only [StateT.run_bind, StateT.run_get, pure_bind, hany] at h ⊢
      exact h

/-- So does `resize`. -/
theorem run_resize (self : PaneLayout K) (proposed : MuxPaneLayout K) :
    (resize proposed).run self = outcome self (self.resize proposed) := by
  unfold resize PaneLayout.resize
  cases fromMuxLayout proposed with
  | none => rfl
  | some layout =>
    simp only [StateT.run_bind, StateT.run_get, pure_bind]
    cases self.root.sameStructure layout.root with
    | true => rfl
    | false => rfl

end Method

end PaneLayout
end Bootty.Mux
