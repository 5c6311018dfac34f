import Bootty.Mux.PaneLayoutMethods
import Mathlib.Data.Set.Insert

/-!
# Pane layouts under any sequence of calls

The fields of `PaneLayout` (`crates/bootty-mux/src/pane_layout.rs:108–112`) are private, so the
layouts of a running program are those that `single`, `from_mux_layout` and the methods build.
`Built` collects them. All of them are canonical trees with distinct leaves, one of them
focused, and a further call changes the panes exactly as it names.
-/

namespace Bootty.Mux

open Bootty.Base MuxPaneLayout

namespace PaneLayout

/-! ### Operations -/

/-- A call of one of the methods that change a layout. -/
inductive Operation where
  | setFocus (pane : PaneId)
  | splitFocused (pane : PaneId) (direction : SplitDirection)
  | merge (other : PaneLayout ℚ)
  | swap (first second : PaneId)
  | replace (pane replacement : PaneId)
  | insertBeside (pane target : PaneId) (direction : Direction)
  | moveBeside (pane target : PaneId) (direction : Direction)
  | remove (pane : PaneId)
  | reconcile (ids : List PaneId)
  | reconcileWithNewPaneDirection (ids : List PaneId) (direction : SplitDirection)
  | resize (proposed : MuxPaneLayout ℚ)

namespace Operation

/-- What the call returns and leaves in `self`; a method without a result counts as `true`. -/
def run (self : PaneLayout ℚ) : Operation → Bool × PaneLayout ℚ
  | setFocus p => (Method.setFocus p).run self
  | splitFocused p direction => (true, ((Method.splitFocused p direction).run self).2)
  | merge other => (Method.merge other).run self
  | swap first second => (Method.swap first second).run self
  | replace p replacement => (Method.replace p replacement).run self
  | insertBeside p target direction => (Method.insertBeside p target direction).run self
  | moveBeside p target direction => (Method.moveBeside p target direction).run self
  | remove p => (Method.remove p).run self
  | reconcile ids => (true, ((Method.reconcile ids).run self).2)
  | reconcileWithNewPaneDirection ids direction =>
    (true, ((Method.reconcileWithNewPaneDirection ids direction).run self).2)
  | resize proposed => (Method.resize proposed).run self

/-- When the operation can be carried out on a layout. -/
def Applies (self : PaneLayout ℚ) : Operation → Prop
  | setFocus p => p ∈ self.panes
  | splitFocused _ _ | reconcile _ | reconcileWithNewPaneDirection _ _ => True
  | merge other => ∀ p ∈ other.panes, p ∉ self.panes
  | swap first second => first ≠ second ∧ first ∈ self.panes ∧ second ∈ self.panes
  | replace p replacement => p ∈ self.panes ∧ replacement ∉ self.panes
  | insertBeside p target _ => p ∉ self.panes ∧ target ∈ self.panes
  | moveBeside p target _ => p ≠ target ∧ p ∈ self.panes ∧ target ∈ self.panes
  | remove p => p ∈ self.panes ∧ ∃ other ∈ self.panes, other ≠ p
  | resize proposed =>
    ∃ layout, fromMuxLayout proposed = some layout ∧ self.root.sameStructure layout.root = true

/-- The panes the operation names, from the panes before it. -/
def panesAfter (panes : Set PaneId) : Operation → Set PaneId
  | setFocus _ | swap _ _ | moveBeside _ _ _ | resize _ => panes
  | splitFocused p _ | insertBeside p _ _ => insert p panes
  | merge other => panes ∪ {q | q ∈ other.panes}
  | replace p replacement => insert replacement (panes \ {p})
  | remove p => panes \ {p}
  | reconcile ids | reconcileWithNewPaneDirection ids _ =>
    if ids = [] then panes else {q | q ∈ ids}

end Operation

/-- The layouts the module can hand out: the fields of `PaneLayout` are private, so a layout is
built by a constructor and changed by the methods, and `merge` takes another such layout. -/
inductive Built : PaneLayout ℚ → Prop
  | single (pane : PaneId) : Built (single pane)
  | fromMuxLayout {layout : MuxPaneLayout ℚ} {l : PaneLayout ℚ}
      (accepted : fromMuxLayout layout = some l) : Built l
  | run {l : PaneLayout ℚ} (built : Built l) (op : Operation)
      (argument : ∀ other, op = .merge other → Built other) : Built (op.run l).2

/-! ### One operation -/

/-- What one operation does to a well-formed layout: it succeeds exactly where it applies, the
layout stays well formed, its panes are the named ones, and a refusal changes nothing. -/
private structure Effect (l : PaneLayout ℚ) (op : Operation) (result : Bool × PaneLayout ℚ) :
    Prop where
  applies : result.1 = true ↔ op.Applies l
  wf : Wf result.2
  panes : result.1 = true → {q | q ∈ result.2.panes} = op.panesAfter {q | q ∈ l.panes}
  unchanged : result.1 = false → result.2 = l

variable {l : PaneLayout ℚ} {op : Operation}

private theorem Effect.of_outcome {result : Option (PaneLayout ℚ)} (hw : Wf l)
    (hdone : op.Applies l → ∃ l', result = some l' ∧ Wf l' ∧
      {q | q ∈ l'.panes} = op.panesAfter {q | q ∈ l.panes})
    (hrefused : ¬ op.Applies l → result = none) : Effect l op (Method.outcome l result) := by
  by_cases happlies : op.Applies l
  · have ⟨l', hresult, hw', hpanes⟩ := hdone happlies
    rw [hresult]
    exact ⟨by simpa [Method.outcome] using happlies, hw', fun _ ↦ hpanes, by simp [Method.outcome]⟩
  · rw [hrefused happlies]
    exact ⟨by simpa [Method.outcome] using happlies, hw, by simp [Method.outcome], fun _ ↦ rfl⟩

private theorem Effect.of_total {l' : PaneLayout ℚ} (happlies : op.Applies l) (hw : Wf l')
    (hpanes : {q | q ∈ l'.panes} = op.panesAfter {q | q ∈ l.panes}) :
    Effect l op (true, l') :=
  ⟨by simpa using happlies, hw, fun _ ↦ hpanes, by simp⟩

variable {xs : List PaneId}

private theorem setOf_map_swapId {a b : PaneId} (ha : a ∈ xs) (hb : b ∈ xs) :
    {q | q ∈ xs.map (swapId a b)} = {q | q ∈ xs} := by
  ext q
  simp only [Set.mem_ofPred_eq, List.mem_map]
  constructor
  · rintro ⟨x, hx, rfl⟩
    unfold swapId
    split_ifs
    · exact hb
    · exact ha
    · exact hx
  · intro hq
    by_cases hqa : q = a
    · exact ⟨b, hb, by unfold swapId; split_ifs <;> simp_all⟩
    · by_cases hqb : q = b
      · exact ⟨a, ha, by simp [swapId, hqb]⟩
      · exact ⟨q, hq, by simp [swapId, hqa, hqb]⟩

private theorem setOf_map_replaceId {a b : PaneId} (ha : a ∈ xs) (hb : b ∉ xs) :
    {q | q ∈ xs.map (swapId a b)} = insert b ({q | q ∈ xs} \ {a}) := by
  ext q
  simp only [Set.mem_ofPred_eq, List.mem_map, Set.mem_insert_iff, Set.mem_sdiff,
    Set.mem_singleton_iff]
  constructor
  · rintro ⟨x, hx, rfl⟩
    by_cases hxa : x = a
    · exact .inl (by simp [swapId, hxa])
    · have hxb : x ≠ b := fun he ↦ hb (he ▸ hx)
      exact .inr (by simpa [swapId, hxa, hxb] using hx)
  · rintro (rfl | ⟨hq, hne⟩)
    · exact ⟨a, ha, by simp [swapId]⟩
    · have hqb : q ≠ b := fun he ↦ hb (he ▸ hq)
      exact ⟨q, hq, by simp [swapId, hne, hqb]⟩

private theorem setOf_perm {ys : List PaneId} (h : xs.Perm ys) :
    {q | q ∈ xs} = {q | q ∈ ys} := by
  ext q
  exact h.mem_iff

private theorem setOf_cons (p : PaneId) (xs : List PaneId) :
    {q | q ∈ p :: xs} = insert p {q | q ∈ xs} := by
  ext q
  simp

private theorem effect_setFocus (hw : Wf l) (pane : PaneId) :
    Effect l (.setFocus pane) (Method.outcome l (l.setFocus pane)) := by
  apply Effect.of_outcome hw
  · intro hp
    have hc := (contains_iff_mem_panes l pane).mpr hp
    exact ⟨{ l with focused := pane }, by simp only [PaneLayout.setFocus, hc, if_true],
      ⟨hw.canonical, hw.nodup, hp⟩, rfl⟩
  · intro hp
    simp only [PaneLayout.setFocus, (contains_eq_false_iff l pane).mpr hp, Bool.false_eq_true,
      if_false]

private theorem effect_splitFocused (hw : Wf l) (pane : PaneId) (direction : SplitDirection) :
    Effect l (.splitFocused pane direction) (true, l.splitFocused pane direction) := by
  by_cases hp : pane ∈ l.panes
  · -- A pane that is already shown is not inserted again.
    have hsame : l.splitFocused pane direction = l := by
      simp [PaneLayout.splitFocused, PaneLayout.insertBeside, (contains_iff_mem_panes l pane).mpr hp]
    rw [hsame]
    refine .of_total trivial hw ?_
    show {q | q ∈ l.panes} = insert pane {q | q ∈ l.panes}
    rw [Set.insert_eq_of_mem]
    exact hp
  · obtain ⟨hw', hperm⟩ := hw.splitFocused hp direction
    exact .of_total trivial hw' ((setOf_perm hperm).trans (setOf_cons pane l.panes))

private theorem effect_merge {other : PaneLayout ℚ} (hw : Wf l) (ho : Wf other) :
    Effect l (.merge other) (Method.outcome l (l.merge other)) := by
  apply Effect.of_outcome hw
  · intro hd
    have ⟨l', hl', hw', hpanes⟩ := hw.merge ho hd
    refine ⟨l', hl', hw', ?_⟩
    rw [hpanes]
    ext q
    exact List.mem_append
  · intro hd
    have hany : other.panes.any l.contains = true := by
      simp only [Operation.Applies, not_forall, not_not] at hd
      have ⟨p, hp, hpl⟩ := hd
      exact List.any_eq_true.mpr ⟨p, hp, (contains_iff_mem_panes l p).mpr hpl⟩
    rw [PaneLayout.merge, if_pos hany]

private theorem effect_swap (hw : Wf l) (first second : PaneId) :
    Effect l (.swap first second) (Method.outcome l (l.swap first second)) := by
  apply Effect.of_outcome hw
  · rintro ⟨hne, hf, hs⟩
    have ⟨l', hl', hw', hpanes⟩ := hw.swap hf hs hne
    refine ⟨l', hl', hw', ?_⟩
    rw [hpanes]
    exact setOf_map_swapId hf hs
  · intro hno
    rw [PaneLayout.swap, if_pos]
    simp only [Operation.Applies, ← contains_iff_mem_panes] at hno
    grind

private theorem effect_replace (hw : Wf l) (pane replacement : PaneId) :
    Effect l (.replace pane replacement) (Method.outcome l (l.replace pane replacement)) := by
  apply Effect.of_outcome hw
  · rintro ⟨hp, hr⟩
    have ⟨l', hl', hw', hpanes⟩ := hw.replace hp hr
    refine ⟨l', hl', hw', ?_⟩
    rw [hpanes]
    exact setOf_map_replaceId hp hr
  · intro hno
    rw [PaneLayout.replace, if_pos]
    simp only [Operation.Applies, ← contains_iff_mem_panes] at hno
    grind

private theorem effect_insertBeside (hw : Wf l) (pane target : PaneId) (direction : Direction) :
    Effect l (.insertBeside pane target direction)
      (Method.outcome l (l.insertBeside pane target direction)) := by
  apply Effect.of_outcome hw
  · rintro ⟨hp, ht⟩
    have ⟨l', hl', hw', hperm, _⟩ := hw.insertBeside hp ht direction
    exact ⟨l', hl', hw', (setOf_perm hperm).trans (setOf_cons pane l.panes)⟩
  · intro hno
    rw [PaneLayout.insertBeside, if_pos]
    simp only [Operation.Applies, ← contains_iff_mem_panes] at hno
    grind

private theorem effect_moveBeside (hw : Wf l) (pane target : PaneId) (direction : Direction) :
    Effect l (.moveBeside pane target direction)
      (Method.outcome l (l.moveBeside pane target direction)) := by
  apply Effect.of_outcome hw
  · rintro ⟨hne, hp, ht⟩
    have ⟨l', hl', hw', hperm⟩ := hw.moveBeside hp ht hne direction
    exact ⟨l', hl', hw', setOf_perm hperm⟩
  · intro hno
    rw [PaneLayout.moveBeside, if_pos]
    simp only [Operation.Applies, ← contains_iff_mem_panes] at hno
    grind

private theorem exists_ne_of_split (hw : Wf l) (hs : l.isSingle = false) :
    ∃ a ∈ l.panes, ∃ b ∈ l.panes, a ≠ b := by
  obtain ⟨root, focused⟩ := l
  cases root with
  | pane id => simp [isSingle] at hs
  | split d ws cs =>
    cases hw.canonical with
    | split _ _ _ two _ _ _ child _ =>
      have hnodup := hw.nodup
      cases cs with
      | nil => cases two
      | cons c cs =>
      cases cs with
      | nil => exact absurd two (by simp)
      | cons e rest =>
        obtain ⟨a, ha⟩ := (child c (by simp)).weighted.firstLeaf
        obtain ⟨b, hb⟩ := (child e (by simp)).weighted.firstLeaf
        have hac := mem_of_firstLeaf ha
        have hbe := mem_of_firstLeaf hb
        simp only [PaneLayout.panes, leaves_split, leavesOf_cons] at hnodup ⊢
        refine ⟨a, by simp [hac], b, by simp [hbe], ?_⟩
        exact (List.nodup_append.mp hnodup).2.2 a hac b (by simp [hbe])

private theorem effect_remove (hw : Wf l) (pane : PaneId) :
    Effect l (.remove pane) (Method.outcome l (l.remove pane)) := by
  apply Effect.of_outcome hw
  · rintro ⟨hp, other, ho, hne⟩
    obtain ⟨l', hl', hw', hpanes⟩ := hw.remove hp ho hne.symm
    refine ⟨l', hl', hw', ?_⟩
    rw [hpanes]
    ext q
    simp [Operation.panesAfter]
  · intro hno
    rw [PaneLayout.remove, if_pos]
    by_cases hp : pane ∈ l.panes
    · have hall : ∀ q ∈ l.panes, q = pane := by
        intro q hq
        by_contra hne
        exact hno ⟨hp, q, hq, hne⟩
      have hsingle : l.isSingle = true := by
        by_contra hs
        obtain ⟨a, ha, b, hb, hne⟩ := exists_ne_of_split hw (by simpa using hs)
        exact hne ((hall a ha).trans (hall b hb).symm)
      rw [hsingle, Bool.true_or]
    · rw [(contains_eq_false_iff l pane).mpr hp, Bool.not_false, Bool.or_true]

private theorem effect_reconcile (hw : Wf l) (ids : List PaneId) (direction : SplitDirection)
    (happlies : op.Applies l)
    (hop : op.panesAfter {q | q ∈ l.panes} = if ids = [] then {q | q ∈ l.panes} else {q | q ∈ ids})
    :
    Effect l op (true, l.reconcileWithNewPaneDirection ids direction) := by
  by_cases hids : ids = []
  · subst hids
    exact .of_total happlies hw (by rw [hop, if_pos rfl]; rfl)
  · have ⟨hw', hm⟩ := hw.mem_reconcile hids direction
    apply Effect.of_total happlies hw'
    rw [hop, if_neg hids]
    ext q
    exact hm q

private theorem effect_resize (hw : Wf l) (proposed : MuxPaneLayout ℚ) :
    Effect l (.resize proposed) (Method.outcome l (l.resize proposed)) := by
  apply Effect.of_outcome hw
  · rintro ⟨layout, hlayout, hsame⟩
    have hleaves := leaves_of_sameStructure hsame
    have hpanes : layout.panes = l.panes := hleaves
    have hwl := wf_of_fromMuxLayout hlayout
    refine ⟨{ l with root := layout.root }, ?_, ⟨hwl.canonical, hwl.nodup, ?_⟩, ?_⟩
    · rw [PaneLayout.resize, hlayout]
      exact if_pos hsame
    · show l.focused ∈ layout.panes
      rw [hpanes]
      exact hw.focused
    · show {q | q ∈ layout.panes} = _
      rw [hpanes]
      rfl
  · intro hno
    rw [PaneLayout.resize]
    cases hlayout : fromMuxLayout proposed with
    | none => rfl
    | some layout =>
      apply if_neg
      intro hsame
      exact hno ⟨layout, hlayout, hsame⟩

private theorem effect_run (hw : Wf l) (op : Operation)
    (hother : ∀ other, op = .merge other → Wf other) : Effect l op (op.run l) := by
  cases op with
  | setFocus pane => rw [Operation.run, Method.run_setFocus]; exact effect_setFocus hw pane
  | splitFocused pane direction =>
    rw [Operation.run, Method.run_splitFocused]
    exact effect_splitFocused hw pane direction
  | merge other =>
    rw [Operation.run, Method.run_merge]
    exact effect_merge hw (hother other rfl)
  | swap first second => rw [Operation.run, Method.run_swap]; exact effect_swap hw first second
  | replace pane replacement =>
    rw [Operation.run, Method.run_replace]
    exact effect_replace hw pane replacement
  | insertBeside pane target direction =>
    rw [Operation.run, Method.run_insertBeside]
    exact effect_insertBeside hw pane target direction
  | moveBeside pane target direction =>
    rw [Operation.run, Method.run_moveBeside]
    exact effect_moveBeside hw pane target direction
  | remove pane => rw [Operation.run, Method.run_remove]; exact effect_remove hw pane
  | reconcile ids =>
    rw [Operation.run]
    unfold Method.reconcile
    rw [Method.run_reconcileWithNewPaneDirection]
    exact effect_reconcile hw ids .right trivial rfl
  | reconcileWithNewPaneDirection ids direction =>
    rw [Operation.run, Method.run_reconcileWithNewPaneDirection]
    exact effect_reconcile hw ids direction trivial rfl
  | resize proposed => rw [Operation.run, Method.run_resize]; exact effect_resize hw proposed

/-! ### Every run -/

/-- Every layout that can be built is well formed. -/
theorem Built.wf (h : Built l) : Wf l := by
  induction h with
  | single pane => exact wf_single pane
  | fromMuxLayout accepted => exact wf_of_fromMuxLayout accepted
  | run _ op _ ih hother => exact (effect_run ih op hother).wf

/-- The representation invariant: a layout built by any calls is a canonical tree with distinct
leaves, one of them focused, and a further call succeeds exactly where it applies, changes the
panes as it names, and leaves the layout alone when it returns `false`. -/
theorem Built.representation {l : PaneLayout ℚ} (h : Built l) :
    (l.root.Canonical ∧ l.panes.Nodup ∧ l.focused ∈ l.panes) ∧
      ∀ op : Operation, (∀ other, op = .merge other → Built other) →
        ((op.run l).1 = true ↔ op.Applies l) ∧
          ((op.run l).1 = true →
            {q | q ∈ (op.run l).2.panes} = op.panesAfter {q | q ∈ l.panes}) ∧
          ((op.run l).1 = false → (op.run l).2 = l) := by
  have hw := h.wf
  constructor
  · exact ⟨hw.canonical, hw.nodup, hw.focused⟩
  · intro op hother
    have heffect := effect_run hw op (fun other ho ↦ (hother other ho).wf)
    exact ⟨heffect.applies, heffect.panes, heffect.unchanged⟩

/-- Merging a window of one pane into another. -/
theorem invariant_of_merge_single :
    (single "b" : PaneLayout ℚ).focused ∈ (single "b" : PaneLayout ℚ).panes ∧
      ((Operation.merge (single "b")).run (single "a")).1 = true := by
  have hother : ∀ other, Operation.merge (single "b") = .merge other → Built other := by
    intro other h
    cases h
    exact .single "b"
  have hmerge := ((Built.representation (.single "a")).2 (.merge (single "b")) hother).1
  constructor
  · exact (Built.representation (.single "b")).1.2.2
  · apply hmerge.mpr
    show ∀ p ∈ (single "b" : PaneLayout ℚ).panes, p ∉ (single "a" : PaneLayout ℚ).panes
    simp

end PaneLayout
end Bootty.Mux
