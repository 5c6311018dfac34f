import Bootty.Config.KeymapProgram

/-!
# Meaning of the matcher

What a run of `next_candidates` means in terms of the bindings alone. An unbind entry is the
deletion of the earlier bindings it names. Without such entries the last matching binding should
decide; the matcher remembers one spelling of the inputs typed so far and compares it exactly.
-/

namespace Bootty.Config

open Bootty.Base

variable {A C : Type} [DecidableEq A] (toLowercase : Char → List Char) (active : C → Bool)

/-! ### Unbind entries -/

/-- Some entry of the list is active and unbinds the action from the sequence. -/
def unbindsLater (sequence : List KeymapTrigger) (action : A)
    (later : List (CompiledBinding A C)) : Bool :=
  later.any fun binding ↦
    active binding.context && binding.sequence = sequence && binding.action = .unbind action

/-- The bindings without the unbind entries and without the bindings that a later, active one
names. -/
def deleteUnbound : List (CompiledBinding A C) → List (CompiledBinding A C)
  | [] => []
  | binding :: later =>
    match binding.action with
    | .unbind _ => deleteUnbound later
    | .invoke action =>
      if unbindsLater active binding.sequence action later then deleteUnbound later
      else binding :: deleteUnbound later
    | .consume => binding :: deleteUnbound later

/-- Whether the matcher looks at a binding: it continues the active sequence with one of the
candidates. -/
def Continues (activeSequence candidates sequence : List KeymapTrigger) : Prop :=
  ∃ trigger pending, sequence.drop activeSequence.length = trigger :: pending ∧
    sequence.take activeSequence.length = activeSequence ∧
    candidates.any (triggerMatches toLowercase · trigger)

variable {sequence : List KeymapTrigger}

section Scan

variable {toLowercase active} {activeSequence candidates : List KeymapTrigger}
  {unbound : List (List KeymapTrigger × A)} {binding : CompiledBinding A C}
  {rest : List (CompiledBinding A C)}

private theorem selectBinding_skip
    (h : active binding.context = false ∨
      ¬Continues toLowercase activeSequence candidates binding.sequence) :
    selectBinding toLowercase active activeSequence candidates unbound (binding :: rest) =
      selectBinding toLowercase active activeSequence candidates unbound rest := by
  rw [selectBinding]
  split
  · rfl
  · next hactive =>
    have hnot := h.resolve_left (by simpa using hactive)
    split
    · rfl
    · next trigger pending hdrop =>
      rw [if_neg]
      rintro ⟨htake, hany⟩
      exact hnot ⟨trigger, pending, hdrop, htake, hany⟩

private theorem selectBinding_continues (hactive : active binding.context)
    {trigger : KeymapTrigger} {pending : List KeymapTrigger}
    (hdrop : binding.sequence.drop activeSequence.length = trigger :: pending)
    (htake : binding.sequence.take activeSequence.length = activeSequence)
    (hany : candidates.any (triggerMatches toLowercase · trigger)) :
    selectBinding toLowercase active activeSequence candidates unbound (binding :: rest) =
      match binding.action with
      | .unbind action =>
        selectBinding toLowercase active activeSequence candidates
          (unbound ++ [(binding.sequence, action)]) rest
      | .invoke action =>
        if (binding.sequence, action) ∈ unbound then
          selectBinding toLowercase active activeSequence candidates unbound rest
        else some ⟨!pending.isEmpty, some action, binding.flags, trigger⟩
      | .consume => some ⟨!pending.isEmpty, none, binding.flags, trigger⟩ := by
  rw [selectBinding, if_neg (by simp [hactive]), hdrop]
  cases binding.action <;> simp only [htake, hany, and_self, if_true]

/-- The active unbind entries of a list, in its order. -/
private def unbinds (active : C → Bool) (bindings : List (CompiledBinding A C)) :
    List (List KeymapTrigger × A) :=
  bindings.filterMap fun binding ↦
    match binding.action with
    | .unbind action => if active binding.context then some (binding.sequence, action) else none
    | _ => none

omit [DecidableEq A] in
private theorem mem_unbinds_singleton {action other : A} (h : binding.action = .unbind action) :
    (sequence, other) ∈ unbinds active [binding] ↔
      active binding.context ∧ (sequence, other) = (binding.sequence, action) := by
  by_cases hactive : active binding.context <;> simp [unbinds, h, hactive]

/-- The deletion in the order of the scan, with the unbind entries seen before. -/
private def deleteSeen (active : C → Bool) (seen : List (List KeymapTrigger × A)) :
    List (CompiledBinding A C) → List (CompiledBinding A C)
  | [] => []
  | binding :: rest =>
    match binding.action with
    | .unbind _ => deleteSeen active (seen ++ unbinds active [binding]) rest
    | .invoke action =>
      if (binding.sequence, action) ∈ seen then deleteSeen active seen rest
      else binding :: deleteSeen active seen rest
    | .consume => binding :: deleteSeen active seen rest

private theorem deleteSeen_nil (active : C → Bool) (seen : List (List KeymapTrigger × A)) :
    deleteSeen active seen [] = [] := rfl

private theorem deleteSeen_cons (active : C → Bool) (seen : List (List KeymapTrigger × A))
    (binding : CompiledBinding A C) (rest : List (CompiledBinding A C)) :
    deleteSeen active seen (binding :: rest) =
      match binding.action with
      | .unbind _ => deleteSeen active (seen ++ unbinds active [binding]) rest
      | .invoke action =>
        if (binding.sequence, action) ∈ seen then deleteSeen active seen rest
        else binding :: deleteSeen active seen rest
      | .consume => binding :: deleteSeen active seen rest := rfl

private theorem deleteSeen_append (active : C → Bool) (seen : List (List KeymapTrigger × A))
    (front rest : List (CompiledBinding A C)) :
    deleteSeen active seen (front ++ rest) =
      deleteSeen active seen front ++ deleteSeen active (seen ++ unbinds active front) rest := by
  induction front generalizing seen with
  | nil => simp [deleteSeen_nil, unbinds]
  | cons binding front ih =>
    rw [List.cons_append, deleteSeen_cons, deleteSeen_cons]
    cases haction : binding.action with
    | unbind action =>
      have hsplit : unbinds active (binding :: front) =
          unbinds active [binding] ++ unbinds active front := by
        unfold unbinds
        rw [← List.filterMap_append]
        rfl
      simp only [ih, hsplit, List.append_assoc]
    | invoke action =>
      have hskip : unbinds active (binding :: front) = unbinds active front := by
        simp [unbinds, haction]
      simp only [ih, hskip]
      split <;> rfl
    | consume =>
      have hskip : unbinds active (binding :: front) = unbinds active front := by
        simp [unbinds, haction]
      simp only [ih, hskip]
      rfl

private theorem mem_unbinds_reverse {action : A} {later : List (CompiledBinding A C)} :
    (sequence, action) ∈ unbinds active later.reverse ↔
      unbindsLater active sequence action later = true := by
  simp only [unbinds, unbindsLater, List.mem_filterMap, List.mem_reverse, List.any_eq_true,
    Bool.and_eq_true, decide_eq_true_eq]
  constructor
  · rintro ⟨binding, hmem, heq⟩
    split at heq
    · next found haction =>
      split at heq
      · next hactive =>
        obtain ⟨rfl, rfl⟩ := Prod.mk.inj (Option.some.inj heq)
        exact ⟨binding, hmem, ⟨hactive, rfl⟩, haction⟩
      · cases heq
    · cases heq
  · rintro ⟨binding, hmem, ⟨hactive, rfl⟩, haction⟩
    exact ⟨binding, hmem, by simp [haction, hactive]⟩

private theorem deleteSeen_reverse (bindings : List (CompiledBinding A C)) :
    deleteSeen active [] bindings.reverse = (deleteUnbound active bindings).reverse := by
  induction bindings with
  | nil => rfl
  | cons binding later ih =>
    rw [List.reverse_cons, deleteSeen_append, ih, List.nil_append, deleteUnbound, deleteSeen_cons]
    cases haction : binding.action with
    | unbind action => simp [deleteSeen_nil]
    | invoke action =>
      simp only [deleteSeen_nil, mem_unbinds_reverse]
      split <;> simp
    | consume => simp [deleteSeen_nil]

private theorem selectBinding_deleteSeen {seen : List (List KeymapTrigger × A)}
    {bindings : List (CompiledBinding A C)}
    (h : ∀ sequence action, (sequence, action) ∈ unbound ↔ (sequence, action) ∈ seen ∧
      Continues toLowercase activeSequence candidates sequence) :
    selectBinding toLowercase active activeSequence candidates unbound bindings =
      selectBinding toLowercase active activeSequence candidates []
        (deleteSeen active seen bindings) := by
  induction bindings generalizing unbound seen with
  | nil => rfl
  | cons binding rest ih =>
    by_cases hlooked : active binding.context ∧
        Continues toLowercase activeSequence candidates binding.sequence
    · have ⟨hactive, hcontinues⟩ := hlooked
      have ⟨trigger, pending, hdrop, htake, hany⟩ := hcontinues
      rw [selectBinding_continues hactive hdrop htake hany, deleteSeen_cons]
      cases haction : binding.action with
      | unbind action =>
        apply ih
        intro sequence other
        simp only [List.mem_append, h, List.mem_singleton, mem_unbinds_singleton haction, hactive,
          true_and, or_and_right]
        apply or_congr_right
        constructor
        · intro heq
          exact ⟨heq, (Prod.mk.inj heq).1 ▸ hcontinues⟩
        · exact And.left
      | invoke action =>
        simp only [h, hcontinues, and_true]
        split
        · exact ih h
        · rw [selectBinding_continues hactive hdrop htake hany, haction]
          simp
      | consume =>
        simp only
        rw [selectBinding_continues hactive hdrop htake hany, haction]
    · have hskip : active binding.context = false ∨
          ¬Continues toLowercase activeSequence candidates binding.sequence := by
        rw [not_and_or, Bool.not_eq_true] at hlooked
        exact hlooked
      rw [selectBinding_skip hskip, deleteSeen_cons]
      cases haction : binding.action with
      | unbind action =>
        apply ih
        intro sequence other
        rw [h, List.mem_append, or_and_right]
        constructor
        · exact .inl
        · rintro (hseen | ⟨hmem, hcontinues⟩)
          · exact hseen
          · have ⟨hactive, heq⟩ := (mem_unbinds_singleton haction).mp hmem
            exact absurd ⟨hactive, (Prod.mk.inj heq).1 ▸ hcontinues⟩ hlooked
      | invoke action =>
        simp only
        split
        · exact ih h
        · rw [selectBinding_skip hskip]
          exact ih h
      | consume =>
        simp only
        rw [selectBinding_skip hskip]
        exact ih h

private theorem selectBinding_deleteUnbound (bindings : List (CompiledBinding A C)) :
    selectBinding toLowercase active activeSequence candidates [] bindings.reverse =
      selectBinding toLowercase active activeSequence candidates []
        (deleteUnbound active bindings).reverse := by
  rw [← deleteSeen_reverse]
  apply selectBinding_deleteSeen
  simp

end Scan

private theorem nextCandidates_deleteUnbound (program : KeymapProgram A C)
    (candidates : List KeymapTrigger) :
    ({ program with bindings := deleteUnbound active program.bindings } :
      KeymapProgram A C).nextCandidates toLowercase candidates active =
        ((program.nextCandidates toLowercase candidates active).1,
          { (program.nextCandidates toLowercase candidates active).2 with
            bindings := deleteUnbound active program.bindings }) := by
  unfold KeymapProgram.nextCandidates
  rw [← selectBinding_deleteUnbound]
  split <;> rfl

private theorem bindings_nextCandidates (program : KeymapProgram A C)
    (candidates : List KeymapTrigger) :
    (program.nextCandidates toLowercase candidates active).2.bindings = program.bindings := by
  unfold KeymapProgram.nextCandidates
  split <;> rfl

private theorem run_eq_run_deleteUnbound (program : KeymapProgram A C)
    (inputs : List (List KeymapTrigger)) :
    program.run toLowercase active inputs =
      KeymapProgram.run toLowercase active
        { program with bindings := deleteUnbound active program.bindings } inputs := by
  induction inputs generalizing program with
  | nil => rfl
  | cons candidates rest ih =>
    rw [KeymapProgram.run, KeymapProgram.run]
    simp only [nextCandidates_deleteUnbound]
    rw [ih, bindings_nextCandidates]

private theorem deleteUnbound_append (before after : List (CompiledBinding A C)) :
    ∃ front, deleteUnbound active (before ++ after) = front ++ deleteUnbound active after := by
  induction before with
  | nil => exact ⟨[], rfl⟩
  | cons binding before ih =>
    have ⟨front, hfront⟩ := ih
    rw [List.cons_append, deleteUnbound]
    split
    · exact ⟨front, hfront⟩
    · split
      · exact ⟨front, hfront⟩
      · exact ⟨binding :: front, by rw [hfront]; rfl⟩
    · exact ⟨binding :: front, by rw [hfront]; rfl⟩

/-- An unbind entry deletes: under fixed contexts, every run gives the results of the program
without the unbind entries and without the bindings that a later, active one names. A binding
that consumes, or whose sequence and action no later active entry unbinds, stays with all that
follows it. -/
theorem run_deleteUnbound :
    (∀ (program : KeymapProgram A C) (inputs : List (List KeymapTrigger)),
      program.run toLowercase active inputs =
        KeymapProgram.run toLowercase active
          { program with bindings := deleteUnbound active program.bindings } inputs) ∧
    ∀ (before after : List (CompiledBinding A C)) (binding : CompiledBinding A C),
      (binding.action = .consume ∨ ∃ action, binding.action = .invoke action ∧
        unbindsLater active binding.sequence action after = false) →
      ∃ front, deleteUnbound active (before ++ binding :: after) =
        front ++ binding :: deleteUnbound active after := by
  constructor
  · exact run_eq_run_deleteUnbound toLowercase active
  · intro before after binding hkept
    have ⟨front, hfront⟩ := deleteUnbound_append active before (binding :: after)
    refine ⟨front, hfront.trans ?_⟩
    rw [deleteUnbound]
    rcases hkept with hconsume | ⟨action, hinvoke, hlater⟩
    · rw [hconsume]
    · simp only [hinvoke, hlater, Bool.false_eq_true, if_false]

/-! ### The last matching binding -/

/-- A sequence matches typed inputs: it has a trigger for each of them, and one of its candidates
matches that. -/
def sequenceMatches : List (List KeymapTrigger) → List KeymapTrigger → Bool
  | [], _ => true
  | _ :: _, [] => false
  | candidates :: typed, trigger :: sequence =>
    candidates.any (triggerMatches toLowercase · trigger) && sequenceMatches typed sequence

/-- The last active binding, in source order, that matches the typed inputs. -/
def lastMatching (bindings : List (CompiledBinding A C)) (typed : List (List KeymapTrigger)) :
    Option (CompiledBinding A C) :=
  bindings.reverse.find? fun binding ↦
    active binding.context && sequenceMatches toLowercase typed binding.sequence

/-- The intended meaning of one more input after typed ones that are pending: the result, and
the inputs then pending. -/
def lastBindingWins (bindings : List (CompiledBinding A C)) (typed : List (List KeymapTrigger))
    (candidates : List KeymapTrigger) : KeymapMatch A × List (List KeymapTrigger) :=
  match lastMatching toLowercase active bindings (typed ++ [candidates]) with
  | none => (if typed.isEmpty then .noMatch else .consumed, [])
  | some binding =>
    if typed.length + 1 < binding.sequence.length then (.pending, typed ++ [candidates])
    else
      match binding.action with
      | .invoke action => (.matched action binding.flags.consumed, [])
      | _ => (.consumed, [])

/-- The intended results of a run. -/
def lastBindingWinsRun (bindings : List (CompiledBinding A C))
    (typed : List (List KeymapTrigger)) : List (List KeymapTrigger) → List (KeymapMatch A)
  | [] => []
  | candidates :: rest =>
    let next := lastBindingWins toLowercase active bindings typed candidates
    next.1 :: lastBindingWinsRun bindings next.2 rest

/-- The last binding that matches one more input spells the inputs before it as the last binding
did that matched those. -/
def SpelledAlike (bindings : List (CompiledBinding A C)) (typed : List (List KeymapTrigger))
    (candidates : List KeymapTrigger) : Prop :=
  ∀ before after, lastMatching toLowercase active bindings typed = some before →
    lastMatching toLowercase active bindings (typed ++ [candidates]) = some after →
    after.sequence.take typed.length = before.sequence.take typed.length

/-- That holds at every step of a run. -/
def SpelledAlikeRun (bindings : List (CompiledBinding A C)) (typed : List (List KeymapTrigger)) :
    List (List KeymapTrigger) → Prop
  | [] => True
  | candidates :: rest =>
    SpelledAlike toLowercase active bindings typed candidates ∧
      SpelledAlikeRun bindings
        (lastBindingWins toLowercase active bindings typed candidates).2 rest

/-- Two spellings are compared by computation. -/
instance (bindings : List (CompiledBinding A C)) (typed : List (List KeymapTrigger))
    (candidates : List KeymapTrigger) :
    Decidable (SpelledAlike toLowercase active bindings typed candidates) :=
  match hbefore : lastMatching toLowercase active bindings typed,
      hafter : lastMatching toLowercase active bindings (typed ++ [candidates]) with
  | some before, some after =>
    decidable_of_iff (after.sequence.take typed.length = before.sequence.take typed.length)
      ⟨fun h before' after' hb ha ↦ by
        obtain rfl := Option.some.inj (hbefore.symm.trans hb)
        obtain rfl := Option.some.inj (hafter.symm.trans ha)
        exact h, fun h ↦ h before after hbefore hafter⟩
  | none, _ => .isTrue fun _ _ hb _ ↦ by cases hbefore.symm.trans hb
  | some _, none => .isTrue fun _ _ _ ha ↦ by cases hafter.symm.trans ha

/-- So are two runs. -/
instance (bindings : List (CompiledBinding A C)) (typed inputs : List (List KeymapTrigger)) :
    Decidable (SpelledAlikeRun toLowercase active bindings typed inputs) :=
  spelledAlikeRunDecidable bindings typed inputs
where
  spelledAlikeRunDecidable (bindings : List (CompiledBinding A C))
      (typed : List (List KeymapTrigger)) : (inputs : List (List KeymapTrigger)) →
      Decidable (SpelledAlikeRun toLowercase active bindings typed inputs)
    | [] => .isTrue trivial
    | _ :: rest => @instDecidableAnd _ _ inferInstance (spelledAlikeRunDecidable bindings _ rest)

section LastMatching

variable {toLowercase active} {bindings : List (CompiledBinding A C)}
  {typed : List (List KeymapTrigger)} {activeSequence candidates : List KeymapTrigger}

private theorem sequenceMatches_take (typed : List (List KeymapTrigger))
    (sequence : List KeymapTrigger) :
    sequenceMatches toLowercase typed (sequence.take typed.length) =
      sequenceMatches toLowercase typed sequence := by
  induction typed generalizing sequence with
  | nil => rfl
  | cons candidates typed ih =>
    cases sequence with
    | nil => rfl
    | cons trigger sequence =>
      rw [List.length_cons, List.take_succ_cons, sequenceMatches, sequenceMatches, ih]

private theorem sequenceMatches_append :
    sequenceMatches toLowercase (typed ++ [candidates]) sequence = true ↔
      sequenceMatches toLowercase typed sequence = true ∧
        ∃ trigger pending, sequence.drop typed.length = trigger :: pending ∧
          candidates.any (triggerMatches toLowercase · trigger) = true := by
  induction typed generalizing sequence with
  | nil =>
    cases sequence with
    | nil => simp [sequenceMatches]
    | cons trigger sequence => simp [sequenceMatches]
  | cons first typed ih =>
    cases sequence with
    | nil => simp [sequenceMatches]
    | cons trigger sequence =>
      rw [List.cons_append, sequenceMatches, sequenceMatches, Bool.and_eq_true, ih,
        Bool.and_eq_true, and_assoc]
      rfl

/-- The active sequence is what the last binding that matched the pending inputs begins with. -/
private structure Remembers (toLowercase : Char → List Char) (active : C → Bool)
    (bindings : List (CompiledBinding A C)) (typed : List (List KeymapTrigger))
    (activeSequence : List KeymapTrigger) : Prop where
  length : activeSequence.length = typed.length
  spelled : typed ≠ [] → ∃ before, lastMatching toLowercase active bindings typed = some before ∧
    activeSequence = before.sequence.take typed.length

omit [DecidableEq A] in
private theorem matches_of_lastMatching {binding : CompiledBinding A C}
    (h : lastMatching toLowercase active bindings typed = some binding) :
    active binding.context = true ∧
      sequenceMatches toLowercase typed binding.sequence = true := by
  have := List.find?_some h
  rwa [Bool.and_eq_true] at this

omit [DecidableEq A] in
private theorem Remembers.matches_typed
    (h : Remembers toLowercase active bindings typed activeSequence) :
    sequenceMatches toLowercase typed activeSequence = true := by
  by_cases htyped : typed = []
  · rw [htyped]
    rfl
  · have ⟨before, hlast, hsequence⟩ := h.spelled htyped
    rw [hsequence, sequenceMatches_take]
    exact (matches_of_lastMatching hlast).2

omit [DecidableEq A] in
private theorem Remembers.matches_of_continues
    (h : Remembers toLowercase active bindings typed activeSequence)
    (hcontinues : Continues toLowercase activeSequence candidates sequence) :
    sequenceMatches toLowercase (typed ++ [candidates]) sequence = true := by
  have ⟨trigger, pending, hdrop, htake, hany⟩ := hcontinues
  rw [h.length] at hdrop htake
  rw [sequenceMatches_append]
  refine ⟨?_, trigger, pending, hdrop, hany⟩
  rw [← sequenceMatches_take, htake]
  exact h.matches_typed

private theorem selectBinding_append {front rest : List (CompiledBinding A C)}
    (h : ∀ binding ∈ front, active binding.context = false ∨
      ¬Continues toLowercase activeSequence candidates binding.sequence) :
    selectBinding toLowercase active activeSequence candidates [] (front ++ rest) =
      selectBinding toLowercase active activeSequence candidates [] rest := by
  induction front with
  | nil => rfl
  | cons binding front ih =>
    rw [List.cons_append, selectBinding_skip (h binding List.mem_cons_self)]
    exact ih fun b hb ↦ h b (List.mem_cons_of_mem _ hb)

omit [DecidableEq A] in
private theorem Remembers.skip {binding : CompiledBinding A C}
    (h : Remembers toLowercase active bindings typed activeSequence)
    (hnot : ¬(active binding.context &&
      sequenceMatches toLowercase (typed ++ [candidates]) binding.sequence) = true) :
    active binding.context = false ∨
      ¬Continues toLowercase activeSequence candidates binding.sequence := by
  rw [Bool.and_eq_true, not_and_or, Bool.not_eq_true] at hnot
  exact hnot.imp id (mt h.matches_of_continues)

/-- One step: the matcher does what the last matching binding says, and remembers its
spelling. -/
private theorem Remembers.step
    (h : Remembers toLowercase active bindings typed activeSequence)
    (hnone : ∀ binding ∈ bindings, ∀ action, binding.action ≠ .unbind action)
    (halike : SpelledAlike toLowercase active bindings typed candidates) :
    let next := respond activeSequence
      (selectBinding toLowercase active activeSequence candidates [] bindings.reverse)
    let wanted := lastBindingWins toLowercase active bindings typed candidates
    next.1 = wanted.1 ∧ Remembers toLowercase active bindings wanted.2 next.2 := by
  have hstart : Remembers toLowercase active bindings [] [] := ⟨rfl, fun hne ↦ absurd rfl hne⟩
  unfold lastBindingWins
  cases hlast : lastMatching toLowercase active bindings (typed ++ [candidates]) with
  | none =>
    have hselect : selectBinding toLowercase active activeSequence candidates []
        bindings.reverse = none := by
      rw [← List.append_nil bindings.reverse, selectBinding_append]
      · rfl
      · intro binding hbinding
        exact h.skip (List.find?_eq_none.mp hlast binding hbinding)
    rw [hselect, respond]
    have hlength := h.length
    cases typed with
    | nil =>
      obtain rfl := List.eq_nil_of_length_eq_zero hlength
      exact ⟨rfl, hstart⟩
    | cons first typed =>
      cases activeSequence with
      | nil => cases hlength
      | cons trigger activeSequence => exact ⟨rfl, hstart⟩
  | some binding =>
    have ⟨hactive, hmatches⟩ := matches_of_lastMatching hlast
    have ⟨htyped, trigger, pending, hdrop, hany⟩ := sequenceMatches_append.mp hmatches
    have ⟨_, front, rest, hsplit, hfront⟩ := List.find?_eq_some_iff_append.mp hlast
    have htake : binding.sequence.take typed.length = activeSequence := by
      by_cases hnil : typed = []
      · subst hnil
        exact (List.eq_nil_of_length_eq_zero h.length).symm
      · have ⟨before, hbefore, hsequence⟩ := h.spelled hnil
        rw [hsequence]
        exact halike before binding hbefore hlast
    have hmem : binding ∈ bindings := by
      rw [← List.mem_reverse, hsplit]
      simp
    have hselect : selectBinding toLowercase active activeSequence candidates []
        bindings.reverse = selectBinding toLowercase active activeSequence candidates []
          (binding :: rest) := by
      rw [hsplit]
      apply selectBinding_append
      intro other hother
      have hnot := hfront other hother
      rw [Bool.not_eq_true', ← Bool.not_eq_true] at hnot
      exact h.skip hnot
    have hpending : (!pending.isEmpty) = decide (typed.length + 1 < binding.sequence.length) := by
      have hlength := congrArg List.length hdrop
      rw [List.length_drop, List.length_cons] at hlength
      cases pending with
      | nil =>
        rw [List.length_nil] at hlength
        simp
        omega
      | cons next pending =>
        rw [List.length_cons] at hlength
        simp
        omega
    rw [← h.length] at hdrop htake
    rw [hselect, selectBinding_continues hactive hdrop htake hany]
    rw [h.length] at hdrop htake
    have hnext : Remembers toLowercase active bindings (typed ++ [candidates])
        (activeSequence ++ [trigger]) := by
      constructor
      · rw [List.length_append, List.length_append, h.length]
        rfl
      · intro _
        refine ⟨binding, hlast, ?_⟩
        rw [List.length_append, List.length_singleton, List.take_add, htake, hdrop]
        rfl
    cases haction : binding.action with
    | unbind action => exact absurd haction (hnone binding hmem action)
    | invoke action =>
      simp only [haction, List.not_mem_nil, if_false, respond, hpending, decide_eq_true_eq]
      split
      · exact ⟨rfl, hnext⟩
      · exact ⟨rfl, hstart⟩
    | consume =>
      simp only [haction, respond, hpending, decide_eq_true_eq]
      split
      · exact ⟨rfl, hnext⟩
      · exact ⟨rfl, hstart⟩

private theorem run_eq_lastBindingWinsRun {inputs : List (List KeymapTrigger)}
    (h : Remembers toLowercase active bindings typed activeSequence)
    (hnone : ∀ binding ∈ bindings, ∀ action, binding.action ≠ .unbind action)
    (hinputs : ∀ candidates ∈ inputs, candidates ≠ [])
    (halike : SpelledAlikeRun toLowercase active bindings typed inputs) :
    KeymapProgram.run toLowercase active ⟨bindings, activeSequence⟩ inputs =
      lastBindingWinsRun toLowercase active bindings typed inputs := by
  induction inputs generalizing typed activeSequence with
  | nil => rfl
  | cons candidates rest ih =>
    have ⟨hnow, hlater⟩ := halike
    have ⟨hresult, hremembers⟩ := h.step hnone hnow
    have hempty : ¬candidates.isEmpty := by
      rw [List.isEmpty_iff]
      exact hinputs candidates List.mem_cons_self
    rw [KeymapProgram.run, lastBindingWinsRun, KeymapProgram.nextCandidates, if_neg hempty]
    simp only
    rw [hresult, ih hremembers (fun c hc ↦ hinputs c (List.mem_cons_of_mem _ hc)) hlater]

end LastMatching

private theorem mem_pushWithoutSide {candidates : List KeymapModifiers}
    {modifier : KeymapModifier} {modifiers : KeymapModifiers} (h : modifiers ∈ candidates) :
    modifiers ∈ pushWithoutSide candidates modifier := by
  have hgrows : ∀ rest extended : List KeymapModifiers, modifiers ∈ extended →
      modifiers ∈ rest.foldl (fun extended candidate ↦
        if candidate.setSide none modifier ∈ extended then extended
        else extended ++ [candidate.setSide none modifier]) extended := by
    intro rest
    induction rest with
    | nil => exact fun _ ↦ id
    | cons candidate rest ih =>
      intro extended hmem
      rw [List.foldl_cons]
      apply ih
      split
      · exact hmem
      · exact List.mem_append_left _ hmem
  exact hgrows candidates candidates h

private theorem mem_inputCandidates (modifiers : KeymapModifiers) :
    modifiers ∈ modifiers.inputCandidates := by
  have hgrows : ∀ (sided : List KeymapModifier) (candidates : List KeymapModifiers),
      modifiers ∈ candidates → modifiers ∈ sided.foldl (fun candidates modifier ↦
        if (modifiers.side modifier).isSome then pushWithoutSide candidates modifier
        else candidates) candidates := by
    intro sided
    induction sided with
    | nil => exact fun _ ↦ id
    | cons modifier sided ih =>
      intro candidates hmem
      rw [List.foldl_cons]
      apply ih
      split
      · exact mem_pushWithoutSide hmem
      · exact hmem
  exact hgrows _ _ List.mem_cons_self

private theorem inputCandidates_ne_nil (modifiers : KeymapModifiers) :
    modifiers.inputCandidates ≠ [] :=
  List.ne_nil_of_mem (mem_inputCandidates modifiers)

private theorem KeymapInput.candidates_ne_nil (input : KeymapInput) : input.candidates ≠ [] := by
  cases input with
  | key physical modifiers text =>
    have ⟨first, rest, h⟩ := List.exists_cons_of_ne_nil (inputCandidates_ne_nil modifiers)
    simp [candidates, h]
  | scroll up modifiers => simp [candidates, inputCandidates_ne_nil modifiers]

/-- In a run in which the last matching binding always spells the inputs typed before as they
are remembered, it decides every result. -/
theorem run_eq_lastBindingWins (bindings : List (CompiledBinding A C))
    (hnone : ∀ binding ∈ bindings, ∀ action, binding.action ≠ .unbind action)
    (inputs : List KeymapInput)
    (halike : SpelledAlikeRun toLowercase active bindings [] (inputs.map KeymapInput.candidates)) :
    KeymapProgram.run toLowercase active ⟨bindings, []⟩ (inputs.map KeymapInput.candidates) =
      lastBindingWinsRun toLowercase active bindings [] (inputs.map KeymapInput.candidates) := by
  apply run_eq_lastBindingWinsRun ⟨rfl, fun hne ↦ absurd rfl hne⟩ hnone _ halike
  intro candidates hcandidates
  have ⟨input, _, heq⟩ := List.mem_map.mp hcandidates
  exact heq ▸ input.candidates_ne_nil

private def chord (keystrokes action : String) : KeymapBindingSnapshot Unit :=
  ⟨.global, keystrokes, .command action none, .binding, .user⟩

private def compiledChords (chords : List (KeymapBindingSnapshot Unit)) :
    List (CompiledBinding String KeymapContext) :=
  (KeymapProgram.compile id
    (fun action ↦
      match action with
      | .none => .ok none
      | .command name _ => .ok (some name))
    .ok chords).1.bindings

private def typedKey (key : KeymapPhysicalKey) (text : Char) : KeymapInput :=
  .key key {} (some text)

private def asciiLowercase (c : Char) : List Char := [c.toLower]

private theorem not_unbind {bindings : List (CompiledBinding String KeymapContext)}
    (h : ∀ binding ∈ bindings, binding.action = .invoke "x" ∨ binding.action = .invoke "y") :
    ∀ binding ∈ bindings, ∀ action, binding.action ≠ .unbind action := by
  intro binding hbinding action haction
  rcases h binding hbinding with hx | hy
  · cases hx.symm.trans haction
  · cases hy.symm.trans haction

/-- Two chords with one spelling of their common key. -/
theorem run_eq_lastBindingWins_alike :
    KeymapProgram.run asciiLowercase (fun _ ↦ true)
        ⟨compiledChords [chord "a b" "x", chord "a c" "y"], []⟩
        ([typedKey .a 'a', typedKey .b 'b'].map KeymapInput.candidates) =
      lastBindingWinsRun asciiLowercase (fun _ ↦ true)
        (compiledChords [chord "a b" "x", chord "a c" "y"]) []
        ([typedKey .a 'a', typedKey .b 'b'].map KeymapInput.candidates) :=
  run_eq_lastBindingWins asciiLowercase (fun _ ↦ true) _ (not_unbind (by decide +kernel))
    [typedKey .a 'a', typedKey .b 'b'] (by decide +kernel)

/-- The key in another spelling in the later chord: the earlier one matches both inputs, and is
not found. -/
theorem not_run_eq_lastBindingWins :
    ¬∀ (bindings : List (CompiledBinding String KeymapContext)) (inputs : List KeymapInput),
      (∀ binding ∈ bindings, ∀ action, binding.action ≠ .unbind action) →
      KeymapProgram.run asciiLowercase (fun _ ↦ true) ⟨bindings, []⟩
          (inputs.map KeymapInput.candidates) =
        lastBindingWinsRun asciiLowercase (fun _ ↦ true) bindings []
          (inputs.map KeymapInput.candidates) := by
  intro h
  have hrun : KeymapProgram.run asciiLowercase (fun _ ↦ true)
      ⟨compiledChords [chord "a b" "x", chord "KeyA c" "y"], []⟩
      ([typedKey .a 'a', typedKey .b 'b'].map KeymapInput.candidates) =
        [.pending, .consumed] := by decide +kernel
  have hwanted : lastBindingWinsRun asciiLowercase (fun _ ↦ true)
      (compiledChords [chord "a b" "x", chord "KeyA c" "y"]) []
      ([typedKey .a 'a', typedKey .b 'b'].map KeymapInput.candidates) =
        [.pending, .matched "x" true] := by decide +kernel
  have hsame := h (compiledChords [chord "a b" "x", chord "KeyA c" "y"])
    [typedKey .a 'a', typedKey .b 'b'] (not_unbind (by decide +kernel))
  rw [hrun, hwanted] at hsame
  cases hsame

end Bootty.Config
