/-!
# Machines and their runs

A machine is a partial step function: an event that is not enabled has no successor. An
invariant of a run may assume a condition on every step taken, which is a condition on the
state before the step and on its event.
-/

namespace Bootty.Base

section Machine

variable {σ ε : Type}

/-- The states of the runs from `init` whose steps are all allowed. -/
inductive Reaches (step : σ → ε → Option σ) (allowed : σ → ε → Prop) (init : σ) : σ → Prop
  | init : Reaches step allowed init init
  | step {s s' : σ} {e : ε} (before : Reaches step allowed init s) (ok : allowed s e)
      (next : step s e = some s') : Reaches step allowed init s'

/-- Run a list of events, all of which must pass a test and be enabled. -/
def runEvents (step : σ → ε → Option σ) (test : σ → ε → Bool) : σ → List ε → Option σ
  | s, [] => some s
  | s, e :: es =>
    if test s e then (step s e).bind fun s' ↦ runEvents step test s' es else none

/-- No condition on the steps. -/
def anyStep (_ : σ) (_ : ε) : Prop := True

/-- The test of `anyStep`. -/
def anyTest (_ : σ) (_ : ε) : Bool := true

variable {step : σ → ε → Option σ} {allowed : σ → ε → Prop} {init : σ}

/-- An invariant holds initially and is kept by every allowed step. -/
theorem Reaches.invariant {I : σ → Prop} (hinit : I init)
    (hstep : ∀ s e s', I s → allowed s e → step s e = some s' → I s') {s : σ}
    (h : Reaches step allowed init s) : I s := by
  induction h with
  | init => exact hinit
  | step _ ok next ih => exact hstep _ _ _ ih ok next

/-- Weaker conditions allow more runs. -/
theorem Reaches.mono {allowed' : σ → ε → Prop} (hmono : ∀ s e, allowed s e → allowed' s e)
    {s : σ} (h : Reaches step allowed init s) : Reaches step allowed' init s := by
  induction h with
  | init => exact .init
  | step _ ok next ih => exact .step ih (hmono _ _ ok) next

/-- A run goes on from where another ends. -/
theorem Reaches.trans {s s' : σ} (h : Reaches step allowed init s)
    (h' : Reaches step allowed s s') : Reaches step allowed init s' := by
  induction h' with
  | init => exact h
  | step _ ok next ih => exact .step ih ok next

private theorem reaches_of_runEvents_from {test : σ → ε → Bool}
    (htest : ∀ s e, test s e = true → allowed s e) {s s' : σ} {es : List ε}
    (hs : Reaches step allowed init s) (h : runEvents step test s es = some s') :
    Reaches step allowed init s' := by
  induction es generalizing s with
  | nil =>
    obtain rfl : s = s' := Option.some.inj h
    exact hs
  | cons e es ih =>
    simp only [runEvents] at h
    split at h
    · next hok =>
      cases he : step s e with
      | none => simp [he] at h
      | some t =>
        simp only [he, Option.bind_some] at h
        exact ih (.step hs (htest s e hok) he) h
    · cases h

/-- A trace of allowed steps ends in a reachable state. -/
theorem reaches_of_runEvents {test : σ → ε → Bool} {es : List ε} {s : σ}
    (htest : ∀ s e, test s e = true → allowed s e) (h : runEvents step test init es = some s) :
    Reaches step allowed init s :=
  reaches_of_runEvents_from htest .init h

/-- A trace of allowed steps that ends where `goal` succeeds shows such a state reachable. -/
theorem exists_reaches_of_runEvents {test : σ → ε → Bool} {goal : σ → Bool} {es : List ε}
    (htest : ∀ s e, test s e = true → allowed s e)
    (h : (runEvents step test init es).map goal = some true) :
    ∃ s, Reaches step allowed init s ∧ goal s = true := by
  cases hr : runEvents step test init es with
  | none => simp [hr] at h
  | some s =>
    simp only [hr, Option.map_some, Option.some.injEq] at h
    exact ⟨s, reaches_of_runEvents htest hr, h⟩

/-- The same for a trace of unrestricted steps. -/
theorem exists_reaches_anyStep {goal : σ → Bool} {es : List ε}
    (h : (runEvents step anyTest init es).map goal = some true) :
    ∃ s, Reaches step anyStep init s ∧ goal s = true :=
  exists_reaches_of_runEvents (fun _ _ _ ↦ trivial) h

/-- Where every allowed step lowers a measure and one is enabled short of the goal, some run of
allowed steps gets to the goal. -/
theorem exists_reaches_goal {I goal : σ → Prop} {measure : σ → Nat}
    (hstep : ∀ s e s', I s → allowed s e → step s e = some s' → I s' ∧ measure s' < measure s)
    (hprogress : ∀ s, I s → ¬goal s → ∃ e, allowed s e ∧ (step s e).isSome) {s : σ} (hs : I s) :
    ∃ s', Reaches step allowed s s' ∧ I s' ∧ goal s' := by
  induction hn : measure s using Nat.strongRecOn generalizing s with
  | _ n ih =>
    by_cases hgoal : goal s
    · exact ⟨s, .init, hs, hgoal⟩
    · obtain ⟨e, hallowed, henabled⟩ := hprogress s hs hgoal
      obtain ⟨t, ht⟩ := Option.isSome_iff_exists.mp henabled
      obtain ⟨hI, hless⟩ := hstep s e t hs hallowed ht
      obtain ⟨s', hreaches, hdone⟩ := ih (measure t) (hn ▸ hless) hI rfl
      exact ⟨s', (Reaches.step .init hallowed ht).trans hreaches, hdone⟩

end Machine
end Bootty.Base
