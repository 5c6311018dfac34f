import Mathlib.Data.List.Basic
import Mathlib.Tactic.Common

/-!
# Generations of observed resources

Resources come and go under their keys. Each recording of what is there gives a new
generation to a key that has reappeared or changed its occupant, and forgets no generation.
A key with its generation is then a token that is good only as long as nothing happened to the
resource. Counters stop at a limit.
-/

namespace Bootty.Base

/-- The last generation of every key, and what was last seen under it. -/
structure Generations (κ ο : Type) where
  generation : κ → Option Nat
  observed : κ → Option ο

namespace Generations

variable {κ ο : Type} [DecidableEq ο]

/-- Everything that can happen to the generations. -/
inductive Observation (κ ο : Type) where
  | recorded (current : κ → Option ο)
  | cleared

/-- No key has been seen. -/
def empty : Generations κ ο := ⟨fun _ ↦ none, fun _ ↦ none⟩

/-- The key is observed, under its last generation. -/
def token (g : Generations κ ο) (key : κ) : Option Nat :=
  if (g.observed key).isSome then g.generation key else none

/-- The key was absent or had another occupant. -/
def renewed (g : Generations κ ο) (key : κ) (occupant : ο) : Bool :=
  (g.observed key).isNone || (g.observed key).any (· != occupant)

/-- What an observation of the current occupants leaves. -/
def record (limit : Nat) (g : Generations κ ο) (current : κ → Option ο) : Generations κ ο where
  generation key :=
    match current key with
    | none => g.generation key
    | some occupant =>
      match g.generation key with
      | some generation =>
        if g.renewed key occupant then some (min (generation + 1) limit) else some generation
      | none => some 1
  observed := current

/-- One observation. -/
def observe (limit : Nat) (g : Generations κ ο) : Observation κ ο → Generations κ ο
  | .recorded current => g.record limit current
  | .cleared => { g with observed := fun _ ↦ none }

/-- No counter is asked to go beyond the limit. -/
def Counts (limit : Nat) (g : Generations κ ο) : List (Observation κ ο) → Prop
  | [] => True
  | .cleared :: rest => (g.observe limit .cleared).Counts limit rest
  | .recorded current :: rest =>
    (∀ key occupant generation, current key = some occupant → g.generation key = some generation →
      g.renewed key occupant = true → generation < limit) ∧
    (g.observe limit (.recorded current)).Counts limit rest

/-- The observation shows the occupant under the key. -/
def Observation.shows (key : κ) (occupant : ο) : Observation κ ο → Prop
  | .recorded current => current key = some occupant
  | .cleared => False

variable {limit : Nat}

variable {g : Generations κ ο}

/-- Counting a history in two parts. -/
theorem counts_append {first second : List (Observation κ ο)} :
    g.Counts limit (first ++ second) ↔
      g.Counts limit first ∧ (first.foldl (observe limit) g).Counts limit second := by
  induction first generalizing g with
  | nil => simp [Counts]
  | cons o first ih =>
    cases o with
    | cleared => exact ih
    | recorded current =>
      simp only [List.cons_append, Counts, List.foldl_cons, ih, and_assoc]

variable {key : κ} {occupant : ο} {generation : Nat}

/-- A recording of a key that is still there under its old occupant keeps the generation, and
any other recording of it starts a later one. -/
theorem record_of_mem {current : κ → Option ο} (hcurrent : current key = some occupant)
    (hgeneration : g.generation key = some generation)
    (hroom : g.renewed key occupant = true → generation < limit) :
    g.observed key = some occupant ∧ (g.record limit current).generation key = some generation ∨
      (g.record limit current).generation key = some (generation + 1) := by
  by_cases hrenewed : g.renewed key occupant = true
  · right
    have hmin : min (generation + 1) limit = generation + 1 := Nat.min_eq_left (hroom hrenewed)
    simp [record, hcurrent, hgeneration, hrenewed, hmin]
  · left
    constructor
    · cases hobserved : g.observed key with
      | none => simp [renewed, hobserved] at hrenewed
      | some other => simpa [renewed, hobserved] using hrenewed
    · simp [record, hcurrent, hgeneration, hrenewed]

/-- What is known of a key since its generation was taken: the counter has moved on, or the
key is gone for now, or every observation has shown the occupant. -/
private def Held (key : κ) (occupant : ο) (generation : Nat) (g : Generations κ ο)
    (past : List (Observation κ ο)) : Prop :=
  ∃ now, g.generation key = some now ∧ generation ≤ now ∧
    (now = generation → g.observed key = none ∨
      g.observed key = some occupant ∧ ∀ o ∈ past, o.shows key occupant)

private theorem held_record {past : List (Observation κ ο)}
    (h : g.Held key occupant generation past) {current : κ → Option ο}
    (hroom : ∀ key occupant generation, current key = some occupant →
      g.generation key = some generation → g.renewed key occupant = true → generation < limit) :
    (g.record limit current).Held key occupant generation (past ++ [.recorded current]) := by
  obtain ⟨now, hnow, hle, hsame⟩ := h
  cases hcurrent : current key with
  | none =>
    refine ⟨now, ?_, hle, fun _ ↦ .inl hcurrent⟩
    simp only [record, hcurrent, hnow]
  | some shown =>
    obtain ⟨hobserved, hkept⟩ | hbumped :=
      record_of_mem hcurrent hnow (hroom key shown now hcurrent hnow)
    · refine ⟨now, hkept, hle, fun heq ↦ .inr ?_⟩
      obtain hnone | ⟨hsome, hpast⟩ := hsame heq
      · rw [hobserved] at hnone
        cases hnone
      · obtain rfl : shown = occupant := by
          rw [hobserved] at hsome
          exact Option.some.inj hsome
        refine ⟨hcurrent, fun o ho ↦ ?_⟩
        obtain ho | ho := List.mem_append.mp ho
        · exact hpast o ho
        · obtain rfl := List.mem_singleton.mp ho
          exact hcurrent
    · exact ⟨now + 1, hbumped, by omega, fun heq ↦ absurd heq (by omega)⟩

private theorem held_observe {past rest : List (Observation κ ο)}
    (h : g.Held key occupant generation past) (hcounts : g.Counts limit rest) :
    (rest.foldl (observe limit) g).Held key occupant generation (past ++ rest) := by
  induction rest generalizing g past with
  | nil => simpa using h
  | cons o rest ih =>
    rw [List.foldl_cons, List.append_cons]
    cases o with
    | cleared =>
      obtain ⟨now, hnow, hle, -⟩ := h
      exact ih ⟨now, hnow, hle, fun _ ↦ .inl rfl⟩ hcounts
    | recorded current => exact ih (held_record h hcounts.1) hcounts.2

/-- A token that is good again has been good all along: every observation in between was a
recording that showed the same occupant. -/
theorem shows_of_token {observations : List (Observation κ ο)}
    (hcounts : g.Counts limit observations) (hobserved : g.observed key = some occupant)
    (htoken : g.token key = some generation)
    (hlater : (observations.foldl (observe limit) g).token key = some generation) :
    ∀ o ∈ observations, o.shows key occupant := by
  have hgeneration : g.generation key = some generation := by
    simpa [token, hobserved] using htoken
  have hstart : g.Held key occupant generation [] :=
    ⟨generation, hgeneration, Nat.le_refl _, fun _ ↦ .inr ⟨hobserved, by simp⟩⟩
  obtain ⟨now, hnow, -, hsame⟩ := held_observe hstart hcounts
  unfold token at hlater
  split at hlater
  · next hsome =>
    obtain rfl : now = generation := by
      rw [hnow] at hlater
      exact Option.some.inj hlater
    obtain hnone | ⟨-, hpast⟩ := hsame rfl
    · simp [hnone] at hsome
    · simpa using hpast
  · cases hlater

end Generations
end Bootty.Base
