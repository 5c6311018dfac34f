import Mathlib.Logic.Basic

/-!
# Methods that change their receiver

A method with a mutable receiver may fail after it has changed the receiver. Here a method is a
chain of steps that read the receiver, of which any may fail, and steps that write it. Where all
reading comes before all writing, a failed call leaves the receiver as it was.
-/

namespace Bootty.Base

variable {σ ε α β : Type}

/-- A call on a receiver: the outcome, and the receiver after it. -/
def Method (σ ε α : Type) : Type := σ → Except ε α × σ

namespace Method

/-- A method that fails ends there, and what it changed stays. -/
instance : Monad (Method σ ε) where
  pure a := fun self ↦ (.ok a, self)
  bind method next := fun self ↦
    match method self with
    | (.ok a, self) => next a self
    | (.error error, self) => (.error error, self)

/-- A step that reads the receiver and may fail. -/
def reads (f : σ → Except ε α) : Method σ ε α := fun self ↦ (f self, self)

/-- A step that writes the receiver. -/
def writes (f : σ → σ) : Method σ ε Unit := fun self ↦ (.ok (), f self)

/-- The receiver is the same after the call. -/
def Reads (method : Method σ ε α) : Prop := ∀ self, (method self).2 = self

/-- The receiver is the same after a call that failed. -/
def Atomic (method : Method σ ε α) : Prop :=
  ∀ self error self', method self = (.error error, self') → self' = self

theorem reads_reads (f : σ → Except ε α) : Reads (reads f) := fun _ ↦ rfl

variable {method : Method σ ε α}

/-- Failing after a step that only reads is failing before it. -/
theorem Reads.bind_atomic {next : α → Method σ ε β} (h : Reads method)
    (hnext : ∀ a, Atomic (next a)) : Atomic (method >>= next) := by
  intro self error self' hcall
  have hsame := h self
  change (match method self with
    | (.ok a, self) => next a self
    | (.error error, self) => (.error error, self)) = (.error error, self') at hcall
  split at hcall
  · next a self₁ hfirst =>
    rw [hfirst] at hsame
    exact (hnext a self₁ error self' hcall).trans hsame
  · next error₁ self₁ hfirst =>
    rw [hfirst] at hsame
    exact (Prod.mk.inj hcall).2.symm.trans hsame

/-- No call fails. -/
def Total (method : Method σ ε α) : Prop := ∀ self, ∃ a self', method self = (.ok a, self')

theorem total_pure (a : α) : Total (pure a : Method σ ε α) := fun self ↦ ⟨a, self, rfl⟩

theorem total_writes (f : σ → σ) : Total (writes f : Method σ ε Unit) :=
  fun self ↦ ⟨(), f self, rfl⟩

/-- Methods that never fail, one after the other. -/
theorem Total.bind {next : α → Method σ ε β} (h : Total method) (hnext : ∀ a, Total (next a)) :
    Total (method >>= next) := by
  intro self
  have ⟨a, self₁, hfirst⟩ := h self
  have ⟨b, self', hlast⟩ := hnext a self₁
  refine ⟨b, self', ?_⟩
  change (match method self with
    | (.ok a, self) => next a self
    | (.error error, self) => (.error error, self)) = _
  rw [hfirst]
  exact hlast

/-- A method that never fails is atomic. -/
theorem Total.atomic (h : Total method) : Atomic method := by
  intro self error self' hcall
  have ⟨a, self₁, hok⟩ := h self
  rw [hok] at hcall
  cases (Prod.mk.inj hcall).1

/-! ### Calls that succeed -/

variable {self self' : σ}

@[simp] theorem bind_eq_ok {next : α → Method σ ε β} {b : β} :
    (method >>= next) self = (.ok b, self') ↔
      ∃ a self₁, method self = (.ok a, self₁) ∧ next a self₁ = (.ok b, self') := by
  change (match method self with
    | (.ok a, self) => next a self
    | (.error error, self) => (.error error, self)) = (.ok b, self') ↔ _
  constructor
  · intro hcall
    split at hcall
    · next a self₁ hfirst => exact ⟨a, self₁, hfirst, hcall⟩
    · cases (Prod.mk.inj hcall).1
  · rintro ⟨a, self₁, hfirst, hcall⟩
    rw [hfirst]
    exact hcall

@[simp] theorem reads_eq_ok {f : σ → Except ε α} {a : α} :
    reads f self = (.ok a, self') ↔ f self = .ok a ∧ self = self' := by
  simp [reads]

@[simp] theorem writes_eq_ok {f : σ → σ} {u : Unit} :
    (writes f : Method σ ε Unit) self = (.ok u, self') ↔ f self = self' := by
  simp [writes]

@[simp] theorem pure_eq_ok {a b : α} :
    (pure a : Method σ ε α) self = (.ok b, self') ↔ a = b ∧ self = self' := by
  simp [pure]

end Method
end Bootty.Base
