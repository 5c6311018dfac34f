import Mathlib.Data.List.Forall2
import Mathlib.Logic.Basic

/-!
# Fallible steps

A chain of fallible steps ends at its first error. The laws invert a successful chain
into its successful steps, so that proofs about such code never unfold the monad.
-/

namespace Bootty.Base

/-- `Option::context`: a missing value becomes the named error. -/
def context {α ε : Type} (value : Option α) (error : ε) : Except ε α :=
  match value with
  | some a => .ok a
  | none => .error error

variable {α ε : Type} {error : ε}

@[simp] theorem context_eq_ok {value : Option α} {a : α} :
    context value error = .ok a ↔ value = some a := by
  cases value <;> simp [context]

@[simp] theorem context_some (a : α) (error : ε) :
    context (some a) error = .ok a := rfl

/-- `anyhow::ensure!`: a failed condition becomes the named error. -/
def ensure {ε : Type} (condition : Bool) (error : ε) : Except ε Unit :=
  if condition then .ok () else .error error

variable {condition : Bool}

@[simp] theorem ensure_eq_ok {u : Unit} :
    ensure condition error = .ok u ↔ condition = true := by
  cases condition <;> simp [ensure]

variable {e : ε}

/-- When a check fails. -/
theorem ensure_eq_error :
    ensure condition error = .error e ↔ condition = false ∧ error = e := by
  cases condition <;> simp [ensure]

variable {β : Type} {x : Except ε α} {f : α → Except ε β}

/-- A chain succeeds exactly when both of its steps do. -/
@[simp] theorem bind_eq_ok {b : β} :
    (x >>= f) = .ok b ↔ ∃ a, x = .ok a ∧ f a = .ok b := by
  cases x <;> simp [bind, Except.bind]

/-- A chain fails where its first step does, or its second one. -/
theorem bind_eq_error :
    (x >>= f) = .error e ↔ x = .error e ∨ ∃ a, x = .ok a ∧ f a = .error e := by
  cases x <;> simp [bind, Except.bind]

/-- An error that no step makes is not the error of a chain. -/
theorem bind_ne_error (hx : x ≠ .error e) (hf : ∀ a, f a ≠ .error e) : (x >>= f) ≠ .error e := by
  intro h
  rcases bind_eq_error.mp h with hfirst | ⟨a, _, hsecond⟩
  · exact hx hfirst
  · exact hf a hsecond

theorem ensure_ne_error (h : error ≠ e) :
    ensure condition error ≠ .error e := fun heq ↦ h (ensure_eq_error.mp heq).2

theorem ok_bind (a : α) (f : α → Except ε β) :
    ((Except.ok a : Except ε α) >>= f) = f a := rfl

@[simp] theorem pure_eq_ok {a b : α} :
    (pure a : Except ε α) = .ok b ↔ a = b := by
  simp [pure, Except.pure]

variable {xs : List α} {ys : List β}

/-- A loop of successful steps succeeds. -/
theorem mapM_eq_ok (h : List.Forall₂ (fun x y ↦ f x = .ok y) xs ys) : xs.mapM f = .ok ys := by
  induction h with
  | nil => rfl
  | cons hx _ ih => rw [List.mapM_cons, hx, ok_bind, ih, ok_bind]; rfl

/-- A loop that succeeds has successful steps. -/
theorem forall₂_of_mapM_eq_ok (h : xs.mapM f = .ok ys) :
    List.Forall₂ (fun x y ↦ f x = .ok y) xs ys := by
  induction xs generalizing ys with
  | nil =>
    obtain rfl := pure_eq_ok.mp h
    exact .nil
  | cons x xs ih =>
    rw [List.mapM_cons, bind_eq_ok] at h
    have ⟨y, hx, hrest⟩ := h
    rw [bind_eq_ok] at hrest
    have ⟨ys', hxs, heq⟩ := hrest
    obtain rfl := pure_eq_ok.mp heq
    exact .cons hx (ih hxs)

theorem exists_of_forall₂ {R : α → β → Prop} {x : α} (h : List.Forall₂ R xs ys) (hx : x ∈ xs) :
    ∃ y, R x y := by
  induction h with
  | nil => cases hx
  | cons hxy _ ih =>
    rcases List.mem_cons.mp hx with rfl | hmem
    · exact ⟨_, hxy⟩
    · exact ih hmem

/-- A success has a value. -/
theorem exists_of_isOk (h : x.isOk = true) : ∃ a, x = .ok a := by
  cases x with
  | ok a => exact ⟨a, rfl⟩
  | error e => simp [Except.isOk, Except.toBool] at h

end Bootty.Base
