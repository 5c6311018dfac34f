import Mathlib.Algebra.GroupWithZero.Nat
import Mathlib.Data.Nat.Notation

/-!
# Arithmetic of bounded counters

The saturating and the checked operations of an unsigned machine type, on numbers with the
largest value of the type as a parameter.
-/

namespace Bootty.Base

section BoundedNat

variable {top a b c : ℕ}

/-- `saturating_add` up to `top`. -/
def saturatingAdd (top a b : ℕ) : ℕ := min (a + b) top

/-- `saturating_mul` up to `top`. -/
def saturatingMul (top a b : ℕ) : ℕ := min (a * b) top

/-- `checked_add` up to `top`. -/
def checkedAdd (top a b : ℕ) : Option ℕ := if a + b ≤ top then some (a + b) else none

/-- `checked_mul` up to `top`. -/
def checkedMul (top a b : ℕ) : Option ℕ := if a * b ≤ top then some (a * b) else none

theorem saturatingAdd_of_le (h : a + b ≤ top) : saturatingAdd top a b = a + b :=
  Nat.min_eq_left h

theorem le_saturatingAdd (ha : c ≤ a) (htop : c ≤ top) : c ≤ saturatingAdd top a b :=
  Nat.le_min.mpr ⟨Nat.le_trans ha (Nat.le_add_right a b), htop⟩

/-- When a checked sum is there. -/
theorem checkedAdd_eq_some : checkedAdd top a b = some c ↔ a + b ≤ top ∧ a + b = c := by
  simp [checkedAdd, Option.ite_none_right_eq_some]

/-- When a checked product is there. -/
theorem checkedMul_eq_some : checkedMul top a b = some c ↔ a * b ≤ top ∧ a * b = c := by
  simp [checkedMul, Option.ite_none_right_eq_some]

end BoundedNat
end Bootty.Base
