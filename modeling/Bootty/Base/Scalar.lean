import Mathlib.Algebra.Order.Field.Rat
import Mathlib.Data.Rat.Cast.Order

/-!
# Scalar arithmetic

The split weights and surface coordinates of the program are `f32`. Everything that
only reads a scalar, compares it or combines it is written over `Scalar`, so that a
result which uses no law of the arithmetic holds for the machine format as well as for
the exact reading. `ℚ` is the exact reading: every value is finite and no operation
rounds.
-/

namespace Bootty.Base

/-- The scalar operations of the layout and geometry code, without any law. -/
class Scalar (K : Type) extends Add K, Sub K, Mul K, Div K, LE K, LT K, Min K, Max K where
  /-- A literal of the source, rounded to the format. -/
  literal : ℚ → K
  isFinite : K → Bool
  /-- `f32::mul_add`: the product and the sum are rounded once. -/
  mulAdd : K → K → K → K
  midpoint : K → K → K
  /-- `f32::total_cmp`. -/
  totalCmp : K → K → Ordering
  decidableLE : DecidableLE K
  decidableLT : DecidableLT K

namespace Scalar

variable {K : Type} [Scalar K]

/-- The order is decidable. -/
instance : DecidableLE K := Scalar.decidableLE
/-- The strict order is decidable. -/
instance : DecidableLT K := Scalar.decidableLT

/-- `iter().sum()`: a left fold from zero. -/
def total (xs : List K) : K := xs.foldl (· + ·) (literal 0)

end Scalar

/-- The exact reading of a scalar. -/
instance : Scalar ℚ where
  literal q := q
  isFinite _ := true
  mulAdd a b c := a * b + c
  midpoint a b := (a + b) / 2
  totalCmp a b := compare a b
  decidableLE := inferInstance
  decidableLT := inferInstance

namespace Scalar

@[simp] theorem literal_rat (q : ℚ) : (literal q : ℚ) = q := rfl

@[simp] theorem isFinite_rat (q : ℚ) : isFinite q = true := rfl

/-- The exact left fold is the mathematical sum. -/
@[simp] theorem total_rat (xs : List ℚ) : total xs = xs.sum := by
  have h : ∀ (acc : ℚ) (ys : List ℚ), ys.foldl (· + ·) acc = acc + ys.sum := by
    intro acc ys
    induction ys generalizing acc with
    | nil => simp
    | cons y ys ih => simp [ih, add_assoc]
  simpa [total] using h 0 xs

end Scalar
end Bootty.Base
