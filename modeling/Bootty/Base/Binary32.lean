import Bootty.Base.Scalar

/-!
# The binary32 format

The scalar operations of `f32` on its bit patterns: an operation computes the exact rational
result and rounds it once, to nearest with ties to even. A result that is not a number has
one bit pattern here, since its sign and payload are unspecified.
-/

namespace Bootty.Base

/-- A single-precision number by its bit pattern. -/
structure Binary32 where
  bits : BitVec 32
  deriving DecidableEq

namespace Binary32

/-- The sign. -/
def negative (x : Binary32) : Bool := x.bits.msb

/-- The exponent and fraction fields; they order the absolute values. -/
def magnitude (x : Binary32) : Nat := x.bits.toNat % 2 ^ 31

/-- The value of a magnitude and a sign. -/
def ofMagnitude (negative : Bool) (magnitude : Nat) : Binary32 :=
  ⟨BitVec.ofNat 32 (if negative then 2 ^ 31 + magnitude else magnitude)⟩

/-- The fields of an infinity. -/
def infinityBits : Nat := 0x7f800000

/-- Not a number. -/
def isNan (x : Binary32) : Bool := infinityBits < x.magnitude

/-- An infinity. -/
def isInfinite (x : Binary32) : Bool := x.magnitude == infinityBits

/-- A number. -/
def isFinite (x : Binary32) : Bool := x.magnitude < infinityBits

/-- The canonical NaN. -/
def nan : Binary32 := ofMagnitude false 0x7fc00000

/-- The infinity of a sign. -/
def infinity (negative : Bool) : Binary32 := ofMagnitude negative infinityBits

/-- The absolute value of a finite number in units of the least subnormal, `2 ^ -149`. -/
def units (x : Binary32) : Nat :=
  let exponent := x.magnitude / 2 ^ 23
  let fraction := x.magnitude % 2 ^ 23
  if exponent = 0 then fraction else (2 ^ 23 + fraction) * 2 ^ (exponent - 1)

/-- The value of a finite number. -/
def value (x : Binary32) : ℚ :=
  let absolute : ℚ := x.units / 2 ^ 149
  if x.negative then -absolute else absolute

/-- The integer nearest to `n / d`, the even one of two. -/
def roundHalfEven (n d : Nat) : Nat :=
  let floor := n / d
  let rest := 2 * (n % d)
  if rest < d then floor else if rest = d then floor + floor % 2 else floor + 1

/-- The nearest number; a zero result takes the sign that its operation gives it. A carry out
of the fraction enters the exponent field, up to infinity. -/
def round (negativeZero : Bool) (q : ℚ) : Binary32 :=
  if q = 0 then ofMagnitude negativeZero 0
  else
    let n := q.num.natAbs * 2 ^ 149
    let shift := (n / q.den).log2 - 23
    ofMagnitude (q < 0)
      (min infinityBits (shift * 2 ^ 23 + roundHalfEven n (q.den * 2 ^ shift)))

/-- Addition, rounded to even. -/
def add (a b : Binary32) : Binary32 :=
  if a.isNan || b.isNan then nan
  else if a.isInfinite then if b.isInfinite && a.negative != b.negative then nan else a
  else if b.isInfinite then b
  else round (a.negative && b.negative) (a.value + b.value)

/-- The other sign. -/
def neg (a : Binary32) : Binary32 := ofMagnitude (!a.negative) a.magnitude

/-- Multiplication, rounded to even. -/
def mul (a b : Binary32) : Binary32 :=
  let negative := a.negative != b.negative
  if a.isNan || b.isNan then nan
  else if a.isInfinite || b.isInfinite then
    if a.magnitude == 0 || b.magnitude == 0 then nan else infinity negative
  else round negative (a.value * b.value)

/-- Division, rounded to even. -/
def div (a b : Binary32) : Binary32 :=
  let negative := a.negative != b.negative
  if a.isNan || b.isNan || (a.isInfinite && b.isInfinite) then nan
  else if a.isInfinite then infinity negative
  else if b.isInfinite then ofMagnitude negative 0
  else if b.magnitude == 0 then if a.magnitude == 0 then nan else infinity negative
  else round negative (a.value / b.value)

/-- `f32::mul_add`. -/
def mulAdd (a b c : Binary32) : Binary32 :=
  let negative := a.negative != b.negative
  if a.isNan || b.isNan || c.isNan then nan
  else if a.isInfinite || b.isInfinite then
    if a.magnitude == 0 || b.magnitude == 0 || (c.isInfinite && negative != c.negative) then nan
    else infinity negative
  else if c.isInfinite then c
  else round (negative && c.negative) (a.value * b.value + c.value)

/-- `f32::midpoint`. -/
def midpoint (a b : Binary32) : Binary32 :=
  if a.isFinite && b.isFinite then
    round (a.negative && b.negative) ((a.value + b.value) / 2)
  else a.add b

/-- The two zeros are equal in this order, infinities are its ends. -/
def order (x : Binary32) : Int := if x.negative then -x.magnitude else x.magnitude

/-- `==` on floats: a NaN equals nothing, the two zeros are equal. -/
def eq (a b : Binary32) : Bool := !a.isNan && !b.isNan && a.order == b.order

/-- `<=`, which no NaN satisfies. -/
def le (a b : Binary32) : Bool := !a.isNan && !b.isNan && decide (a.order ≤ b.order)

/-- `<`, which no NaN satisfies. -/
def lt (a b : Binary32) : Bool := !a.isNan && !b.isNan && decide (a.order < b.order)

/-- `f32::min`: a number is preferred to a NaN. -/
def min (a b : Binary32) : Binary32 :=
  if a.isNan then b else if b.isNan then a else if a.order ≤ b.order then a else b

/-- `f32::max`. -/
def max (a b : Binary32) : Binary32 :=
  if a.isNan then b else if b.isNan then a else if a.order ≤ b.order then b else a

/-- `f32::total_cmp`: the order of the sign and magnitude, zeros and NaNs included. -/
def totalCmp (a b : Binary32) : Ordering :=
  let key := fun x : Binary32 ↦ if x.negative then -(x.magnitude : Int) - 1 else x.magnitude
  compare (key a) (key b)

end Binary32

/-- `f32`. -/
instance : Scalar Binary32 where
  add := Binary32.add
  sub a b := a.add b.neg
  mul := Binary32.mul
  div := Binary32.div
  le a b := a.le b = true
  lt a b := a.lt b = true
  min := Binary32.min
  max := Binary32.max
  literal := Binary32.round false
  isFinite := Binary32.isFinite
  mulAdd := Binary32.mulAdd
  midpoint := Binary32.midpoint
  totalCmp := Binary32.totalCmp
  decidableLE a b := inferInstanceAs (Decidable (a.le b = true))
  decidableLT a b := inferInstanceAs (Decidable (a.lt b = true))

example : (Scalar.literal (1 / 10) : Binary32).bits = 0x3dcccccd#32 := by decide +kernel

end Bootty.Base
