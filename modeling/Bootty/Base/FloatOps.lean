import Bootty.Base.Binary32

/-!
# Numbers that compare equal

What a painter does with floats besides arithmetic, and the numbers it cannot tell apart: those
with the same bits, and those that `==` calls equal. An operation of such numbers gives such a
number; of `f32` this is proved, the two zeros being the only ones that differ in their bits.
-/

namespace Bootty.Base

/-- A format with comparison, absolute values and conversion to bytes. -/
class FloatOps (K : Type) extends Scalar K where
  /-- `==`. -/
  eq : K → K → Bool
  abs : K → K
  /-- `round`, `clamp` to the range of a byte, and `to_u8`. -/
  toByte : K → UInt8

/-- The same number: of the same bits, or equal. -/
def Same {K : Type} [FloatOps K] (a b : K) : Prop := a = b ∨ FloatOps.eq a b = true

/-- Operations do not tell apart numbers that compare equal. -/
class LawfulFloatOps (K : Type) [FloatOps K] : Prop where
  symm {a b : K} : Same a b → Same b a
  trans {a b c : K} : Same a b → Same b c → Same a c
  add {a b c d : K} : Same a b → Same c d → Same (a + c) (b + d)
  sub {a b c d : K} : Same a b → Same c d → Same (a - c) (b - d)
  mul {a b c d : K} : Same a b → Same c d → Same (a * c) (b * d)
  mulAdd {a b c d x y : K} : Same a b → Same c d → Same x y →
    Same (Scalar.mulAdd a c x) (Scalar.mulAdd b d y)
  min {a b c d : K} : Same a b → Same c d → Same (min a c) (min b d)
  max {a b c d : K} : Same a b → Same c d → Same (max a c) (max b d)
  abs {a b : K} : Same a b → Same (FloatOps.abs a) (FloatOps.abs b)
  le {a b c d : K} : Same a b → Same c d → (a ≤ c ↔ b ≤ d)

variable {K : Type}

theorem Same.refl [FloatOps K] (a : K) : Same a a := Or.inl rfl

/-- Numbers that compare equal are equal. -/
def ExactEq (K : Type) [FloatOps K] : Prop := ∀ a b : K, FloatOps.eq a b = true → a = b

/-- Exact values that are the same are equal. -/
theorem Same.eq [FloatOps K] {a b : K} (h : Same a b) (hexact : ExactEq K) : a = b :=
  h.elim id (hexact a b)

theorem ExactEq.lawful [FloatOps K] (h : ExactEq K) : LawfulFloatOps K := by
  have heq : ∀ {a b : K}, Same a b → a = b := fun hab ↦ hab.eq h
  constructor
  · intro a b hab
    rw [heq hab]
    exact .refl b
  · intro a b c hab hbc
    rw [heq hab]
    exact hbc
  · intro a b c d hab hcd
    rw [heq hab, heq hcd]
    exact .refl _
  · intro a b c d hab hcd
    rw [heq hab, heq hcd]
    exact .refl _
  · intro a b c d hab hcd
    rw [heq hab, heq hcd]
    exact .refl _
  · intro a b c d x y hab hcd hxy
    rw [heq hab, heq hcd, heq hxy]
    exact .refl _
  · intro a b c d hab hcd
    rw [heq hab, heq hcd]
    exact .refl _
  · intro a b c d hab hcd
    rw [heq hab, heq hcd]
    exact .refl _
  · intro a b hab
    rw [heq hab]
    exact .refl _
  · intro a b c d hab hcd
    rw [heq hab, heq hcd]

/-- The exact reading. -/
instance : FloatOps ℚ where
  eq a b := a == b
  abs x := |x|
  toByte x := UInt8.ofNat (min 255 (x + 1 / 2).floor.toNat)

/-! ### Binary32 -/

namespace Binary32

/-- `f32::abs`. -/
def abs (x : Binary32) : Binary32 := ofMagnitude false x.magnitude

/-- A number that is not a NaN, rounded half away from zero and clamped; a NaN has no byte. -/
def toByte (x : Binary32) : UInt8 :=
  if x.isNan then 0
  else if x.negative then 0
  else if x.isInfinite then 255
  else UInt8.ofNat (Nat.min 255 (x.value + 1 / 2).floor.toNat)

/-- The operations of `f32`. -/
instance : FloatOps Binary32 where
  eq := Binary32.eq
  abs := Binary32.abs
  toByte := Binary32.toByte

/-- The two numbers are identical, or both are zeros. -/
def Alike (a b : Binary32) : Prop := a = b ∨ a.magnitude = 0 ∧ b.magnitude = 0

private theorem Alike.refl (a : Binary32) : Alike a a := Or.inl rfl

variable {a b c : Binary32}

private theorem Alike.trans (hab : Alike a b) (hbc : Alike b c) : Alike a c := by
  rcases hab with rfl | ⟨ha, hb⟩
  · exact hbc
  · rcases hbc with rfl | ⟨_, hc⟩
    · exact Or.inr ⟨ha, hb⟩
    · exact Or.inr ⟨ha, hc⟩

private theorem Alike.magnitude_eq (h : Alike a b) : a.magnitude = b.magnitude := by
  rcases h with rfl | ⟨ha, hb⟩
  · rfl
  · rw [ha, hb]

private theorem order_of_zero (h : a.magnitude = 0) : a.order = 0 := by
  simp [order, h]

private theorem Alike.order_eq (h : Alike a b) : a.order = b.order := by
  rcases h with rfl | ⟨ha, hb⟩
  · rfl
  · rw [order_of_zero ha, order_of_zero hb]

private theorem value_of_zero (h : a.magnitude = 0) : a.value = 0 := by
  simp [value, units, h]

private theorem isNan_of_zero (h : a.magnitude = 0) : a.isNan = false := by
  simp [isNan, h]

private theorem isInfinite_of_zero (h : a.magnitude = 0) : a.isInfinite = false := by
  simp [isInfinite, h, infinityBits]

private theorem eq_of_fields (hsign : a.negative = b.negative)
    (hmagnitude : a.magnitude = b.magnitude) :
    a = b := by
  have ha := a.bits.isLt
  have hb := b.bits.isLt
  have hbits : a.bits.toNat = b.bits.toNat := by
    simp only [negative, magnitude, BitVec.msb_eq_decide, decide_eq_decide] at hsign hmagnitude
    omega
  cases a
  cases b
  exact congrArg Binary32.mk (BitVec.eq_of_toNat_eq hbits)

/-- Numbers are the same if they are identical or both zeros. -/
theorem same_iff : Same a b ↔ Alike a b := by
  constructor
  · rintro (rfl | h)
    · exact .refl a
    · have heq : a.eq b = true := h
      simp only [eq, Bool.and_eq_true, beq_iff_eq, order] at heq
      have horder := heq.2
      by_cases hsign : a.negative = b.negative
      · apply Or.inl
        apply eq_of_fields hsign
        rw [hsign] at horder
        split at horder <;> omega
      · apply Or.inr
        split at horder <;> split at horder
        all_goals first | omega | simp_all
  · rintro (rfl | ⟨ha, hb⟩)
    · exact .refl a
    · apply Or.inr
      show a.eq b = true
      simp [eq, isNan_of_zero ha, isNan_of_zero hb, order_of_zero ha, order_of_zero hb]

private theorem magnitude_ofMagnitude (negative : Bool) {magnitude : Nat} (h : magnitude < 2 ^ 31) :
    (ofMagnitude negative magnitude).magnitude = magnitude := by
  cases negative <;> simp only [ofMagnitude, Binary32.magnitude, BitVec.toNat_ofNat] <;> simp <;>
    omega

/-- The sign of a zero result does not matter. -/
theorem alike_round (s t : Bool) (q : ℚ) : Alike (round s q) (round t q) := by
  unfold round
  split
  · exact Or.inr ⟨magnitude_ofMagnitude s (by decide), magnitude_ofMagnitude t (by decide)⟩
  · exact .refl _

private theorem add_of_zero (h : a.magnitude = 0) (b : Binary32) :
    a.add b = if b.isNan then nan else if b.isInfinite then b
      else round (a.negative && b.negative) b.value := by
  simp [add, isNan_of_zero h, isInfinite_of_zero h, value_of_zero h]

private theorem add_zero_of_zero (a : Binary32) (h : b.magnitude = 0) :
    a.add b = if a.isNan then nan else if a.isInfinite then a
      else round (a.negative && b.negative) a.value := by
  simp [add, isNan_of_zero h, isInfinite_of_zero h, value_of_zero h]

variable {d : Binary32}

private theorem Alike.add (hab : Alike a b) (hcd : Alike c d) :
    Alike (a.add c) (b.add d) := by
  have hleft : Alike (a.add c) (b.add c) := by
    rcases hab with rfl | ⟨ha, hb⟩
    · exact .refl _
    · rw [add_of_zero ha, add_of_zero hb]
      split
      · exact .refl _
      · split
        · exact .refl _
        · exact alike_round _ _ _
  apply hleft.trans
  rcases hcd with rfl | ⟨hc, hd⟩
  · exact .refl _
  · rw [add_zero_of_zero b hc, add_zero_of_zero b hd]
    split
    · exact .refl _
    · split
      · exact .refl _
      · exact alike_round _ _ _

private theorem mul_of_zero (h : a.magnitude = 0) (b : Binary32) :
    a.mul b = if b.isNan || b.isInfinite then nan else round (a.negative != b.negative) 0 := by
  rw [mul]
  simp only [isNan_of_zero h, isInfinite_of_zero h, value_of_zero h, h, Bool.false_or, zero_mul]
  cases b.isNan <;> cases b.isInfinite <;> simp

private theorem mul_zero_of_zero (a : Binary32) (h : b.magnitude = 0) :
    a.mul b = if a.isNan || a.isInfinite then nan else round (a.negative != b.negative) 0 := by
  rw [mul]
  simp only [isNan_of_zero h, isInfinite_of_zero h, value_of_zero h, h, Bool.or_false, mul_zero]
  cases a.isNan <;> cases a.isInfinite <;> simp

private theorem Alike.mul (hab : Alike a b) (hcd : Alike c d) :
    Alike (a.mul c) (b.mul d) := by
  have hleft : Alike (a.mul c) (b.mul c) := by
    rcases hab with rfl | ⟨ha, hb⟩
    · exact .refl _
    · rw [mul_of_zero ha, mul_of_zero hb]
      split
      · exact .refl _
      · exact alike_round _ _ _
  apply hleft.trans
  rcases hcd with rfl | ⟨hc, hd⟩
  · exact .refl _
  · rw [mul_zero_of_zero b hc, mul_zero_of_zero b hd]
    split
    · exact .refl _
    · exact alike_round _ _ _

private theorem mulAdd_of_zero (h : a.magnitude = 0) (b c : Binary32) :
    a.mulAdd b c = if b.isNan || c.isNan || b.isInfinite then nan else if c.isInfinite then c
      else round ((a.negative != b.negative) && c.negative) c.value := by
  rw [mulAdd]
  simp only [isNan_of_zero h, isInfinite_of_zero h, value_of_zero h, h, Bool.false_or, zero_mul,
    zero_add]
  cases b.isNan <;> cases c.isNan <;> cases b.isInfinite <;> simp

private theorem mulAdd_zero_of_zero (a : Binary32) (h : b.magnitude = 0) (c : Binary32) :
    a.mulAdd b c = if a.isNan || c.isNan || a.isInfinite then nan else if c.isInfinite then c
      else round ((a.negative != b.negative) && c.negative) c.value := by
  rw [mulAdd]
  simp only [isNan_of_zero h, isInfinite_of_zero h, value_of_zero h, h, Bool.or_false, mul_zero,
    zero_add]
  cases a.isNan <;> cases c.isNan <;> cases a.isInfinite <;> simp

private theorem mulAdd_add_of_zero (a b : Binary32) (h : c.magnitude = 0) :
    a.mulAdd b c = if a.isNan || b.isNan then nan
      else if a.isInfinite || b.isInfinite then
        if a.magnitude == 0 || b.magnitude == 0 then nan else infinity (a.negative != b.negative)
      else round ((a.negative != b.negative) && c.negative) (a.value * b.value) := by
  rw [mulAdd]
  simp [isNan_of_zero h, isInfinite_of_zero h, value_of_zero h]

private theorem Alike.mulAdd {x y : Binary32} (hab : Alike a b) (hcd : Alike c d)
    (hxy : Alike x y) :
    Alike (a.mulAdd c x) (b.mulAdd d y) := by
  have hfirst : Alike (a.mulAdd c x) (b.mulAdd c x) := by
    rcases hab with rfl | ⟨ha, hb⟩
    · exact .refl _
    · rw [mulAdd_of_zero ha, mulAdd_of_zero hb]
      split
      · exact .refl _
      · split
        · exact .refl _
        · exact alike_round _ _ _
  have hsecond : Alike (b.mulAdd c x) (b.mulAdd d x) := by
    rcases hcd with rfl | ⟨hc, hd⟩
    · exact .refl _
    · rw [mulAdd_zero_of_zero b hc, mulAdd_zero_of_zero b hd]
      split
      · exact .refl _
      · split
        · exact .refl _
        · exact alike_round _ _ _
  apply (hfirst.trans hsecond).trans
  rcases hxy with rfl | ⟨hx, hy⟩
  · exact .refl _
  · rw [mulAdd_add_of_zero b d hx, mulAdd_add_of_zero b d hy]
    split
    · exact .refl _
    · split
      · exact .refl _
      · exact alike_round _ _ _

private theorem magnitude_neg (a : Binary32) : a.neg.magnitude = a.magnitude :=
  magnitude_ofMagnitude _ (Nat.mod_lt _ (by decide))

private theorem Alike.neg (h : Alike a b) : Alike a.neg b.neg := by
  rcases h with rfl | ⟨ha, hb⟩
  · exact .refl _
  · exact Or.inr ⟨by rw [magnitude_neg, ha], by rw [magnitude_neg, hb]⟩

private theorem Alike.isNan_eq (h : Alike a b) : a.isNan = b.isNan := by
  rw [isNan, isNan, h.magnitude_eq]

private theorem Alike.min (hab : Alike a b) (hcd : Alike c d) :
    Alike (a.min c) (b.min d) := by
  rw [Binary32.min, Binary32.min, hab.isNan_eq, hcd.isNan_eq, hab.order_eq, hcd.order_eq]
  split
  · exact hcd
  · split
    · exact hab
    · split
      · exact hab
      · exact hcd

private theorem Alike.max (hab : Alike a b) (hcd : Alike c d) :
    Alike (a.max c) (b.max d) := by
  rw [Binary32.max, Binary32.max, hab.isNan_eq, hcd.isNan_eq, hab.order_eq, hcd.order_eq]
  split
  · exact hcd
  · split
    · exact hab
    · split
      · exact hcd
      · exact hab

/-- Floats that are the same behave alike. -/
instance : LawfulFloatOps Binary32 where
  symm h := by
    rw [same_iff] at h ⊢
    exact h.imp Eq.symm And.symm
  trans hab hbc := by
    rw [same_iff] at hab hbc ⊢
    exact hab.trans hbc
  add hab hcd := by
    rw [same_iff] at hab hcd ⊢
    exact hab.add hcd
  sub hab hcd := by
    rw [same_iff] at hab hcd ⊢
    exact hab.add hcd.neg
  mul hab hcd := by
    rw [same_iff] at hab hcd ⊢
    exact hab.mul hcd
  mulAdd hab hcd hxy := by
    rw [same_iff] at hab hcd hxy ⊢
    exact hab.mulAdd hcd hxy
  min hab hcd := by
    rw [same_iff] at hab hcd ⊢
    exact hab.min hcd
  max hab hcd := by
    rw [same_iff] at hab hcd ⊢
    exact hab.max hcd
  abs {a b} hab := by
    rw [same_iff] at hab
    have habs : a.abs = b.abs := by rw [Binary32.abs, Binary32.abs, hab.magnitude_eq]
    exact Or.inl habs
  le {a b c d} hab hcd := by
    rw [same_iff] at hab hcd
    show a.le c = true ↔ b.le d = true
    rw [Binary32.le, Binary32.le, hab.isNan_eq, hcd.isNan_eq, hab.order_eq, hcd.order_eq]

end Binary32
end Bootty.Base
