import Bootty.Base.ByteOffsets
import Mathlib.Data.List.Nodup
import Mathlib.Data.List.Range
import Mathlib.Tactic.Common

/-!
# Fresh names

A name is made different from others by a decimal number behind a separator. A number does not
contain the separator, so different numbers make different names, and among one name more than
are taken one is free.
-/

namespace Bootty.Base

/-! ### Decimal numbers -/

/-- The decimal digits of a number. -/
def decimal (n : Nat) : List Char := Nat.toDigits 10 n

/-- Different numbers are written differently. -/
theorem decimal_injective : Function.Injective decimal := by
  intro a b h
  rw [← @Nat.ofDigitChars_ten_toDigits a, ← @Nat.ofDigitChars_ten_toDigits b]
  exact congrArg (fun digits ↦ Nat.ofDigitChars 10 digits 0) h

variable {n : Nat} {c : Char}

theorem isDigit_of_mem_decimal (h : c ∈ decimal n) : c.isDigit :=
  Nat.isDigit_of_mem_toDigits (by decide) (by decide) h

theorem decimal_ne_nil (n : Nat) : decimal n ≠ [] := Nat.toDigits_ne_nil

theorem not_mem_decimal (h : c.isDigit = false) (n : Nat) : c ∉ decimal n := by
  intro hmem
  rw [isDigit_of_mem_decimal hmem] at h
  cases h

theorem dash_not_mem_decimal (n : Nat) : '-' ∉ decimal n := not_mem_decimal rfl n

/-- The length of a number by its powers of ten. -/
theorem length_decimal_le_iff {k : Nat} (hk : 0 < k) :
    (decimal n).length ≤ k ↔ n < 10 ^ k :=
  Nat.length_toDigits_le_iff (by decide) hk

theorem length_decimal_mono {m : Nat} (h : m ≤ n) :
    (decimal m).length ≤ (decimal n).length := by
  have hpositive : 0 < (decimal n).length := Nat.length_toDigits_pos
  rw [length_decimal_le_iff hpositive]
  exact Nat.lt_of_le_of_lt h ((length_decimal_le_iff hpositive).mp (Nat.le_refl _))

variable {digits : List Char}

/-- A digit is one byte. -/
theorem byteLength_of_digits (h : ∀ c ∈ digits, c.isDigit) :
    byteLength digits = digits.length := by
  induction digits with
  | nil => rfl
  | cons c digits ih =>
    have ⟨hdigit, hdigits⟩ := List.forall_mem_cons.mp h
    have hsize : c.utf8Size = 1 := by
      simp only [Char.isDigit, Bool.and_eq_true, decide_eq_true_eq] at hdigit
      rw [Char.utf8Size, if_pos]
      exact UInt32.le_trans hdigit.2 (by decide)
    rw [byteLength_cons, hsize, ih hdigits, List.length_cons, Nat.add_comm]

theorem byteLength_decimal (n : Nat) : byteLength (decimal n) = (decimal n).length :=
  byteLength_of_digits fun _ ↦ isDigit_of_mem_decimal

/-! ### Numerals -/

/-- Decimal digits of a number, of which the first ones may be zeros. -/
structure Numeral (digits : List Char) (n : Nat) : Prop where
  nonempty : digits ≠ []
  isDigit : ∀ c ∈ digits, c.isDigit
  value : Nat.ofDigitChars 10 digits 0 = n

/-- A number is read as what was written. -/
theorem numeral_decimal (n : Nat) : Numeral (decimal n) n :=
  ⟨decimal_ne_nil n, fun _ ↦ isDigit_of_mem_decimal, Nat.ofDigitChars_ten_toDigits⟩

theorem Numeral.not_mem (h : Numeral digits n) (hc : c.isDigit = false) : c ∉ digits := by
  intro hmem
  rw [h.isDigit c hmem] at hc
  cases hc

private theorem parseDigits_eq_some :
    parseDigits digits = some n ↔ Numeral digits n := by
  have hfold : digits.foldl (fun n c ↦ n * 10 + (c.toNat - 48)) 0 =
      Nat.ofDigitChars 10 digits 0 := by
    rw [Nat.ofDigitChars_eq_foldl]
    simp only [Nat.mul_comm]
    rfl
  unfold parseDigits
  rw [hfold]
  constructor
  · intro h
    split at h
    · next hdigits =>
      exact ⟨hdigits.1, List.all_eq_true.mp hdigits.2, Option.some.inj h⟩
    · cases h
  · intro h
    rw [if_pos ⟨h.nonempty, List.all_eq_true.mpr h.isDigit⟩, h.value]

/-- A text without a sign is parsed to a number if it is a numeral of it. -/
theorem parseUnsigned_eq_some {greatest : Nat} (h : '+' ∉ digits) :
    parseUnsigned greatest (String.ofList digits) = some n ↔
      Numeral digits n ∧ n ≤ greatest := by
  rw [parseUnsigned, String.toList_ofList]
  split
  · next rest => exact absurd List.mem_cons_self h
  · simp only [Option.filter_eq_some_iff, parseDigits_eq_some, decide_eq_true_eq]

/-! ### Separators -/

variable {α : Type} {separator : α}

/-- The last separator splits a text in one way. -/
theorem append_separator_inj {a b x y : List α} (hx : separator ∉ x) (hy : separator ∉ y)
    (h : a ++ separator :: x = b ++ separator :: y) : a = b ∧ x = y := by
  rcases List.append_eq_append_iff.mp h with ⟨middle, hb, htail⟩ | ⟨middle, ha, htail⟩
  · cases middle with
    | nil =>
      rw [List.append_nil] at hb
      exact ⟨hb.symm, (List.cons.inj htail).2⟩
    | cons c middle =>
      have hmem : separator ∈ x := by
        rw [(List.cons.inj htail).2]
        simp
      exact absurd hmem hx
  · cases middle with
    | nil =>
      rw [List.append_nil] at ha
      exact ⟨ha, (List.cons.inj htail).2.symm⟩
    | cons c middle =>
      have hmem : separator ∈ y := by
        rw [(List.cons.inj htail).2]
        simp
      exact absurd hmem hy

/-- What joined parts consist of. -/
theorem mem_or_of_mem_intercalate {c : α} {parts : List (List α)}
    (h : c ∈ [separator].intercalate parts) : c = separator ∨ ∃ part ∈ parts, c ∈ part := by
  induction parts with
  | nil => cases h
  | cons part parts ih =>
    by_cases hparts : parts = []
    · subst hparts
      rw [List.intercalate_singleton] at h
      exact .inr ⟨part, List.mem_cons_self, h⟩
    · rw [List.intercalate_cons_of_ne_nil hparts, List.mem_append, List.mem_append,
        List.mem_singleton] at h
      rcases h with (hpart | hseparator) | hrest
      · exact .inr ⟨part, List.mem_cons_self, hpart⟩
      · exact .inl hseparator
      · rcases ih hrest with hseparator | ⟨other, hother, hmem⟩
        · exact .inl hseparator
        · exact .inr ⟨other, List.mem_cons_of_mem _ hother, hmem⟩

theorem mem_intercalate_of_mem {c : α} {part : List α} {parts : List (List α)}
    (hpart : part ∈ parts) (hc : c ∈ part) :
    c ∈ [separator].intercalate parts := by
  induction parts with
  | nil => cases hpart
  | cons other parts ih =>
    by_cases hparts : parts = []
    · subst hparts
      rw [List.intercalate_singleton]
      exact List.mem_singleton.mp hpart ▸ hc
    · rw [List.intercalate_cons_of_ne_nil hparts]
      rcases List.mem_cons.mp hpart with rfl | hrest
      · exact List.mem_append_left _ (List.mem_append_left _ hc)
      · exact List.mem_append_right _ (ih hrest)

/-! ### Free names -/

/-- Among one name more than are taken one is free. -/
theorem exists_free {name : Nat → α} (h : Function.Injective name) (taken : List α) (start : Nat) :
    ∃ k, start ≤ k ∧ k ≤ start + taken.length ∧ name k ∉ taken := by
  by_contra hall
  push Not at hall
  have hsubset : (List.range' start (taken.length + 1)).map name ⊆ taken := by
    intro x hx
    have ⟨k, hk, hname⟩ := List.mem_map.mp hx
    rw [List.mem_range'_1] at hk
    exact hname ▸ hall k hk.1 (by omega)
  have hnodup : ((List.range' start (taken.length + 1)).map name).Nodup :=
    List.Nodup.map h List.nodup_range'
  have hlength := hnodup.length_le_of_subset hsubset
  rw [List.length_map, List.length_range'] at hlength
  omega

end Bootty.Base
