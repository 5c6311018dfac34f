import Mathlib.Tactic.Common

/-!
# Base64

The engine the program encodes with is outside the repository; what is used of it are the laws
of `Base64`. `Base64.standard` is the encoding with the standard alphabet and padding.
-/

namespace Bootty.Base

/-- An encoding of four symbols for three bytes, and its decoder. -/
structure Base64 where
  encode : List UInt8 → List UInt8
  decode : List UInt8 → Option (List UInt8)
  length_encode : ∀ bytes, (encode bytes).length = 4 * ((bytes.length + 2) / 3)
  decode_encode : ∀ bytes, decode (encode bytes) = some bytes

namespace Base64

/-- The symbol of a value below 64. -/
def symbol (n : Nat) : UInt8 :=
  if n < 26 then .ofNat (65 + n)
  else if n < 52 then .ofNat (71 + n)
  else if n < 62 then .ofNat (n - 4)
  else if n = 62 then 43
  else 47

/-- The value of a symbol. -/
def value (symbol : UInt8) : Option Nat :=
  let n := symbol.toNat
  if 65 ≤ n ∧ n < 91 then some (n - 65)
  else if 97 ≤ n ∧ n < 123 then some (n - 71)
  else if 48 ≤ n ∧ n < 58 then some (n + 4)
  else if n = 43 then some 62
  else if n = 47 then some 63
  else none

/-- The padding `=`. -/
def padding : UInt8 := 61

/-- Three bytes make four symbols, and padding fills the last four. -/
def encodeStandard : List UInt8 → List UInt8
  | [] => []
  | [a] => [symbol (a.toNat / 4), symbol (a.toNat % 4 * 16), padding, padding]
  | [a, b] =>
    [symbol (a.toNat / 4), symbol (a.toNat % 4 * 16 + b.toNat / 16), symbol (b.toNat % 16 * 4),
      padding]
  | a :: b :: c :: rest =>
    symbol (a.toNat / 4) :: symbol (a.toNat % 4 * 16 + b.toNat / 16) ::
      symbol (b.toNat % 16 * 4 + c.toNat / 64) :: symbol (c.toNat % 64) :: encodeStandard rest

/-- Bits behind the last byte have to be zero. -/
def decodeStandard : List UInt8 → Option (List UInt8)
  | [] => some []
  | w :: x :: y :: z :: rest =>
    if z = padding ∧ rest = [] then
      if y = padding then do
        let w ← value w
        let x ← value x
        if x % 16 = 0 then some [.ofNat (w * 4 + x / 16)] else none
      else do
        let w ← value w
        let x ← value x
        let y ← value y
        if y % 4 = 0 then some [.ofNat (w * 4 + x / 16), .ofNat (x % 16 * 16 + y / 4)] else none
    else do
      let w ← value w
      let x ← value x
      let y ← value y
      let z ← value z
      let rest ← decodeStandard rest
      some (.ofNat (w * 4 + x / 16) :: .ofNat (x % 16 * 16 + y / 4) :: .ofNat (y % 4 * 64 + z) ::
        rest)
  | _ => none

private theorem value_symbol : ∀ n < 64, value (symbol n) = some n := by decide

private theorem symbol_ne_padding : ∀ n < 64, symbol n ≠ padding := by decide

private theorem ofNat_eq (byte : UInt8) {n : Nat} (h : n = byte.toNat) : .ofNat n = byte := by
  rw [h, UInt8.ofNat_toNat]

private theorem length_encodeStandard (bytes : List UInt8) :
    (encodeStandard bytes).length = 4 * ((bytes.length + 2) / 3) := by
  induction bytes using encodeStandard.induct with
  | case1 => rfl
  | case2 a => simp [encodeStandard]
  | case3 a b => simp [encodeStandard]
  | case4 a b c rest ih =>
    simp only [encodeStandard, List.length_cons, ih]
    omega

private theorem decode_encodeStandard (bytes : List UInt8) :
    decodeStandard (encodeStandard bytes) = some bytes := by
  induction bytes using encodeStandard.induct with
  | case1 => rfl
  | case2 a =>
    have ha := a.toNat_lt
    rw [encodeStandard, decodeStandard, if_pos ⟨rfl, rfl⟩, if_pos rfl]
    rw [value_symbol _ (by omega), value_symbol _ (by omega)]
    simp only [Option.bind_eq_bind, Option.bind_some]
    rw [if_pos (by omega), ofNat_eq a (by omega)]
  | case3 a b =>
    have ha := a.toNat_lt
    have hb := b.toNat_lt
    rw [encodeStandard, decodeStandard, if_pos ⟨rfl, rfl⟩,
      if_neg (symbol_ne_padding _ (by omega))]
    rw [value_symbol _ (by omega), value_symbol _ (by omega), value_symbol _ (by omega)]
    simp only [Option.bind_eq_bind, Option.bind_some]
    rw [if_pos (by omega), ofNat_eq a (by omega), ofNat_eq b (by omega)]
  | case4 a b c rest ih =>
    have ha := a.toNat_lt
    have hb := b.toNat_lt
    have hc := c.toNat_lt
    rw [encodeStandard, decodeStandard,
      if_neg (fun hpadding ↦ symbol_ne_padding _ (by omega) hpadding.1)]
    rw [value_symbol _ (by omega), value_symbol _ (by omega), value_symbol _ (by omega),
      value_symbol _ (by omega), ih]
    simp only [Option.bind_eq_bind, Option.bind_some]
    rw [ofNat_eq a (by omega), ofNat_eq b (by omega),
      ofNat_eq c (by omega)]

/-- The standard alphabet with padding. -/
def standard : Base64 where
  encode := encodeStandard
  decode := decodeStandard
  length_encode := length_encodeStandard
  decode_encode := decode_encodeStandard

end Base64
end Bootty.Base
