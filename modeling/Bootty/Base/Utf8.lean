import Bootty.Base.ByteOffsets
import Bootty.Base.Text

/-!
# Text in UTF-8

The decoder of `Bootty.Base.Text` reads what the encoder of the language writes: the characters of
a text, one after the other, also where other bytes follow.
-/

namespace Bootty.Base

/-- The bytes of a text, character by character. -/
theorem textBytes_ofList (chars : List Char) :
    textBytes (String.ofList chars) = chars.flatMap String.utf8EncodeChar := by
  rw [textBytes, String.toUTF8_eq_toByteArray, String.toByteArray_ofList, List.utf8Encode]
  simp

theorem textBytes_append (chars rest : List Char) :
    textBytes (String.ofList (chars ++ rest)) =
      textBytes (String.ofList chars) ++ textBytes (String.ofList rest) := by
  rw [textBytes_ofList, textBytes_ofList, textBytes_ofList, List.flatMap_append]

namespace Utf8

/-- The number of a character is not one of a surrogate. -/
theorem toNat_valid (c : Char) : c.toNat < 0xD800 ∨ 0xDFFF < c.toNat ∧ c.toNat < 0x110000 :=
  c.valid

variable {byte : Nat}

/-- A continuation byte in its bounds. -/
theorem resume_of_mem {need low high code : Nat} (hlow : low ≤ byte) (hhigh : byte ≤ high) :
    resume ⟨need, low, high, code⟩ byte =
      if need = 1 then ([some (Char.ofNat (code * 64 + (byte - 0x80)))], none)
      else ([], some ⟨need - 1, 0x80, 0xBF, code * 64 + (byte - 0x80)⟩) := by
  rw [resume, if_pos ⟨hlow, hhigh⟩]

/-- A first byte opens what follows it. -/
theorem decode_start (hbyte : byte < 256) (rest : List UInt8) :
    decode none (UInt8.ofNat byte :: rest) = (start byte).1 ++ decode (start byte).2 rest := by
  rw [decode]
  simp only [UInt8.toNat_ofNat', Nat.reducePow, Nat.mod_eq_of_lt hbyte]

private theorem decode_resume (hbyte : byte < 256) (pending : Pending) (rest : List UInt8) :
    decode (some pending) (UInt8.ofNat byte :: rest) =
      (resume pending byte).1 ++ decode (resume pending byte).2 rest := by
  rw [decode]
  simp only [UInt8.toNat_ofNat', Nat.reducePow, Nat.mod_eq_of_lt hbyte]

/-- The first of three bytes. -/
theorem start_three {v : Nat} (hlow : 0x800 ≤ v) (hhigh : v ≤ 0xFFFF)
    (hvalid : v < 0xD800 ∨ 0xDFFF < v) :
    ∃ low high, start (v / 4096 % 16 + 0xE0) = ([], some ⟨2, low, high, v / 4096⟩) ∧
      low ≤ v / 64 % 64 + 0x80 ∧ v / 64 % 64 + 0x80 ≤ high := by
  have hmod : v / 4096 % 16 = v / 4096 := Nat.mod_eq_of_lt (by omega)
  rw [hmod, start, if_neg (by omega), if_neg (by omega)]
  by_cases hzero : v / 4096 = 0
  · rw [if_pos (by omega), hzero]
    exact ⟨_, _, rfl, by omega, by omega⟩
  rw [if_neg (by omega)]
  by_cases hthirteen : v / 4096 = 13
  · rw [if_pos (by omega), hthirteen]
    exact ⟨_, _, rfl, by omega, by omega⟩
  · rw [if_neg (by omega), if_pos (by omega), Nat.add_sub_cancel]
    exact ⟨_, _, rfl, by omega, by omega⟩

/-- The first of four bytes. -/
theorem start_four {v : Nat} (hlow : 0xFFFF < v) (hhigh : v < 0x110000) :
    ∃ low high, start (v / 262144 % 8 + 0xF0) = ([], some ⟨3, low, high, v / 262144⟩) ∧
      low ≤ v / 4096 % 64 + 0x80 ∧ v / 4096 % 64 + 0x80 ≤ high := by
  have hmod : v / 262144 % 8 = v / 262144 := Nat.mod_eq_of_lt (by omega)
  rw [hmod, start, if_neg (by omega), if_neg (by omega), if_neg (by omega), if_neg (by omega),
    if_neg (by omega)]
  by_cases hzero : v / 262144 = 0
  · rw [if_pos (by omega), hzero]
    exact ⟨_, _, rfl, by omega, by omega⟩
  rw [if_neg (by omega)]
  by_cases hfour : v / 262144 = 4
  · rw [if_pos (by omega), hfour]
    exact ⟨_, _, rfl, by omega, by omega⟩
  · rw [if_neg (by omega), if_pos (by omega), Nat.add_sub_cancel]
    exact ⟨_, _, rfl, by omega, by omega⟩

/-- The bytes of a character are decoded to it. -/
theorem decode_encodeChar (c : Char) (rest : List UInt8) :
    decode none (String.utf8EncodeChar c ++ rest) = some c :: decode none rest := by
  have hvalid := toNat_valid c
  have hofNat : Char.ofNat c.toNat = c := Char.ofNat_toNat c
  unfold String.utf8EncodeChar
  simp only [show c.val.toNat = c.toNat from rfl]
  generalize c.toNat = v at hvalid hofNat
  by_cases hone : v ≤ 0x7F
  · rw [if_pos hone, List.singleton_append, decode_start (by omega), start, if_pos (by omega)]
    simp [hofNat]
  rw [if_neg hone]
  by_cases htwo : v ≤ 0x7FF
  · rw [if_pos htwo]
    simp only [List.cons_append, List.nil_append]
    rw [decode_start (by omega), start, if_neg (by omega), if_pos (by omega), List.nil_append,
      decode_resume (by omega), resume_of_mem (by omega) (by omega), if_pos rfl]
    have hcode : (v / 64 % 32 + 0xC0 - 0xC0) * 64 + (v % 64 + 0x80 - 0x80) = v := by omega
    rw [hcode, hofNat, List.singleton_append]
  rw [if_neg htwo]
  by_cases hthree : v ≤ 0xFFFF
  · rw [if_pos hthree]
    simp only [List.cons_append, List.nil_append]
    have ⟨low, high, hstart, hlow, hhigh⟩ := start_three (by omega) hthree (by omega)
    rw [decode_start (by omega), hstart, List.nil_append, decode_resume (by omega),
      resume_of_mem hlow hhigh, if_neg (by decide), List.nil_append, decode_resume (by omega),
      resume_of_mem (by omega) (by omega), if_pos rfl]
    have hcode : (v / 4096 * 64 + (v / 64 % 64 + 0x80 - 0x80)) * 64 +
        (v % 64 + 0x80 - 0x80) = v := by omega
    rw [hcode, hofNat, List.singleton_append]
  rw [if_neg hthree]
  simp only [List.cons_append, List.nil_append]
  have ⟨low, high, hstart, hlow, hhigh⟩ := start_four (by omega) (show v < 0x110000 by omega)
  rw [decode_start (by omega), hstart, List.nil_append, decode_resume (by omega),
    resume_of_mem hlow hhigh, if_neg (by decide), List.nil_append, decode_resume (by omega),
    resume_of_mem (by omega) (by omega), if_neg (by decide), List.nil_append,
    decode_resume (by omega), resume_of_mem (by omega) (by omega), if_pos rfl]
  have hcode : ((v / 262144 * 64 + (v / 4096 % 64 + 0x80 - 0x80)) * 64 +
      (v / 64 % 64 + 0x80 - 0x80)) * 64 + (v % 64 + 0x80 - 0x80) = v := by omega
  rw [hcode, hofNat, List.singleton_append]

/-- The characters of a text are decoded, whatever follows. -/
theorem decode_encode (chars : List Char) (rest : List UInt8) :
    decode none (chars.flatMap String.utf8EncodeChar ++ rest) =
      chars.map some ++ decode none rest := by
  induction chars with
  | nil => rfl
  | cons c chars ih =>
    rw [List.flatMap_cons, List.append_assoc, decode_encodeChar, ih]
    rfl

private theorem decode_textBytes (chars : List Char) :
    decode none (textBytes (String.ofList chars)) = chars.map some := by
  have h := decode_encode chars []
  rw [List.append_nil] at h
  rw [textBytes_ofList, h]
  exact List.append_nil _

end Utf8

/-- Bytes of a text are read back. -/
theorem fromUtf8Lossy_textBytes (chars : List Char) :
    fromUtf8Lossy (textBytes (String.ofList chars)) = String.ofList chars := by
  rw [fromUtf8Lossy, Utf8.decode_textBytes, List.map_map]
  exact congrArg String.ofList (List.map_id chars)

/-! ### Characters of one byte -/

/-- A character of one byte. -/
theorem utf8EncodeChar_ascii {c : Char} (h : c.toNat < 0x80) :
    String.utf8EncodeChar c = [UInt8.ofNat c.toNat] := by
  have hle : c.val.toNat ≤ 0x7F := Nat.le_of_lt_succ h
  rw [String.utf8EncodeChar]
  simp only [if_pos hle]
  rfl

/-- The bytes of all other characters are not those of characters of one byte. -/
theorem le_of_mem_utf8EncodeChar {c : Char} (h : 0x80 ≤ c.toNat) {byte : UInt8}
    (hmem : byte ∈ String.utf8EncodeChar c) : 0x80 ≤ byte.toNat := by
  have hle : ¬c.val.toNat ≤ 0x7F := Nat.not_le_of_lt h
  unfold String.utf8EncodeChar at hmem
  simp only [if_neg hle] at hmem
  split at hmem
  · simp only [List.mem_cons, List.not_mem_nil, or_false] at hmem
    rcases hmem with rfl | rfl <;> simp only [UInt8.toNat_ofNat'] <;> omega
  · split at hmem
    · simp only [List.mem_cons, List.not_mem_nil, or_false] at hmem
      rcases hmem with rfl | rfl | rfl <;> simp only [UInt8.toNat_ofNat'] <;> omega
    · simp only [List.mem_cons, List.not_mem_nil, or_false] at hmem
      rcases hmem with rfl | rfl | rfl | rfl <;> simp only [UInt8.toNat_ofNat'] <;> omega

end Bootty.Base
