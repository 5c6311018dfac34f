import Mathlib.Algebra.GroupWithZero.Nat
import Mathlib.Data.List.Basic
import Mathlib.Tactic.Common

/-!
# Text

The functions of Rust's standard library on strings and bytes that the program parses with:
UTF-8 with and without replacement characters, splitting, trimming and integers. `findBytes` stands
for `memmem::find` of the crate `memchr`.
-/

namespace Bootty.Base

/-- What holds of the characters of a list is decided on the list, not on every character. -/
instance (priority := 2000) decidableForallMem {p : Char → Prop} [DecidablePred p]
    (chars : List Char) : Decidable (∀ c ∈ chars, p c) :=
  List.decidableBAll p chars

namespace Utf8

/-- A character of which bytes are missing: how many, between which bounds the next one has to
be, and the bits read so far. -/
structure Pending where
  need : Nat
  low : Nat
  high : Nat
  code : Nat

/-- A first byte: what it decodes to, and the character it may begin. -/
def start (byte : Nat) : List (Option Char) × Option Pending :=
  if byte < 0x80 then ([some (Char.ofNat byte)], none)
  else if 0xC2 ≤ byte ∧ byte ≤ 0xDF then ([], some ⟨1, 0x80, 0xBF, byte - 0xC0⟩)
  else if byte = 0xE0 then ([], some ⟨2, 0xA0, 0xBF, 0⟩)
  else if byte = 0xED then ([], some ⟨2, 0x80, 0x9F, 0xD⟩)
  else if 0xE1 ≤ byte ∧ byte ≤ 0xEF then ([], some ⟨2, 0x80, 0xBF, byte - 0xE0⟩)
  else if byte = 0xF0 then ([], some ⟨3, 0x90, 0xBF, 0⟩)
  else if byte = 0xF4 then ([], some ⟨3, 0x80, 0x8F, 4⟩)
  else if 0xF1 ≤ byte ∧ byte ≤ 0xF3 then ([], some ⟨3, 0x80, 0xBF, byte - 0xF0⟩)
  else ([none], none)

/-- A byte after a beginning; one that does not continue it is a first byte again. -/
def resume (pending : Pending) (byte : Nat) : List (Option Char) × Option Pending :=
  if pending.low ≤ byte ∧ byte ≤ pending.high then
    let code := pending.code * 64 + (byte - 0x80)
    if pending.need = 1 then ([some (Char.ofNat code)], none)
    else ([], some ⟨pending.need - 1, 0x80, 0xBF, code⟩)
  else
    let (decoded, next) := start byte
    (none :: decoded, next)

/-- The characters of a byte sequence, and `none` for each longest part of one that is not
well formed. -/
def decode (pending : Option Pending) : List UInt8 → List (Option Char)
  | [] => if pending.isSome then [none] else []
  | byte :: rest =>
    let (decoded, next) :=
      match pending with
      | none => start byte.toNat
      | some pending => resume pending byte.toNat
    decoded ++ decode next rest

end Utf8

/-- `str::from_utf8`. -/
def fromUtf8 (bytes : List UInt8) : Option String :=
  ((Utf8.decode none bytes).mapM id).map String.ofList

/-- `String::from_utf8_lossy`. -/
def fromUtf8Lossy (bytes : List UInt8) : String :=
  String.ofList ((Utf8.decode none bytes).map (·.getD (Char.ofNat 0xFFFD)))

example : fromUtf8 [0x61, 0xE2, 0x82, 0xAC] = some "a€" := by decide +kernel

example : fromUtf8Lossy [0x61, 0xE2, 0x82, 0x62] = "a�b" := by decide +kernel

/-- `str::as_bytes`. -/
def textBytes (text : String) : List UInt8 := text.toUTF8.data.toList

/-- `memmem::find`: where `needle` first occurs. -/
def findBytes (needle : List UInt8) : List UInt8 → Option Nat
  | [] => if needle.isEmpty then some 0 else none
  | byte :: rest =>
    if needle.isPrefixOf (byte :: rest) then some 0 else (findBytes needle rest).map (· + 1)

/-- `str::split` at a character. -/
def splitText (separator : Char) (text : String) : List String :=
  (text.toList.splitOn separator).map String.ofList

/-- `str::splitn` at a character: the last of at most `count` parts is not split. -/
def splitTextN : Nat → Char → List Char → List (List Char)
  | 0, _, _ => []
  | 1, _, text => [text]
  | count + 2, separator, text =>
    match text.dropWhile (· != separator) with
    | [] => [text]
    | _ :: rest => text.takeWhile (· != separator) :: splitTextN (count + 1) separator rest

/-- `str::split_once` at a character. -/
def splitOnce (separator : Char) (text : String) : Option (String × String) :=
  match text.toList.dropWhile (· != separator) with
  | [] => none
  | _ :: rest => some (String.ofList (text.toList.takeWhile (· != separator)), String.ofList rest)

/-- `str::split_once` on the characters. -/
def splitOnceAt (separator : Char) (text : List Char) : Option (List Char × List Char) :=
  match text.dropWhile (· != separator) with
  | [] => none
  | _ :: rest => some (text.takeWhile (· != separator), rest)

/-- Where the first separator is. -/
theorem splitOnceAt_eq_some {separator : Char} {text front rest : List Char}
    (h : splitOnceAt separator text = some (front, rest)) :
    text = front ++ separator :: rest ∧ separator ∉ front := by
  unfold splitOnceAt at h
  split at h
  · cases h
  · next c tail hdrop =>
    obtain ⟨rfl, rfl⟩ := Prod.mk.inj (Option.some.inj h)
    have hc : (c != separator) = false := by
      have := List.head?_dropWhile_not (· != separator) text
      rw [hdrop] at this
      simpa using this
    constructor
    · have hsplit : text.takeWhile (· != separator) ++ text.dropWhile (· != separator) = text :=
        List.takeWhile_append_dropWhile
      rw [hdrop, bne_eq_false_iff_eq.mp hc] at hsplit
      exact hsplit.symm
    · intro hmem
      have := List.all_eq_true.mp List.all_takeWhile separator hmem
      simp at this

theorem splitOnceAt_append_cons {separator : Char} {front rest : List Char}
    (h : separator ∉ front) :
    splitOnceAt separator (front ++ separator :: rest) = some (front, rest) := by
  have hall : ∀ c ∈ front, (c != separator) = true := by
    intro c hc
    exact bne_iff_ne.mpr fun heq ↦ h (heq ▸ hc)
  unfold splitOnceAt
  rw [List.dropWhile_append_of_pos hall, List.takeWhile_append_of_pos hall]
  simp

/-- Without a separator there is no split. -/
theorem splitOnceAt_of_not_mem {separator : Char} {text : List Char} (h : separator ∉ text) :
    splitOnceAt separator text = none := by
  cases hsplit : splitOnceAt separator text with
  | none => rfl
  | some parts =>
    have ⟨htext, _⟩ := splitOnceAt_eq_some hsplit
    rw [htext] at h
    simp at h

/-- `str::strip_prefix`. -/
theorem dropPrefix?_eq_some {front text rest : List Char} :
    text.dropPrefix? front = some rest ↔ text = front ++ rest := by
  rw [List.dropPrefix?_eq_some_iff]
  constructor
  · rintro ⟨other, rfl, hsame⟩
    rw [eq_of_beq hsame]
  · intro htext
    exact ⟨front, htext, beq_self_eq_true front⟩

theorem dropPrefix?_append (front rest : List Char) :
    (front ++ rest).dropPrefix? front = some rest := dropPrefix?_eq_some.mpr rfl

/-- `u8::is_ascii_whitespace`. -/
def isAsciiWhitespace (c : Char) : Bool :=
  c == ' ' || c == '\t' || c == '\n' || c == '\r' || c == Char.ofNat 12

/-- `str::split_ascii_whitespace`. -/
def splitAsciiWhitespace (text : List Char) : List (List Char) :=
  (text.splitOnP isAsciiWhitespace).filter (!·.isEmpty)

/-- `char::is_whitespace`. -/
def isWhitespace (c : Char) : Bool :=
  let n := c.toNat
  (9 ≤ n && n ≤ 13) || n == 0x20 || n == 0x85 || n == 0xA0 || n == 0x1680 ||
    (0x2000 ≤ n && n ≤ 0x200A) || n == 0x2028 || n == 0x2029 || n == 0x202F || n == 0x205F ||
    n == 0x3000

/-- `str::trim`. -/
def trim (text : String) : String :=
  String.ofList (((text.toList.dropWhile isWhitespace).reverse.dropWhile isWhitespace).reverse)

/-- Decimal digits, at least one. -/
def parseDigits (digits : List Char) : Option Nat :=
  if digits ≠ [] ∧ digits.all Char.isDigit then
    some (digits.foldl (fun n c ↦ n * 10 + (c.toNat - 48)) 0)
  else none

/-- `parse` to an unsigned integer with a greatest value. -/
def parseUnsigned (greatest : Nat) (text : String) : Option Nat :=
  let digits :=
    match text.toList with
    | '+' :: rest => rest
    | digits => digits
  (parseDigits digits).filter (· ≤ greatest)

/-- `parse` to an `i32`. -/
def parseI32 (text : String) : Option Int :=
  match text.toList with
  | '-' :: rest => ((parseDigits rest).filter (· ≤ 2 ^ 31)).map fun n ↦ -(n : Int)
  | _ => (parseUnsigned (2 ^ 31 - 1) text).map fun n ↦ (n : Int)

end Bootty.Base
