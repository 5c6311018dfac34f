import Bootty.Base.Fallible
import Bootty.Base.FreshName
import Bootty.Base.Json
import Bootty.Mux.SessionSnapshot

/-!
# Saved terminal histories

Model of the histories of terminals (`crates/bootty-control/src/terminal_history.rs`). One walk over
a text validates it, sanitizes it and extracts what it shows. The walk accepts the texts of a
grammar of three kinds of pieces: characters, gaps and styles; where it strips a capture, also of a
fourth kind, which it drops.
-/

namespace Bootty.Control

open Bootty.Base Bootty.Mux

/-- `terminal_history.rs:5`. -/
def maxHistoryBytes : Nat := 256 * 1024

/-- The greatest `usize`. -/
def maxUsize : Nat := 2 ^ 64 - 1

/-- `terminal_history.rs:7–23`, the messages of the walk, and the text that is no number. -/
inductive HistoryError where
  | sizeLimit (bytes maxBytes : Nat)
  | message (text : String)
  | parseInt (text : List Char)
  deriving DecidableEq

/-- The result of a scan. -/
abbrev HistoryResult (α : Type) := Except HistoryError α

/-- `parse` to a `u8`. -/
def parseU8 (text : List Char) : Option Nat := parseUnsigned 255 (String.ofList text)

/-- `parse` to a `u16`. -/
def parseU16 (text : List Char) : Option Nat := parseUnsigned 65535 (String.ofList text)

/-- `terminal_history.rs:222–227`. -/
def checkSize (bytes maxBytes : Nat) : HistoryResult Unit :=
  if maxBytes < bytes then .error (.sizeLimit bytes maxBytes) else .ok ()

/-! ### Styles -/

/-- The codes of a style that stand for themselves, `terminal_history.rs:246`. -/
def plainCodes : List Nat :=
  List.range' 0 10 ++ List.range' 21 5 ++ List.range' 27 11 ++ List.range' 39 9 ++
    [49, 53, 55, 59] ++ List.range' 90 8 ++ List.range' 100 8

/-- The codes before a color, `terminal_history.rs:247`. -/
def colorCodes : List Nat := [38, 48, 58]

/-- The numbers of a color, `terminal_history.rs:253–258`. -/
def skipColor : Nat → List (List Char) → HistoryResult (List (List Char))
  | 0, parts => .ok parts
  | _ + 1, [] => .error (.message "incomplete saved terminal color")
  | count + 1, value :: parts => do
    let _ ← context (parseU8 value) (.parseInt value)
    skipColor count parts

/-- The code of a part, `terminal_history.rs:240–244`. -/
def partCode (part : List Char) : HistoryResult Nat :=
  if part.isEmpty then .ok 0 else context (parseU8 part) (.parseInt part)

/-- How many numbers a color has, `terminal_history.rs:248–252`. -/
def colorCount : List (List Char) → HistoryResult (Nat × List (List Char))
  | ['5'] :: parts => .ok (1, parts)
  | ['2'] :: parts => .ok (3, parts)
  | _ => .error (.message "invalid saved terminal color mode")

/-- The loop of `validate_sgr`, `terminal_history.rs:232–262`; an iteration takes a part. -/
def validateParts : Nat → List (List Char) → HistoryResult Unit
  | 0, _ => .ok ()
  | _ + 1, [] => .ok ()
  | fuel + 1, part :: parts =>
    match part.dropPrefix? ['4', ':'] with
    | some underline => do
      ensure (underline ∈ [['0'], ['1'], ['2'], ['3'], ['4'], ['5']])
        (.message "invalid saved underline style")
      validateParts fuel parts
    | none => do
      let code ← partCode part
      if code ∈ plainCodes then validateParts fuel parts
      else if code ∈ colorCodes then
        let (count, parts) ← colorCount parts
        let parts ← skipColor count parts
        validateParts fuel parts
      else .error (.message "unsupported saved terminal style")

/-- `terminal_history.rs:229–264`. -/
def validateSgr (parameters : List Char) : HistoryResult Unit :=
  let parts := parameters.splitOn ';'
  validateParts parts.length parts

/-! ### The walk -/

/-- A character that a history shows, `terminal_history.rs:156–161`. -/
def isPresentable (c : Char) : Bool := !isControl c || c = '\n' || c = '\r' || c = '\t'

/-- A character of the parameters of a control, `terminal_history.rs:184`. -/
def isParameter (c : Char) : Bool := c.isDigit || c = ';' || c = ':'

/-- What is behind a command of the operating system, `terminal_history.rs:167–178`. -/
def skipOsc (body : List Char) : HistoryResult (List Char) :=
  match body.dropWhile fun c ↦ c != '\x07' && c != '\x1b' with
  | [] => .error (.message "incomplete terminal capture OSC")
  | '\x07' :: rest => .ok rest
  | '\x1b' :: '\\' :: rest => .ok rest
  | _ => .error (.message "invalid terminal capture OSC terminator")

/-- The gap or the style at the front of a text: what it pushes, and what is behind it,
`terminal_history.rs:180–217`. -/
def readPresentation (keepStyles : Bool) :
    List Char → HistoryResult (Option (List Char) × List Char)
  | '\x1b' :: '[' :: rest =>
    let parameters := rest.takeWhile isParameter
    match rest.dropWhile isParameter with
    | [] => .error (.message "incomplete saved terminal style")
    | 'C' :: after => do
      ensure (!parameters.isEmpty && parameters.all Char.isDigit)
        (.message "invalid saved terminal gap")
      let count ← context (parseU16 parameters) (.parseInt parameters)
      ensure (0 < count) (.message "invalid saved terminal gap")
      let gap := if keepStyles then '\x1b' :: '[' :: parameters ++ ['C'] else .replicate count ' '
      .ok (some gap, after)
    | 'm' :: after => do
      validateSgr parameters
      .ok (if keepStyles then some ('\x1b' :: '[' :: parameters ++ ['m']) else none, after)
    | _ => .error (.message "saved terminal history contains a non-style command")
  | _ => .error (.message "saved terminal history contains a non-style escape")

/-- The control at the front of a text, `terminal_history.rs:167–217`. -/
def readControl (stripOsc keepStyles : Bool) (rest : List Char) :
    HistoryResult (Option (List Char) × List Char) :=
  match stripOsc, rest with
  | true, '\x1b' :: ']' :: body => (skipOsc body).map fun rest ↦ (none, rest)
  | _, rest => readPresentation keepStyles rest

/-- The bytes of the output with a part behind it, `terminal_history.rs:144–149`. -/
def push (outputBytes : Nat) (part : List Char) : HistoryResult Nat := do
  let outputBytes := min (outputBytes + byteLength part) maxUsize
  checkSize outputBytes maxHistoryBytes
  .ok outputBytes

/-- The loop of `walk_history`, `terminal_history.rs:150–218`: the parts that it pushes. An
iteration takes a character; the errors of cuts that cannot fail are left out. -/
def walkFrom (stripOsc keepStyles : Bool) :
    Nat → Nat → List Char → HistoryResult (List (List Char))
  | 0, _, _ => .ok []
  | fuel + 1, outputBytes, rest =>
    if rest.isEmpty then .ok []
    else do
      let plain := rest.takeWhile (· != '\x1b')
      let controls := rest.dropWhile (· != '\x1b')
      ensure (plain.all isPresentable)
        (.message "saved terminal history contains non-presentation controls")
      let outputBytes ← push outputBytes plain
      if controls.isEmpty then .ok [plain]
      else
        let (part, after) ← readControl stripOsc keepStyles controls
        match part with
        | none =>
          let parts ← walkFrom stripOsc keepStyles fuel outputBytes after
          .ok (plain :: parts)
        | some part =>
          let outputBytes ← push outputBytes part
          let parts ← walkFrom stripOsc keepStyles fuel outputBytes after
          .ok (plain :: part :: parts)

/-- `terminal_history.rs:136–220`. -/
def walkHistory (text : List Char) (stripOsc keepStyles : Bool) :
    HistoryResult (List (List Char)) := do
  checkSize (byteLength text) maxHistoryBytes
  walkFrom stripOsc keepStyles text.length 0 text

/-- `terminal_history.rs:25–30`. -/
def validateHistory (text : List Char) : HistoryResult Unit := do
  let _ ← walkHistory text false true
  .ok ()

/-- `terminal_history.rs:126–134`. -/
def historyPlainText (text : List Char) : HistoryResult (List Char) := do
  let parts ← walkHistory text false false
  .ok parts.flatten

/-! ### Captures -/

/-- A colour. -/
structure Rgb where
  red : UInt8
  green : UInt8
  blue : UInt8

/-- `terminal_history.rs:75`; an index is one of a byte. -/
abbrev Palette := Nat → Option Rgb

/-- `str::split` where commands of the operating system begin. -/
def splitOsc : List Char → List (List Char)
  | [] => [[]]
  | '\x1b' :: ']' :: rest => [] :: splitOsc rest
  | c :: rest => (splitOsc rest).modifyHead (c :: ·)

/-- A channel of two hexadecimal digits, `terminal_history.rs:93–97`. -/
def readChannel (value : List Char) : Option UInt8 :=
  if byteLength value = 2 then
    let digits :=
      match value with
      | '+' :: digits => digits
      | digits => digits
    (digits.mapM Json.hexDigit).map fun digits ↦ .ofNat (digits.foldl (16 * · + ·) 0)
  else none

/-- A record that sets a color, `terminal_history.rs:77–106`. -/
def readRecord (osc : List Char) : Option (Nat × Rgb) := do
  let record ← (osc.takeWhile fun c ↦ c != '\x07' && c != '\x1b').dropPrefix? "4;".toList
  let (index, rgb) ← splitOnceAt ';' record
  let index ← parseU8 index
  let rgb ← rgb.dropPrefix? "rgb:".toList
  match rgb.splitOn '/' with
  | [red, green, blue] =>
    return (index, ⟨← readChannel red, ← readChannel green, ← readChannel blue⟩)
  | _ => none

/-- `terminal_history.rs:74–109`. -/
def capturePalette (text : List Char) : Palette :=
  ((splitOsc text).drop 1).foldl
    (fun palette osc ↦
      match readRecord osc with
      | some (index, color) => Function.update palette index (some color)
      | none => palette)
    fun _ ↦ none

/-- `terminal_history.rs:111–124`. -/
def resolvedPaletteStyle (style : List Char) (palette : Palette) : Option (List Char) := do
  let parameters ← style.dropPrefix? ['\x1b', '[']
  let parameters ← parameters.dropSuffix? ['m']
  match parameters.splitOn ';' with
  | [front, ['5'], index] =>
    if front ∈ [['3', '8'], ['4', '8'], ['5', '8']] then
      let color ← palette (← parseU8 index)
      return '\x1b' :: '[' :: front ++ ";2;".toList ++ decimal color.red.toNat ++
        ';' :: decimal color.green.toNat ++ ';' :: decimal color.blue.toNat ++ ['m']
    else none
  | _ => none

/-- A part with the color of a palette in place of its index, `terminal_history.rs:63–69`. -/
def restyle (palette : Palette) (part : List Char) : List Char :=
  (resolvedPaletteStyle part palette).getD part

/-- `terminal_history.rs:56–72`. -/
def sanitizeHistory (text : List Char) : HistoryResult (List Char) := do
  checkSize (byteLength text) maxHistoryBytes
  let palette := capturePalette text
  let parts ← walkHistory text true true
  let result := parts.flatMap (restyle palette)
  validateHistory result
  .ok result

/-! ### Rows -/

/-- `replace("\r\n", "\n")`, `terminal_history.rs:38`. -/
def replaceCrLf : List Char → List Char
  | [] => []
  | '\r' :: '\n' :: rest => '\n' :: replaceCrLf rest
  | c :: rest => c :: replaceCrLf rest

/-- The ends of lines made those of a terminal, `terminal_history.rs:37–40`. -/
def normalizeRows (text : List Char) : List Char :=
  ((replaceCrLf text).map fun c ↦ if c = '\r' then '\n' else c).flatMap fun c ↦
    if c = '\n' then ['\r', '\n'] else [c]

/-- The style that isolates the history, `terminal_history.rs:44, 48`. -/
def resetStyle : List Char := ['\x1b', '[', '0', 'm']

/-- `terminal_history.rs:32–54`. -/
def styledHistoryBytes (text : List Char) : HistoryResult (List UInt8) := do
  validateHistory text
  let normalized := normalizeRows text
  let style := if '\x1b' ∈ text then resetStyle else []
  let lineEnd := if !normalized.isEmpty && !"\r\n".toList.isSuffixOf normalized then
    "\r\n".toList else []
  .ok (textBytes (String.ofList (style ++ normalized ++ style ++ lineEnd)))

/-! ### The grammar -/

/-- The parts of the parameters of a style. -/
inductive StyleParts : List (List Char) → Prop
  | nil : StyleParts []
  | underline {c : Char} {parts : List (List Char)} :
      c ∈ ['0', '1', '2', '3', '4', '5'] → StyleParts parts → StyleParts (['4', ':', c] :: parts)
  | reset {parts : List (List Char)} : StyleParts parts → StyleParts ([] :: parts)
  | plain {digits : List Char} {n : Nat} {parts : List (List Char)} :
      Numeral digits n → n ∈ plainCodes → StyleParts parts → StyleParts (digits :: parts)
  | indexed {digits index : List Char} {n i : Nat} {parts : List (List Char)} :
      Numeral digits n → n ∈ colorCodes → Numeral index i → i ≤ 255 → StyleParts parts →
      StyleParts (digits :: ['5'] :: index :: parts)
  | direct {digits red green blue : List Char} {n r g b : Nat} {parts : List (List Char)} :
      Numeral digits n → n ∈ colorCodes → Numeral red r → r ≤ 255 → Numeral green g → g ≤ 255 →
      Numeral blue b → b ≤ 255 → StyleParts parts →
      StyleParts (digits :: ['2'] :: red :: green :: blue :: parts)

/-- A control of a history, or of a capture. -/
inductive HistoryControl where
  | gap (digits : List Char)
  | style (parts : List (List Char))
  | osc (body terminator : List Char)

namespace HistoryControl

/-- The control as it is written. -/
def written : HistoryControl → List Char
  | gap digits => '\x1b' :: '[' :: digits ++ ['C']
  | style parts => '\x1b' :: '[' :: [';'].intercalate parts ++ ['m']
  | osc body terminator => '\x1b' :: ']' :: body ++ terminator

/-- A control of a history is a gap of a positive number of columns, or a style; a capture has also
commands of the operating system. -/
def Valid (stripOsc : Bool) : HistoryControl → Prop
  | gap digits => ∃ n, Numeral digits n ∧ 1 ≤ n ∧ n ≤ 65535
  | style parts => parts ≠ [] ∧ StyleParts parts
  | osc body terminator => stripOsc ∧ (∀ c ∈ body, c ≠ '\x07' ∧ c ≠ '\x1b') ∧
      (terminator = ['\x07'] ∨ terminator = ['\x1b', '\\'])

/-- What the walk pushes for a control. -/
def pushed (keepStyles : Bool) : HistoryControl → Option (List Char)
  | gap digits => some <|
      if keepStyles then (gap digits).written else .replicate (Nat.ofDigitChars 10 digits 0) ' '
  | style parts => if keepStyles then some (style parts).written else none
  | osc _ _ => none

end HistoryControl

/-- A character or a control. -/
inductive HistoryPiece where
  | text (c : Char)
  | control (sequence : HistoryControl)

namespace HistoryPiece

/-- The piece as it is written. -/
def written : HistoryPiece → List Char
  | text c => [c]
  | control sequence => sequence.written

/-- Pieces that the scan keeps. -/
def Valid (stripOsc : Bool) : HistoryPiece → Prop
  | text c => isPresentable c
  | control sequence => sequence.Valid stripOsc

/-- What becomes of a piece in the output, where a function is applied to the parts. -/
def output (f : List Char → List Char) (keepStyles : Bool) : HistoryPiece → List Char
  | text c => [c]
  | control sequence => ((sequence.pushed keepStyles).map f).getD []

end HistoryPiece

/-- A sequence of characters, gaps and styles. -/
def IsHistory (text : List Char) : Prop :=
  ∃ pieces : List HistoryPiece,
    (∀ piece ∈ pieces, piece.Valid false) ∧ text = pieces.flatMap HistoryPiece.written

/-! ### Styles are validated -/

variable {digits : List Char} {n : Nat}

private theorem parseU8_eq_some (h : '+' ∉ digits) :
    parseU8 digits = some n ↔ Numeral digits n ∧ n ≤ 255 := parseUnsigned_eq_some h

variable {parts : List (List Char)}

private theorem skipColor_succ {count : Nat} {rest : List (List Char)}
    (hparts : ∀ part ∈ parts, '+' ∉ part)
    :
    skipColor (count + 1) parts = .ok rest ↔ ∃ value values n, parts = value :: values ∧
      Numeral value n ∧ n ≤ 255 ∧ skipColor count values = .ok rest := by
  cases parts with
  | nil => simp [skipColor]
  | cons value values =>
    have hvalue : '+' ∉ value := hparts value List.mem_cons_self
    simp only [skipColor, bind_eq_ok, context_eq_ok, parseU8_eq_some hvalue, List.cons.injEq]
    constructor
    · rintro ⟨n, ⟨hnumeral, hle⟩, hrest⟩
      exact ⟨value, values, n, ⟨rfl, rfl⟩, hnumeral, hle, hrest⟩
    · rintro ⟨_, _, n, ⟨rfl, rfl⟩, hnumeral, hle, hrest⟩
      exact ⟨n, ⟨hnumeral, hle⟩, hrest⟩

private theorem le_of_mem_plainCodes (h : n ∈ plainCodes) : n ≤ 255 := by
  revert n
  decide

private theorem not_mem_plainCodes (h : n ∈ colorCodes) : n ∉ plainCodes := by
  revert n
  decide

private theorem le_of_mem_colorCodes (h : n ∈ colorCodes) : n ≤ 255 := by
  revert n
  decide

private theorem dropPrefix?_of_numeral (h : Numeral digits n) :
    digits.dropPrefix? ['4', ':'] = none := by
  cases hstart : digits.dropPrefix? ['4', ':'] with
  | none => rfl
  | some underline =>
    have hcolon : ':' ∈ digits := by
      rw [dropPrefix?_eq_some.mp hstart]
      simp
    exact absurd hcolon (h.not_mem (by decide))

private theorem parseU8_of_numeral (h : Numeral digits n) (hle : n ≤ 255) :
    parseU8 digits = some n := (parseU8_eq_some (h.not_mem (by decide))).mpr ⟨h, hle⟩

/-- A part that is a numeral stands for its number. -/
theorem validateParts_numeral (h : Numeral digits n) (hle : n ≤ 255) (fuel : Nat)
    (parts : List (List Char)) :
    validateParts (fuel + 1) (digits :: parts) =
      if n ∈ plainCodes then validateParts fuel parts
      else if n ∈ colorCodes then do
        let (count, parts) ← colorCount parts
        let parts ← skipColor count parts
        validateParts fuel parts
      else .error (.message "unsupported saved terminal style") := by
  have hcode : partCode digits = .ok n := by
    rw [partCode, if_neg (by simpa using h.nonempty), parseU8_of_numeral h hle, context_some]
  rw [validateParts, dropPrefix?_of_numeral h]
  simp only [hcode, ok_bind]

private theorem validateParts_color (h : Numeral digits n) (hcolor : n ∈ colorCodes) (fuel : Nat)
    (parts : List (List Char)) :
    validateParts (fuel + 1) (digits :: parts) =
      (do
        let (count, parts) ← colorCount parts
        let parts ← skipColor count parts
        validateParts fuel parts) := by
  rw [validateParts_numeral h (le_of_mem_colorCodes hcolor), if_neg (not_mem_plainCodes hcolor),
    if_pos hcolor]

/-- The parts of a style are valid. -/
theorem validateParts_of_styleParts (h : StyleParts parts) {fuel : Nat}
    (hfuel : parts.length ≤ fuel) : validateParts fuel parts = .ok () := by
  induction h generalizing fuel with
  | nil => cases fuel <;> rfl
  | @underline c parts hc _ ih =>
    obtain ⟨fuel, rfl⟩ := Nat.exists_eq_add_one_of_ne_zero (Nat.ne_zero_of_lt hfuel)
    have hstart : ['4', ':', c].dropPrefix? ['4', ':'] = some [c] :=
      dropPrefix?_eq_some.mpr rfl
    have hunderline : [c] ∈ [['0'], ['1'], ['2'], ['3'], ['4'], ['5']] := by simpa using hc
    rw [validateParts, hstart]
    simp only [hunderline, decide_true, ensure, if_true, ok_bind]
    exact ih (Nat.le_of_succ_le_succ hfuel)
  | reset _ ih =>
    obtain ⟨fuel, rfl⟩ := Nat.exists_eq_add_one_of_ne_zero (Nat.ne_zero_of_lt hfuel)
    exact ih (Nat.le_of_succ_le_succ hfuel)
  | plain hnumeral hplain _ ih =>
    obtain ⟨fuel, rfl⟩ := Nat.exists_eq_add_one_of_ne_zero (Nat.ne_zero_of_lt hfuel)
    rw [validateParts_numeral hnumeral (le_of_mem_plainCodes hplain), if_pos hplain]
    exact ih (Nat.le_of_succ_le_succ hfuel)
  | @indexed digits index n i parts hnumeral hcolor hindex hi _ ih =>
    obtain ⟨fuel, rfl⟩ := Nat.exists_eq_add_one_of_ne_zero (Nat.ne_zero_of_lt hfuel)
    have hskip : skipColor 1 (index :: parts) = .ok parts := by
      rw [skipColor, parseU8_of_numeral hindex hi]
      rfl
    simp only [validateParts_color hnumeral hcolor, colorCount, ok_bind, hskip]
    exact ih (by simp only [List.length_cons] at hfuel; omega)
  | @direct digits red green blue n r g b parts hnumeral hcolor hred hr hgreen hg hblue hb _ ih =>
    obtain ⟨fuel, rfl⟩ := Nat.exists_eq_add_one_of_ne_zero (Nat.ne_zero_of_lt hfuel)
    have hskip : skipColor 3 (red :: green :: blue :: parts) = .ok parts := by
      rw [skipColor, skipColor, skipColor, parseU8_of_numeral hred hr,
        parseU8_of_numeral hgreen hg, parseU8_of_numeral hblue hb]
      rfl
    simp only [validateParts_color hnumeral hcolor, colorCount, ok_bind, hskip]
    exact ih (by simp only [List.length_cons] at hfuel; omega)

/-- A code is an empty part or a numeral. -/
theorem partCode_eq_ok {part : List Char} (h : '+' ∉ part) {code : Nat} :
    partCode part = .ok code ↔ (part = [] ∧ code = 0) ∨ (Numeral part code ∧ code ≤ 255) := by
  unfold partCode
  by_cases hempty : part = []
  · subst hempty
    simp only [List.isEmpty_nil, if_true, Except.ok.injEq, true_and]
    exact ⟨fun hcode ↦ .inl hcode.symm, fun hcode ↦
      hcode.elim Eq.symm fun hnumeral ↦ absurd rfl hnumeral.1.nonempty⟩
  · rw [if_neg (by simpa using hempty), context_eq_ok, parseU8_eq_some h]
    exact ⟨.inr, fun hcode ↦ hcode.resolve_left fun hpart ↦ hempty hpart.1⟩

/-- The numbers of a color are those of a style, with what is behind them. -/
theorem styleParts_of_color {count : Nat} {values rest : List (List Char)}
    (hdigits : Numeral digits n) (hcolor : n ∈ colorCodes) (hparts : ∀ part ∈ parts, '+' ∉ part)
    (hcount : colorCount parts = .ok (count, values)) (hskip : skipColor count values = .ok rest) :
    rest.length < parts.length ∧ (∀ part ∈ rest, '+' ∉ part) ∧
      (StyleParts rest → StyleParts (digits :: parts)) := by
  unfold colorCount at hcount
  split at hcount
  · cases hcount
    have hvalues := (List.forall_mem_cons.mp hparts).2
    have ⟨index, tail, i, htail, hindex, hi, hrest⟩ := (skipColor_succ hvalues).mp hskip
    rw [skipColor, Except.ok.injEq] at hrest
    subst htail hrest
    exact ⟨by simp only [List.length_cons]; omega, (List.forall_mem_cons.mp hvalues).2,
      .indexed hdigits hcolor hindex hi⟩
  · cases hcount
    have hvalues := (List.forall_mem_cons.mp hparts).2
    have ⟨red, tail, r, htail, hred, hr, hgreens⟩ := (skipColor_succ hvalues).mp hskip
    subst htail
    have htail := (List.forall_mem_cons.mp hvalues).2
    have ⟨green, tail, g, hcut, hgreen, hg, hblues⟩ := (skipColor_succ htail).mp hgreens
    subst hcut
    have htail := (List.forall_mem_cons.mp htail).2
    have ⟨blue, tail, b, hcut, hblue, hb, hrest⟩ := (skipColor_succ htail).mp hblues
    rw [skipColor, Except.ok.injEq] at hrest
    subst hcut hrest
    exact ⟨by simp only [List.length_cons]; omega, (List.forall_mem_cons.mp htail).2,
      .direct hdigits hcolor hred hr hgreen hg hblue hb⟩
  · cases hcount

/-- Valid parts are those of a style. -/
theorem styleParts_of_validateParts {fuel : Nat} (hparts : ∀ part ∈ parts, '+' ∉ part)
    (hfuel : parts.length ≤ fuel) (h : validateParts fuel parts = .ok ()) : StyleParts parts := by
  induction fuel generalizing parts with
  | zero =>
    rw [List.eq_nil_of_length_eq_zero (Nat.le_zero.mp hfuel)]
    exact .nil
  | succ fuel ih =>
    cases parts with
    | nil => exact .nil
    | cons part parts =>
      obtain ⟨hpart, hrest⟩ := List.forall_mem_cons.mp hparts
      have hlength : parts.length ≤ fuel := Nat.le_of_succ_le_succ hfuel
      rw [validateParts] at h
      cases hstart : part.dropPrefix? ['4', ':'] with
      | some underline =>
        simp only [hstart, bind_eq_ok] at h
        obtain ⟨_, hunderline, hvalid⟩ := h
        rw [dropPrefix?_eq_some.mp hstart]
        have hmem := of_decide_eq_true (ensure_eq_ok.mp hunderline)
        simp only [List.mem_cons, List.not_mem_nil, or_false] at hmem
        have hstyle := ih hrest hlength hvalid
        rcases hmem with rfl | rfl | rfl | rfl | rfl | rfl <;>
          exact .underline (by decide) hstyle
      | none =>
        simp only [hstart, bind_eq_ok] at h
        obtain ⟨code, hcode, hvalid⟩ := h
        rw [partCode_eq_ok hpart] at hcode
        by_cases hplain : code ∈ plainCodes
        · rw [if_pos hplain] at hvalid
          have hstyle := ih hrest hlength hvalid
          rcases hcode with ⟨rfl, _⟩ | ⟨hnumeral, _⟩
          · exact .reset hstyle
          · exact .plain hnumeral hplain hstyle
        rw [if_neg hplain] at hvalid
        by_cases hcolor : code ∈ colorCodes
        · rw [if_pos hcolor, bind_eq_ok] at hvalid
          obtain ⟨⟨count, values⟩, hcount, hvalid⟩ := hvalid
          rw [bind_eq_ok] at hvalid
          obtain ⟨rest, hskip, hvalid⟩ := hvalid
          have hnumeral : Numeral part code := by
            rcases hcode with ⟨_, rfl⟩ | ⟨hnumeral, _⟩
            · exact absurd hplain (by decide)
            · exact hnumeral
          obtain ⟨hlt, hplus, hstyle⟩ := styleParts_of_color hnumeral hcolor hrest hcount hskip
          exact hstyle (ih hplus (by omega) hvalid)
        · rw [if_neg hcolor] at hvalid
          cases hvalid

/-- The parts of a style are made of digits and colons. -/
theorem StyleParts.chars (h : StyleParts parts) :
    ∀ part ∈ parts, ∀ c ∈ part, c.isDigit ∨ c = ':' := by
  have hnumeral {digits : List Char} {n : Nat} (hdigits : Numeral digits n) :
      ∀ c ∈ digits, c.isDigit ∨ c = ':' := fun c hc ↦ .inl (hdigits.isDigit c hc)
  have hmode {c : Char} (hc : c.isDigit) : ∀ d ∈ [c], d.isDigit ∨ d = ':' := by
    intro d hd
    rw [List.mem_singleton.mp hd]
    exact .inl hc
  induction h with
  | nil => simp
  | @underline c _ hc _ ih =>
    have hdigit : c.isDigit := by
      revert c
      decide
    refine List.forall_mem_cons.mpr ⟨?_, ih⟩
    simp [hdigit, show '4'.isDigit from rfl]
  | reset _ ih => exact List.forall_mem_cons.mpr ⟨by simp, ih⟩
  | plain hdigits _ _ ih => exact List.forall_mem_cons.mpr ⟨hnumeral hdigits, ih⟩
  | indexed hdigits _ hindex _ _ ih =>
    refine List.forall_mem_cons.mpr ⟨hnumeral hdigits, List.forall_mem_cons.mpr ⟨?_, ?_⟩⟩
    · exact hmode rfl
    · exact List.forall_mem_cons.mpr ⟨hnumeral hindex, ih⟩
  | direct hdigits _ hred _ hgreen _ hblue _ _ ih =>
    refine List.forall_mem_cons.mpr ⟨hnumeral hdigits, List.forall_mem_cons.mpr ⟨?_, ?_⟩⟩
    · exact hmode rfl
    · exact List.forall_mem_cons.mpr ⟨hnumeral hred, List.forall_mem_cons.mpr
        ⟨hnumeral hgreen, List.forall_mem_cons.mpr ⟨hnumeral hblue, ih⟩⟩⟩

theorem StyleParts.isParameter (h : StyleParts parts) :
    ∀ c ∈ [';'].intercalate parts, isParameter c := by
  intro c hc
  rcases mem_or_of_mem_intercalate hc with rfl | ⟨part, hpart, hmem⟩
  · rfl
  · rcases h.chars part hpart c hmem with hdigit | rfl
    · simp [Control.isParameter, hdigit]
    · rfl

private theorem StyleParts.validateSgr (h : StyleParts parts) (hparts : parts ≠ []) :
    validateSgr ([';'].intercalate parts) = .ok () := by
  have hsemicolon : ∀ part ∈ parts, ';' ∉ part := by
    intro part hpart hmem
    rcases h.chars part hpart _ hmem with hdigit | hcolon
    · cases hdigit
    · cases hcolon
  rw [Control.validateSgr, List.splitOn_intercalate _ hsemicolon hparts]
  exact validateParts_of_styleParts h (Nat.le_refl _)

/-- The parameters of a style are parts with semicolons between them. -/
theorem styleParts_of_validateSgr {parameters : List Char}
    (hparameters : ∀ c ∈ parameters, isParameter c) (h : validateSgr parameters = .ok ()) :
    StyleParts (parameters.splitOn ';') := by
  refine styleParts_of_validateParts (fun part hpart hplus ↦ ?_) (Nat.le_refl _) h
  have hmem : '+' ∈ parameters := by
    rw [← @List.intercalate_splitOn _ parameters _ _ ';']
    exact mem_intercalate_of_mem hpart hplus
  exact absurd (hparameters _ hmem) (by decide)

/-! ### Controls are read -/

theorem isParameter_of_numeral (h : Numeral digits n) :
    ∀ c ∈ digits, isParameter c := by
  intro c hc
  simp [isParameter, h.isDigit c hc]

/-- The parameters of a control end before the first other character. -/
theorem readControl_parameters {front after : List Char} {c : Char}
    (hfront : ∀ d ∈ front, isParameter d) (hc : isParameter c = false) :
    (front ++ c :: after).takeWhile isParameter = front ∧
      (front ++ c :: after).dropWhile isParameter = c :: after := by
  rw [List.takeWhile_append_of_pos hfront, List.dropWhile_append_of_pos hfront]
  simp [hc]

private theorem skipOsc_append {body terminator after : List Char}
    (hbody : ∀ c ∈ body, c ≠ '\x07' ∧ c ≠ '\x1b')
    (hterminator : terminator = ['\x07'] ∨ terminator = ['\x1b', '\\']) :
    skipOsc (body ++ terminator ++ after) = .ok after := by
  have hpass : ∀ c ∈ body, (c != '\x07' && c != '\x1b') = true := by
    intro c hc
    have ⟨hbell, hescape⟩ := hbody c hc
    simp [hbell, hescape]
  rw [skipOsc, List.append_assoc, List.dropWhile_append_of_pos hpass]
  rcases hterminator with rfl | rfl <;> rfl

private theorem readControl_presentation (stripOsc keepStyles : Bool) (rest : List Char) :
    readControl stripOsc keepStyles ('\x1b' :: '[' :: rest) =
      readPresentation keepStyles ('\x1b' :: '[' :: rest) := by
  cases stripOsc <;> rfl

/-- A valid control is read as itself. -/
theorem readControl_written {stripOsc : Bool} {sequence : HistoryControl}
    (h : sequence.Valid stripOsc) (keepStyles : Bool) (after : List Char) :
    readControl stripOsc keepStyles (sequence.written ++ after) =
      .ok (sequence.pushed keepStyles, after) := by
  cases sequence with
  | gap digits =>
    obtain ⟨n, hdigits, hpositive, hle⟩ := h
    obtain ⟨htake, hdrop⟩ :=
      @readControl_parameters digits after 'C' (isParameter_of_numeral hdigits) rfl
    have hcheck : (!digits.isEmpty && digits.all Char.isDigit) = true := by
      simpa [hdigits.nonempty] using hdigits.isDigit
    have hparse : parseU16 digits = some n :=
      (parseUnsigned_eq_some (hdigits.not_mem (by decide))).mpr ⟨hdigits, hle⟩
    have hpositive : decide (0 < n) = true := decide_eq_true hpositive
    simp only [HistoryControl.written, List.cons_append, List.append_assoc, List.nil_append]
    rw [readControl_presentation, readPresentation]
    simp only [htake, hdrop, hcheck, hparse, hpositive, ensure, if_true, context_some, ok_bind,
      HistoryControl.pushed, HistoryControl.written, hdigits.value, List.cons_append]
  | style parts =>
    obtain ⟨hparts, hstyle⟩ := h
    obtain ⟨htake, hdrop⟩ := @readControl_parameters _ after 'm' hstyle.isParameter rfl
    simp only [HistoryControl.written, List.cons_append, List.append_assoc, List.nil_append]
    rw [readControl_presentation, readPresentation]
    simp only [htake, hdrop, hstyle.validateSgr hparts, ok_bind, HistoryControl.pushed,
      HistoryControl.written, List.cons_append]
  | osc body terminator =>
    obtain ⟨hstrip, hbody, hterminator⟩ := h
    subst hstrip
    have hskip := @skipOsc_append body terminator after hbody hterminator
    exact congrArg (Except.map fun rest ↦ (none, rest)) hskip

variable {after : List Char}

private theorem eq_append_of_skipOsc {body : List Char} (h : skipOsc body = .ok after) :
    ∃ inner terminator, body = inner ++ terminator ++ after ∧
      (∀ c ∈ inner, c ≠ '\x07' ∧ c ≠ '\x1b') ∧
      (terminator = ['\x07'] ∨ terminator = ['\x1b', '\\']) := by
  let passes (c : Char) : Bool := c != '\x07' && c != '\x1b'
  have hinner : ∀ c ∈ body.takeWhile passes, c ≠ '\x07' ∧ c ≠ '\x1b' := by
    intro c hc
    simpa [passes] using List.all_eq_true.mp List.all_takeWhile c hc
  have hsplit : body = body.takeWhile passes ++ body.dropWhile passes :=
    List.takeWhile_append_dropWhile.symm
  rw [skipOsc] at h
  split at h
  · cases h
  · next rest hdrop =>
    cases h
    refine ⟨body.takeWhile passes, ['\x07'], ?_, hinner, .inl rfl⟩
    rw [List.append_assoc, List.singleton_append, ← hdrop]
    exact hsplit
  · next rest hdrop =>
    cases h
    refine ⟨body.takeWhile passes, ['\x1b', '\\'], ?_, hinner, .inr rfl⟩
    rw [List.append_assoc, List.cons_append, List.singleton_append, ← hdrop]
    exact hsplit
  · cases h

/-- What is read at the front of a text is a valid gap or style. -/
theorem exists_of_readPresentation {keepStyles : Bool} (stripOsc : Bool) {rest : List Char}
    {part : Option (List Char)} (h : readPresentation keepStyles rest = .ok (part, after)) :
    ∃ sequence : HistoryControl, sequence.Valid stripOsc ∧ rest = sequence.written ++ after ∧
      part = sequence.pushed keepStyles := by
  unfold readPresentation at h
  split at h
  · next rest =>
    have hparameters : ∀ c ∈ rest.takeWhile isParameter, isParameter c :=
      List.all_eq_true.mp List.all_takeWhile
    have hsplit : rest = rest.takeWhile isParameter ++ rest.dropWhile isParameter :=
      List.takeWhile_append_dropWhile.symm
    generalize rest.takeWhile isParameter = parameters at h hsplit hparameters
    split at h
    · cases h
    · next tail hdrop =>
      simp only [bind_eq_ok, ensure_eq_ok, context_eq_ok] at h
      obtain ⟨_, hdigits, n, hparse, _, hpositive, heq⟩ := h
      rw [Bool.and_eq_true, List.all_eq_true] at hdigits
      have hplus : '+' ∉ parameters := fun hmem ↦ absurd (hparameters _ hmem) (by decide)
      obtain ⟨hnumeral, hle⟩ := (parseUnsigned_eq_some hplus).mp hparse
      cases heq
      refine ⟨.gap parameters, ⟨n, hnumeral, of_decide_eq_true hpositive, hle⟩, ?_, ?_⟩
      · rw [hsplit, hdrop]
        simp [HistoryControl.written]
      · simp [HistoryControl.written, HistoryControl.pushed, hnumeral.value]
    · next tail hdrop =>
      simp only [bind_eq_ok] at h
      obtain ⟨_, hvalid, heq⟩ := h
      have hstyle := styleParts_of_validateSgr hparameters hvalid
      have hwritten := @List.intercalate_splitOn Char parameters _ _ ';'
      cases heq
      refine ⟨.style (parameters.splitOn ';'), ⟨List.splitOn_ne_nil _ _, hstyle⟩, ?_, ?_⟩
      · rw [hsplit, hdrop, HistoryControl.written, hwritten]
        simp
      · rw [HistoryControl.pushed, HistoryControl.written, hwritten]
    · cases h
  · cases h

/-- What is read at the front of a text is a valid control. -/
theorem exists_of_readControl {stripOsc keepStyles : Bool} {rest : List Char}
    {part : Option (List Char)} (h : readControl stripOsc keepStyles rest = .ok (part, after)) :
    ∃ sequence : HistoryControl, sequence.Valid stripOsc ∧ rest = sequence.written ++ after ∧
      part = sequence.pushed keepStyles := by
  unfold readControl at h
  split at h
  · next body =>
    cases hskip : skipOsc body with
    | error error =>
      rw [hskip] at h
      cases h
    | ok rest =>
      rw [hskip] at h
      cases h
      have ⟨inner, terminator, hbody, hinner, hterminator⟩ := eq_append_of_skipOsc hskip
      refine ⟨.osc inner terminator, ⟨rfl, hinner, hterminator⟩, ?_, rfl⟩
      rw [hbody]
      rfl
  · exact exists_of_readPresentation stripOsc h

end Bootty.Control
