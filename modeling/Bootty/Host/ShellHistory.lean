import Bootty.Base.FreshName
import Bootty.Base.Utf8
import Mathlib.Algebra.GroupWithZero.Nat

/-!
# Histories of shells

Model of the readers of shell histories (`crates/bootty-host/src/shell_history.rs:10–32, 159–258`)
and of what the shells write. A reader is said to invert a shell's writer where it reads from a
history the commands that the shell wrote to it. The reader of fish inverts its writer; that of zsh
does so for commands of which no line but the last ends in an odd number of backslashes.
-/

namespace Bootty.Host

open Bootty.Base

/-- `shell_history.rs:12`. -/
def maxEntries : Nat := 5000

/-- `shell_history.rs:14–20`. -/
structure HistoryEntry where
  command : List Char
  cwd : Option (List Char) := none
  timestamp : Option Nat := none
  exitCode : Option Int := none
  frequency : Nat := 1
  deriving DecidableEq

/-- `shell_history.rs:22–30`. -/
def HistoryEntry.new (command : List Char) (timestamp : Option Nat) : HistoryEntry :=
  { command, timestamp }

/-- What a reader keeps from line to line; the entries with the newest first. -/
structure HistoryReader where
  entries : List HistoryEntry := []
  timestamp : Option Nat := none
  continued : Bool := false
  deriving DecidableEq

/-- The quotes of zsh undone, `shell_history.rs:164–174`. -/
def unmetafy : List UInt8 → List UInt8
  | [] => []
  | byte :: rest =>
    if byte = 0x83 then
      match rest with
      | [] => []
      | next :: rest => (next ^^^ 32) :: unmetafy rest
    else byte :: unmetafy rest

/-- What is before a command of fish. -/
def fishCommandMark : List Char := "- cmd: ".toList

/-- What is before the time of a command of fish. -/
def fishTimeMark : List Char := "  when: ".toList

/-- The escapes of fish undone, `shell_history.rs:189–204`. -/
def fishCommand : List Char → List Char
  | [] => []
  | ch :: rest =>
    if ch = '\\' then
      match rest with
      | [] => ['\\']
      | next :: rest =>
        if next = 'n' then '\n' :: fishCommand rest
        else if next = '\\' then '\\' :: fishCommand rest
        else '\\' :: next :: fishCommand rest
    else ch :: fishCommand rest

/-- The time and the command of a line that begins an entry of zsh, `shell_history.rs:217–221`. -/
def zshEntry (line : List Char) : Option (List Char × List Char) :=
  ((line.dropPrefix? ": ".toList).bind fun line ↦ splitOnceAt ';' line).bind
    fun (metadata, command) ↦ (splitOnceAt ':' metadata).map fun (time, _) ↦ (time, command)

/-- The time of a comment of bash, `shell_history.rs:224–227`. -/
def bashTime (line : List Char) : Option (List Char) :=
  (line.dropPrefix? "#".toList).filter fun time ↦
    !time.isEmpty && time.all Char.isDigit

/-- `parse` to a `u64`. -/
def parseTime (time : List Char) : Option Nat := parseUnsigned (2 ^ 64 - 1) (String.ofList time)

/-- The backslashes at the end of a line. -/
def trailingBackslashes (line : List Char) : Nat := (line.reverse.takeWhile (· == '\\')).length

namespace HistoryReader

/-- `shell_history.rs:183–185, 254–256`. -/
def bounded (reader : HistoryReader) : HistoryReader :=
  { reader with entries := reader.entries.take maxEntries }

/-- A line of a history of fish, `shell_history.rs:186–212`. -/
def readFish (reader : HistoryReader) (line : List Char) : HistoryReader :=
  match line.dropPrefix? fishCommandMark with
  | some command =>
    { reader with entries := .new (fishCommand command) none :: reader.entries }
  | none =>
    match line.dropPrefix? fishTimeMark with
    | some time =>
      { reader with
        entries := reader.entries.modifyHead fun entry ↦
          { entry with timestamp := parseTime time } }
    | none => reader

/-- What is left of a line for the next one, `shell_history.rs:240–252`. -/
def endLine (shell : String) (line : List Char) (reader : HistoryReader) : HistoryReader :=
  let continued := shell == "zsh" && line.getLast? == some '\\' && trailingBackslashes line % 2 == 1
  { reader with
    continued
    entries := if continued then
      reader.entries.modifyHead fun entry ↦ { entry with command := entry.command.dropLast }
      else reader.entries }

/-- A line is added to the command of the last entry. -/
def extend (reader : HistoryReader) (line : List Char) : HistoryReader :=
  { reader with
    entries := reader.entries.modifyHead fun entry ↦
      { entry with command := entry.command ++ '\n' :: line } }

/-- `shell_history.rs:182–253`. -/
def readLine (shell : String) (reader : HistoryReader) (line : List Char) : HistoryReader :=
  if shell = "fish" then reader.readFish line
  else if reader.continued ∧ reader.entries ≠ [] then (reader.extend line).endLine shell line
  else
    match if shell = "zsh" then zshEntry line else none with
    | some (time, command) =>
      { reader with entries := .new command (parseTime time) :: reader.entries }.endLine shell line
    | none =>
      match if shell = "bash" then bashTime line else none with
      | some time => { reader with timestamp := parseTime time }
      | none =>
        if shell = "bash" ∧ reader.timestamp = none ∧
            reader.entries.head?.any (·.timestamp.isSome) then
          (reader.extend line).endLine shell line
        else
          { reader with
            entries := .new line reader.timestamp :: reader.entries
            timestamp := none }.endLine shell line

end HistoryReader

/-- `shell_history.rs:178–258`. -/
def parseHistory (shell : String) (content : List Char) : List HistoryEntry :=
  ((lines content).foldl (fun (reader : HistoryReader) line ↦ reader.bounded.readLine shell line)
    {}).bounded.entries.reverse

/-- `shell_history.rs:159–176`. -/
def parseHistoryBytes (shell : String) (bytes : List UInt8) : List HistoryEntry :=
  if shell ≠ "zsh" then parseHistory shell (fromUtf8Lossy bytes).toList
  else parseHistory shell (fromUtf8Lossy (unmetafy bytes)).toList

/-! ### What the shells write -/

/-- A command that a shell ran. -/
structure ShellRecord where
  command : List Char
  timestamp : Nat
  duration : Nat
  deriving DecidableEq

/-- The entry of a record. -/
def ShellRecord.entry (record : ShellRecord) : HistoryEntry :=
  .new record.command (some record.timestamp)

/-- Backslashes and newlines as fish writes them. -/
def fishEscape (command : List Char) : List Char :=
  command.flatMap fun c ↦ if c = '\\' then ['\\', '\\'] else if c = '\n' then ['\\', 'n'] else [c]

/-- A record in a history of fish. -/
def fishRecord (record : ShellRecord) : List Char :=
  fishCommandMark ++ fishEscape record.command ++ '\n' ::
    (fishTimeMark ++ decimal record.timestamp ++ ['\n'])

/-- Newlines as zsh writes them. -/
def zshEscape (command : List Char) : List Char :=
  command.flatMap fun c ↦ if c = '\n' then ['\\', '\n'] else [c]

/-- Special bytes in quotes of zsh. -/
def metafy (special : UInt8 → Bool) (bytes : List UInt8) : List UInt8 :=
  bytes.flatMap fun byte ↦ if special byte then [0x83, byte ^^^ 32] else [byte]

/-- What is before the command of a record in a history of zsh. -/
def zshHeader (record : ShellRecord) : List Char :=
  ": ".toList ++ (decimal record.timestamp ++ ':' :: (decimal record.duration ++ [';']))

/-- A record in a history of zsh. -/
def zshRecord (special : UInt8 → Bool) (record : ShellRecord) : List UInt8 :=
  textBytes (String.ofList (zshHeader record)) ++
    metafy special (textBytes (String.ofList (zshEscape record.command))) ++ textBytes "\n"

/-- No line of a command but the last ends in an odd number of backslashes. -/
def ContinuesEvenly (command : List Char) : Prop :=
  ∀ front rest, command = front ++ '\n' :: rest → trailingBackslashes front % 2 = 0

/-! ### The bound on the entries -/

private theorem modifyHead_take {α : Type} (f : α → α) (n : Nat) (xs : List α) :
    (xs.take n).modifyHead f = (xs.modifyHead f).take n := by
  cases xs with
  | nil => simp
  | cons x xs => cases n <;> rfl

private theorem take_cons_take {α : Type} (x : α) (n : Nat) (xs : List α) :
    (x :: xs.take n).take n = (x :: xs).take n := by
  cases n with
  | zero => rfl
  | succ n =>
    rw [List.take_succ_cons, List.take_succ_cons, List.take_take, Nat.min_eq_left (Nat.le_succ n)]

namespace HistoryReader

@[simp]
theorem bounded_bounded (reader : HistoryReader) : reader.bounded.bounded = reader.bounded := by
  rw [bounded, bounded]
  simp only [List.take_take, Nat.min_self]

@[simp]
theorem timestamp_bounded (reader : HistoryReader) :
    reader.bounded.timestamp = reader.timestamp := rfl

@[simp]
theorem continued_bounded (reader : HistoryReader) :
    reader.bounded.continued = reader.continued := rfl

@[simp]
theorem bounded_eq_nil {reader : HistoryReader} :
    reader.bounded.entries = [] ↔ reader.entries = [] := by
  simp [bounded, maxEntries]

@[simp]
theorem head?_bounded (reader : HistoryReader) :
    reader.bounded.entries.head? = reader.entries.head? := by
  cases h : reader.entries <;> simp [bounded, maxEntries, h]

private theorem endLine_bounded (shell : String) (line : List Char) (reader : HistoryReader) :
    (reader.bounded.endLine shell line) = (reader.endLine shell line).bounded := by
  unfold endLine bounded
  simp only
  split
  · rw [modifyHead_take]
  · rfl

private theorem extend_bounded (line : List Char) (reader : HistoryReader) :
    reader.bounded.extend line = (reader.extend line).bounded := by
  unfold extend bounded
  rw [modifyHead_take]

/-- What is over the bound has no influence on the entries within. -/
theorem readLine_bounded (shell : String) (reader : HistoryReader) (line : List Char) :
    (reader.bounded.readLine shell line).bounded = (reader.readLine shell line).bounded := by
  have hpush (entry : HistoryEntry) (timestamp : Option Nat) (continued : Bool) :
      (HistoryReader.mk (entry :: reader.bounded.entries) timestamp continued).bounded =
        (HistoryReader.mk (entry :: reader.entries) timestamp continued).bounded := by
    simp only [bounded, take_cons_take]
  unfold readLine
  split
  · unfold readFish
    split
    · exact hpush _ _ _
    · split
      · unfold bounded
        simp only [modifyHead_take, List.take_take, Nat.min_self]
      · exact bounded_bounded reader
  · simp only [ne_eq, bounded_eq_nil, head?_bounded, continued_bounded, timestamp_bounded]
    split
    · rw [extend_bounded, endLine_bounded, bounded_bounded]
    · split
      · rw [← endLine_bounded, hpush, endLine_bounded]
      · split
        · exact congrArg (fun entries ↦ HistoryReader.mk entries _ _)
            (by rw [bounded, List.take_take, Nat.min_self])
        · split
          · rw [extend_bounded, endLine_bounded, bounded_bounded]
          · rw [← endLine_bounded, hpush, endLine_bounded]

/-- A text is read line by line. -/
def read (shell : String) (reader : HistoryReader) (text : List Char) : HistoryReader :=
  (lines text).foldl (readLine shell) reader

private theorem foldl_bounded (shell : String) (texts : List (List Char))
    {reader reader' : HistoryReader}
    (h : reader.bounded = reader'.bounded) :
    (texts.foldl (fun (reader : HistoryReader) line ↦ reader.bounded.readLine shell line)
      reader).bounded = (texts.foldl (readLine shell) reader').bounded := by
  induction texts generalizing reader reader' with
  | nil => exact h
  | cons line texts ih =>
    refine ih ?_
    show (readLine shell reader.bounded line).bounded = _
    rw [h, readLine_bounded]

end HistoryReader

/-- The bound can be put on the entries in the end. -/
theorem parseHistory_eq (shell : String) (content : List Char) :
    parseHistory shell content =
      ((HistoryReader.read shell {} content).entries.take maxEntries).reverse := by
  rw [parseHistory, HistoryReader.foldl_bounded shell _ rfl]
  rfl

/-! ### Lines -/

private theorem linesFrom_append {front line rest : List Char} (h : '\n' ∉ line) :
    linesFrom front (line ++ rest) = linesFrom (line.reverse ++ front) rest := by
  induction line generalizing front with
  | nil => rfl
  | cons c line ih =>
    have ⟨hc, hline⟩ := not_or.mp (List.mem_cons.not.mp h)
    rw [List.cons_append, linesFrom, ih hline, List.reverse_cons, List.append_assoc]
    · rfl
    · exact fun heq ↦ hc heq.symm

private theorem lines_append {line rest : List Char} (h : '\n' ∉ line) (hreturn : '\r' ∉ line) :
    lines (line ++ '\n' :: rest) = line :: lines rest := by
  rw [lines, linesFrom_append h, List.append_nil, linesFrom, lines, List.reverse_reverse]
  intro front heq
  exact hreturn (List.mem_reverse.mp (heq ▸ List.mem_cons_self))

private theorem HistoryReader.read_line {line rest : List Char} (h : '\n' ∉ line)
    (hreturn : '\r' ∉ line)
    (shell : String) (reader : HistoryReader) :
    reader.read shell (line ++ '\n' :: rest) = (reader.readLine shell line).read shell rest := by
  rw [read, lines_append h hreturn, List.foldl_cons]
  rfl

/-- A text is a line, or has one in front of it. -/
theorem lineInduction {P : List Char → Prop} (last : ∀ line, '\n' ∉ line → P line)
    (next : ∀ line rest, '\n' ∉ line → P rest → P (line ++ '\n' :: rest)) (text : List Char) :
    P text := by
  induction hlength : text.length using Nat.strongRecOn generalizing text with
  | _ length ih =>
    by_cases hmem : '\n' ∈ text
    · have ⟨line, rest, htext, hline⟩ := List.eq_append_cons_of_mem hmem
      rw [htext]
      refine next line rest hline (ih _ ?_ rest rfl)
      rw [← hlength, htext]
      simp only [List.length_append, List.length_cons]
      omega
    · exact last text hmem

/-! ### Numbers -/

/-- A decimal number is parsed. -/
theorem parseTime_decimal {n : Nat} (h : n < 2 ^ 64) : parseTime (decimal n) = some n := by
  have hnumeral := numeral_decimal n
  have hplus : '+' ∉ decimal n := hnumeral.not_mem (by decide)
  exact (parseUnsigned_eq_some hplus).mpr ⟨hnumeral, Nat.le_sub_one_of_lt h⟩

/-! ### Fish -/

private theorem fishCommand_escape (command : List Char) : fishCommand
    (fishEscape command) = command := by
  induction command with
  | nil => rfl
  | cons c command ih =>
    rw [fishEscape, List.flatMap_cons, ← fishEscape]
    by_cases hslash : c = '\\'
    · rw [if_pos hslash]
      simp [fishCommand, ih, hslash]
    rw [if_neg hslash]
    by_cases hnewline : c = '\n'
    · rw [if_pos hnewline]
      simp [fishCommand, ih, hnewline]
    · rw [if_neg hnewline, List.singleton_append, fishCommand.eq_def]
      simp only [if_neg hslash, ih]

private theorem newline_not_mem_fishEscape (command : List Char) : '\n' ∉ fishEscape command := by
  intro hmem
  have ⟨c, _, hc⟩ := List.mem_flatMap.mp hmem
  split at hc
  · simp at hc
  · split at hc
    · simp at hc
    · next hne => exact hne (List.mem_singleton.mp hc).symm

private theorem return_not_mem_fishEscape {command : List Char} (h : '\r' ∉ command) :
    '\r' ∉ fishEscape command := by
  intro hmem
  have ⟨c, hcommand, hc⟩ := List.mem_flatMap.mp hmem
  split at hc
  · simp at hc
  · split at hc
    · simp at hc
    · exact h (List.mem_singleton.mp hc ▸ hcommand)

private theorem not_mem_append {c : Char} {front back : List Char} (hfront : c ∉ front)
    (hback : c ∉ back) : c ∉ front ++ back :=
  fun hmem ↦ (List.mem_append.mp hmem).elim hfront hback

/-- A record of fish is read as its entry. -/
theorem read_fishRecord {record : ShellRecord} (hreturn : '\r' ∉ record.command)
    (htime : record.timestamp < 2 ^ 64) (entries : List HistoryEntry) (rest : List Char) :
    HistoryReader.read "fish" ⟨entries, none, false⟩ (fishRecord record ++ rest) =
      HistoryReader.read "fish" ⟨record.entry :: entries, none, false⟩ rest := by
  have hrecord : fishRecord record ++ rest =
      (fishCommandMark ++ fishEscape record.command) ++ '\n' ::
        ((fishTimeMark ++ decimal record.timestamp) ++ '\n' :: rest) := by
    simp only [fishRecord, List.append_assoc, List.cons_append, List.nil_append]
  have hcommand : '\n' ∉ fishCommandMark ++ fishEscape record.command :=
    not_mem_append (by decide +kernel) (newline_not_mem_fishEscape _)
  have hcommand' : '\r' ∉ fishCommandMark ++ fishEscape record.command :=
    not_mem_append (by decide +kernel) (return_not_mem_fishEscape hreturn)
  have hwhen : '\n' ∉ fishTimeMark ++ decimal record.timestamp :=
    not_mem_append (by decide +kernel) (not_mem_decimal (by decide) _)
  have hwhen' : '\r' ∉ fishTimeMark ++ decimal record.timestamp :=
    not_mem_append (by decide +kernel) (not_mem_decimal (by decide) _)
  rw [hrecord, HistoryReader.read_line hcommand hcommand', HistoryReader.read_line hwhen hwhen']
  have hnot : (fishTimeMark ++ decimal record.timestamp).dropPrefix? fishCommandMark = none := by
    have hspace : fishTimeMark = ' ' :: " when: ".toList := by decide +kernel
    have hdash : fishCommandMark = '-' :: " cmd: ".toList := by decide +kernel
    rw [hspace, hdash, List.cons_append, List.dropPrefix?, if_neg (by decide)]
  have hfirst : HistoryReader.readLine "fish" ⟨entries, none, false⟩
      (fishCommandMark ++ fishEscape record.command) =
        ⟨.new record.command none :: entries, none, false⟩ := by
    rw [HistoryReader.readLine, if_pos rfl, HistoryReader.readFish, dropPrefix?_append]
    simp only [fishCommand_escape]
  have hsecond : HistoryReader.readLine "fish" ⟨.new record.command none :: entries, none, false⟩
      (fishTimeMark ++ decimal record.timestamp) =
        ⟨record.entry :: entries, none, false⟩ := by
    rw [HistoryReader.readLine, if_pos rfl, HistoryReader.readFish, hnot, dropPrefix?_append]
    simp only [parseTime_decimal htime]
    rfl
  rw [hfirst, hsecond]

/-! ### Zsh -/

private theorem trailingBackslashes_concat (line : List Char) :
    trailingBackslashes (line ++ ['\\']) = trailingBackslashes line + 1 := by
  simp [trailingBackslashes]

private theorem trailingBackslashes_append {c : Char} (h : c ≠ '\\') (front line : List Char) :
    trailingBackslashes (front ++ c :: line) = trailingBackslashes line := by
  rw [trailingBackslashes, List.reverse_append, List.reverse_cons, List.append_assoc,
    List.takeWhile_append]
  split
  · next hall =>
    rw [List.singleton_append, List.takeWhile_cons_of_neg (by simpa using h), List.append_nil,
      List.length_reverse, trailingBackslashes, ← @List.length_reverse _ line, hall]
  · rfl

private theorem trailingBackslashes_eq_zero {line : List Char} (h : line.getLast? ≠ some '\\') :
    trailingBackslashes line = 0 := by
  rw [← List.head?_reverse] at h
  rw [trailingBackslashes]
  cases hline : line.reverse with
  | nil => rfl
  | cons c rest =>
    rw [hline, List.head?_cons, ne_eq, Option.some.injEq] at h
    rw [List.takeWhile_cons_of_neg (by simpa using h), List.length_nil]

private theorem continuesEvenly_of_line {line : List Char} (h : '\n' ∉ line) :
    ContinuesEvenly line := by
  intro front rest hline
  rw [hline] at h
  simp at h

/-- A command continues evenly if its first line and the rest do. -/
theorem continuesEvenly_append {line : List Char} (h : '\n' ∉ line) (rest : List Char) :
    ContinuesEvenly (line ++ '\n' :: rest) ↔
      trailingBackslashes line % 2 = 0 ∧ ContinuesEvenly rest := by
  constructor
  · intro heven
    refine ⟨heven line rest rfl, fun front back hrest ↦ ?_⟩
    have hfront := heven (line ++ '\n' :: front) back (by simp [hrest])
    rwa [trailingBackslashes_append (by decide)] at hfront
  · intro ⟨hline, hrest⟩ front back hsplit
    rcases List.append_eq_append_iff.mp hsplit with
      ⟨between, hfront, hback⟩ | ⟨between, hline', hback⟩
    · cases between with
      | nil =>
        rw [hfront, List.append_nil]
        exact hline
      | cons c between =>
        rw [List.cons_append] at hback
        have ⟨hc, hrest'⟩ := List.cons.inj hback
        rw [hfront, ← hc, trailingBackslashes_append (by decide)]
        exact hrest between back hrest'
    · cases between with
      | nil =>
        rw [List.append_nil] at hline'
        rw [← hline']
        exact hline
      | cons c between =>
        rw [List.cons_append] at hback
        have ⟨hc, _⟩ := List.cons.inj hback
        rw [hline', ← hc] at h
        simp at h

namespace HistoryReader

private theorem endLine_of_even {line : List Char} (h : trailingBackslashes line % 2 = 0)
    (entries : List HistoryEntry) (continued : Bool) :
    endLine "zsh" line ⟨entries, none, continued⟩ = ⟨entries, none, false⟩ := by
  simp [endLine, h]

private theorem endLine_of_odd {line : List Char} (h : trailingBackslashes line % 2 = 0)
    (entry : HistoryEntry) (entries : List HistoryEntry) (continued : Bool) :
    endLine "zsh" (line ++ ['\\']) ⟨entry :: entries, none, continued⟩ =
      ⟨{ entry with command := entry.command.dropLast } :: entries, none, true⟩ := by
  have hodd : (trailingBackslashes line + 1) % 2 = 1 := by omega
  simp [endLine, trailingBackslashes_concat, hodd]

private theorem readLine_of_continued (line : List Char) (entry : HistoryEntry)
    (entries : List HistoryEntry) :
    readLine "zsh" ⟨entry :: entries, none, true⟩ line =
      endLine "zsh" line
        ⟨{ entry with command := entry.command ++ '\n' :: line } :: entries, none, true⟩ := by
  simp [readLine, extend]

end HistoryReader

private theorem length_zshEntry {line time command : List Char}
    (h : zshEntry line = some (time, command)) : command.length ≤ line.length := by
  have ⟨⟨metadata, command'⟩, hsplit, htime⟩ := Option.bind_eq_some_iff.mp h
  have ⟨parts, _, heq⟩ := Option.map_eq_some_iff.mp htime
  have ⟨line', hprefix, hcommand⟩ := Option.bind_eq_some_iff.mp hsplit
  have ⟨front, hline, _⟩ := List.dropPrefix?_eq_some_iff.mp hprefix
  have ⟨hline', _⟩ := splitOnceAt_eq_some hcommand
  have hsame : command' = command := congrArg Prod.snd heq
  rw [hline, hline', hsame]
  simp only [List.length_append, List.length_cons]
  omega

namespace HistoryReader

/-- A line that continues nothing begins an entry. -/
theorem readLine_fresh (line : List Char) (entries : List HistoryEntry) :
    ∃ entry : HistoryEntry, entry.command.length ≤ line.length ∧
      readLine "zsh" ⟨entries, none, false⟩ line =
        endLine "zsh" line ⟨entry :: entries, none, false⟩ := by
  cases h : zshEntry line with
  | none => exact ⟨.new line none, Nat.le_refl _, by simp [readLine, h]⟩
  | some parts =>
    exact ⟨.new parts.2 (parseTime parts.1), length_zshEntry h, by simp [readLine, h]⟩

end HistoryReader

private theorem zshEscape_of_line {line : List Char} (h : '\n' ∉ line) : zshEscape line = line := by
  induction line with
  | nil => rfl
  | cons c line ih =>
    have ⟨hc, hline⟩ := not_or.mp (List.mem_cons.not.mp h)
    rw [zshEscape, List.flatMap_cons, if_neg fun heq ↦ hc heq.symm, ← zshEscape, ih hline]
    rfl

private theorem zshEscape_append {line : List Char} (h : '\n' ∉ line) (rest : List Char) :
    zshEscape (line ++ '\n' :: rest) = line ++ '\\' :: '\n' :: zshEscape rest := by
  have hline := zshEscape_of_line h
  rw [zshEscape] at hline
  rw [zshEscape, List.flatMap_append, hline, List.flatMap_cons, if_pos rfl]
  rfl

/-- A command that zsh writes is a line, or a line that is continued. -/
structure ZshCommand (command : List Char) : Prop where
  noReturn : '\r' ∉ command
  ends : command.getLast? ≠ some '\\'

private theorem ZshCommand.rest {line rest : List Char} (h : ZshCommand (line ++ '\n' :: rest)) :
    '\r' ∉ line ∧ ZshCommand rest := by
  have hreturn := h.noReturn
  rw [List.mem_append, List.mem_cons, not_or, not_or] at hreturn
  refine ⟨hreturn.1, hreturn.2.2, fun hlast ↦ h.ends ?_⟩
  rw [List.getLast?_append_cons]
  cases rest with
  | nil => cases hlast
  | cons c rest => exact hlast

/-- Where no entry is continued, a command is read as one entry and others before it. -/
def ReadsFresh (command : List Char) : Prop :=
  ∀ entries rest, ∃ (newest : HistoryEntry) (others : List HistoryEntry),
    HistoryReader.read "zsh" ⟨entries, none, false⟩ (zshEscape command ++ '\n' :: rest) =
      HistoryReader.read "zsh" ⟨newest :: (others ++ entries), none, false⟩ rest ∧
    newest.command.length ≤ command.length

/-- Where an entry is continued, a command is read as the rest of it if its lines are continued, and
else as entries of which the newest one is no longer than the command. -/
def ReadsContinued (command : List Char) : Prop :=
  ∀ (entry : HistoryEntry) entries rest,
    ∃ (newest : HistoryEntry) (others : List HistoryEntry),
      HistoryReader.read "zsh" ⟨entry :: entries, none, true⟩
          (zshEscape command ++ '\n' :: rest) =
        HistoryReader.read "zsh" ⟨newest :: (others ++ entries), none, false⟩ rest ∧
      (ContinuesEvenly command → others = [] ∧
        newest = { entry with command := entry.command ++ '\n' :: command }) ∧
      (¬ContinuesEvenly command → newest.command.length ≤ command.length)

private theorem reads_line {line : List Char} (hline : '\n' ∉ line) (hcommand : ZshCommand line) :
    ReadsFresh line ∧ ReadsContinued line := by
  have heven : trailingBackslashes line % 2 = 0 := by
    rw [trailingBackslashes_eq_zero hcommand.ends]
  unfold ReadsFresh ReadsContinued
  rw [zshEscape_of_line hline]
  constructor
  · intro entries rest
    have ⟨entry, hlength, hread⟩ := HistoryReader.readLine_fresh line entries
    refine ⟨entry, [], ?_, hlength⟩
    rw [HistoryReader.read_line hline hcommand.noReturn, hread,
      HistoryReader.endLine_of_even heven]
    rfl
  · intro entry entries rest
    refine ⟨_, [], ?_, fun _ ↦ ⟨rfl, rfl⟩, fun hodd ↦ absurd (continuesEvenly_of_line hline) hodd⟩
    rw [HistoryReader.read_line hline hcommand.noReturn, HistoryReader.readLine_of_continued,
      HistoryReader.endLine_of_even heven]
    rfl

section FirstLine

variable {line command : List Char}

/-- The first line of a command as zsh writes it. -/
theorem read_firstLine (hline : '\n' ∉ line) (hreturn : '\r' ∉ line) (reader : HistoryReader)
    (rest : List Char) :
    HistoryReader.read "zsh" reader (zshEscape (line ++ '\n' :: command) ++ '\n' :: rest) =
      HistoryReader.read "zsh" (reader.readLine "zsh" (line ++ ['\\']))
        (zshEscape command ++ '\n' :: rest) := by
  have hnewline : '\n' ∉ line ++ ['\\'] := not_mem_append hline (by decide)
  have hreturn' : '\r' ∉ line ++ ['\\'] := not_mem_append hreturn (by decide)
  have hsplit : line ++ '\\' :: '\n' :: zshEscape command ++ '\n' :: rest =
      (line ++ ['\\']) ++ '\n' :: (zshEscape command ++ '\n' :: rest) := by simp
  rw [zshEscape_append hline, hsplit, HistoryReader.read_line hnewline hreturn']

/-- An even line is continued. -/
theorem reads_of_even (hline : '\n' ∉ line) (hreturn : '\r' ∉ line)
    (heven : trailingBackslashes line % 2 = 0) (h : ReadsContinued command) :
    ReadsFresh (line ++ '\n' :: command) ∧ ReadsContinued (line ++ '\n' :: command) := by
  have hlength : (line ++ '\n' :: command).length = line.length + 1 + command.length := by
    simp only [List.length_append, List.length_cons]
    omega
  constructor
  · intro entries rest
    have ⟨entry, hentry, hread⟩ := HistoryReader.readLine_fresh (line ++ ['\\']) entries
    rw [List.length_append, List.length_singleton] at hentry
    have ⟨newest, others, hnext, hsame, hshort⟩ := h
      { entry with command := entry.command.dropLast } entries rest
    refine ⟨newest, others, ?_, ?_⟩
    · rw [read_firstLine hline hreturn, hread, HistoryReader.endLine_of_odd heven, hnext]
    · rw [hlength]
      by_cases hrestEven : ContinuesEvenly command
      · rw [(hsame hrestEven).2]
        simp only [List.length_append, List.length_cons, List.length_dropLast]
        omega
      · have := hshort hrestEven
        omega
  · intro entry entries rest
    have hdrop : (entry.command ++ '\n' :: (line ++ ['\\'])).dropLast =
        entry.command ++ '\n' :: line := by
      rw [← List.cons_append, ← List.append_assoc, List.dropLast_concat]
    have ⟨newest, others, hnext, hsame, hshort⟩ := h
      { entry with command := entry.command ++ '\n' :: line } entries rest
    refine ⟨newest, others, ?_, fun hevenly ↦ ?_, fun hodd ↦ ?_⟩
    · rw [read_firstLine hline hreturn, HistoryReader.readLine_of_continued,
        HistoryReader.endLine_of_odd heven]
      simp only [hdrop]
      exact hnext
    · have ⟨hothers, hnewest⟩ := hsame ((continuesEvenly_append hline command).mp hevenly).2
      refine ⟨hothers, ?_⟩
      rw [hnewest]
      simp
    · have hrestOdd : ¬ContinuesEvenly command := fun hrestEven ↦
        hodd ((continuesEvenly_append hline command).mpr ⟨heven, hrestEven⟩)
      have := hshort hrestOdd
      omega

/-- An odd line is not continued, and the next one begins an entry. -/
theorem reads_of_odd (hline : '\n' ∉ line) (hreturn : '\r' ∉ line)
    (hodd : ¬trailingBackslashes line % 2 = 0) (h : ReadsFresh command) :
    ReadsFresh (line ++ '\n' :: command) ∧ ReadsContinued (line ++ '\n' :: command) := by
  have hlength : command.length ≤ (line ++ '\n' :: command).length := by
    simp only [List.length_append, List.length_cons]
    omega
  have hbroken : trailingBackslashes (line ++ ['\\']) % 2 = 0 := by
    rw [trailingBackslashes_concat]
    omega
  constructor
  · intro entries rest
    have ⟨entry, _, hread⟩ := HistoryReader.readLine_fresh (line ++ ['\\']) entries
    have ⟨newest, others, hnext, hshort⟩ := h (entry :: entries) rest
    refine ⟨newest, others ++ [entry], ?_, Nat.le_trans hshort hlength⟩
    rw [read_firstLine hline hreturn, hread, HistoryReader.endLine_of_even hbroken, hnext,
      List.append_assoc]
    rfl
  · intro entry entries rest
    let extended : HistoryEntry :=
      { entry with command := entry.command ++ '\n' :: (line ++ ['\\']) }
    have ⟨newest, others, hnext, hshort⟩ := h (extended :: entries) rest
    refine ⟨newest, others ++ [extended], ?_, fun hevenly ↦ ?_, fun _ ↦
      Nat.le_trans hshort hlength⟩
    · rw [read_firstLine hline hreturn, HistoryReader.readLine_of_continued,
        HistoryReader.endLine_of_even hbroken, hnext, List.append_assoc]
      rfl
    · exact absurd ((continuesEvenly_append hline command).mp hevenly).1 hodd

end FirstLine

/-- What reading the lines of a command comes to, of which no record has begun or one has. An odd
number of backslashes makes the lines after it a new entry. -/
theorem read_zshEscape (command : List Char) (hcommand : ZshCommand command) :
    ReadsFresh command ∧ ReadsContinued command := by
  induction command using lineInduction with
  | last line hline => exact reads_line hline hcommand
  | next line command hline ih =>
    have ⟨hreturn, hrest⟩ := hcommand.rest
    have ⟨hfresh, hcontinued⟩ := ih hrest
    by_cases heven : trailingBackslashes line % 2 = 0
    · exact reads_of_even hline hreturn heven hcontinued
    · exact reads_of_odd hline hreturn heven hfresh

/-! ### The records of zsh -/

private theorem zshEntry_header (record : ShellRecord) (line : List Char) :
    zshEntry (zshHeader record ++ line) = some (decimal record.timestamp, line) := by
  have hmetadata : ';' ∉ decimal record.timestamp ++ ':' :: decimal record.duration := by
    refine not_mem_append (not_mem_decimal (by decide) _) fun hmem ↦ ?_
    rcases List.mem_cons.mp hmem with heq | hmem
    · cases heq
    · exact not_mem_decimal (by decide) _ hmem
  have htext : zshHeader record ++ line = ": ".toList ++
      ((decimal record.timestamp ++ ':' :: decimal record.duration) ++ ';' :: line) := by
    simp only [zshHeader, List.append_assoc, List.cons_append, List.nil_append]
  rw [zshEntry, htext, dropPrefix?_append, Option.bind_some, splitOnceAt_append_cons hmetadata,
    Option.bind_some]
  simp only [splitOnceAt_append_cons (not_mem_decimal (show ':'.isDigit = false by decide) _),
    Option.map_some]

private theorem not_mem_zshHeader {c : Char} (hmarks : c ∉ [':', ' ', ';'])
    (hdigit : c.isDigit = false)
    (record : ShellRecord) : c ∉ zshHeader record := by
  intro hmem
  have hstart : ": ".toList = [':', ' '] := by decide +kernel
  have htime := not_mem_decimal hdigit record.timestamp
  have hduration := not_mem_decimal hdigit record.duration
  simp only [zshHeader, hstart, List.mem_append, List.mem_cons, htime, hduration] at hmem hmarks
  simp_all

private theorem trailingBackslashes_header (record : ShellRecord) (line : List Char) :
    trailingBackslashes (zshHeader record ++ line) = trailingBackslashes line := by
  have htext : zshHeader record ++ line = (": ".toList ++ (decimal record.timestamp ++
      ':' :: decimal record.duration)) ++ ';' :: line := by
    simp only [zshHeader, List.append_assoc, List.cons_append, List.nil_append]
  rw [htext, trailingBackslashes_append (by decide)]

/-- The text of a record of zsh. -/
def zshText (record : ShellRecord) : List Char :=
  zshHeader record ++ zshEscape record.command ++ ['\n']

private theorem HistoryReader.readLine_header {record : ShellRecord}
    (htime : record.timestamp < 2 ^ 64)
    (line : List Char) (entries : List HistoryEntry) :
    HistoryReader.readLine "zsh" ⟨entries, none, false⟩ (zshHeader record ++ line) =
      HistoryReader.endLine "zsh" (zshHeader record ++ line)
        ⟨.new line (some record.timestamp) :: entries, none, false⟩ := by
  simp [HistoryReader.readLine, zshEntry_header, parseTime_decimal htime]

/-- A record of zsh whose command continues evenly is read as its entry; another one is read as
several entries, of which the last is too short. -/
theorem read_zshText {record : ShellRecord} (hcommand : ZshCommand record.command)
    (htime : record.timestamp < 2 ^ 64) (entries : List HistoryEntry) (rest : List Char) :
    ∃ (newest : HistoryEntry) (others : List HistoryEntry),
      HistoryReader.read "zsh" ⟨entries, none, false⟩ (zshText record ++ rest) =
        HistoryReader.read "zsh" ⟨newest :: (others ++ entries), none, false⟩ rest ∧
      (ContinuesEvenly record.command → others = [] ∧ newest = record.entry) ∧
      (¬ContinuesEvenly record.command → newest ≠ record.entry) := by
  have hnewline : '\n' ∉ zshHeader record := not_mem_zshHeader (by decide) (by decide) record
  have hreturn : '\r' ∉ zshHeader record := not_mem_zshHeader (by decide) (by decide) record
  by_cases hline : '\n' ∈ record.command
  · have ⟨line, command, hsplit, hfirst⟩ := List.eq_append_cons_of_mem hline
    rw [hsplit] at hcommand
    have ⟨hlineReturn, hrest⟩ := hcommand.rest
    have ⟨hfresh, hcontinued⟩ := read_zshEscape command hrest
    have htext : zshText record ++ rest = (zshHeader record ++ (line ++ ['\\'])) ++ '\n' ::
        (zshEscape command ++ '\n' :: rest) := by
      simp [zshText, hsplit, zshEscape_append hfirst]
    have hnewline' : '\n' ∉ zshHeader record ++ (line ++ ['\\']) :=
      not_mem_append hnewline (not_mem_append hfirst (by decide))
    have hreturn' : '\r' ∉ zshHeader record ++ (line ++ ['\\']) :=
      not_mem_append hreturn (not_mem_append hlineReturn (by decide))
    rw [htext, HistoryReader.read_line hnewline' hreturn', HistoryReader.readLine_header htime,
      hsplit, continuesEvenly_append hfirst]
    have hshorter : ∀ newest : HistoryEntry, newest.command.length ≤ command.length →
        newest ≠ record.entry := by
      intro newest hlength heq
      have hcommand : newest.command = line ++ '\n' :: command := by rw [heq, ← hsplit]; rfl
      rw [hcommand, List.length_append, List.length_cons] at hlength
      omega
    by_cases heven : trailingBackslashes line % 2 = 0
    · have hheader : trailingBackslashes (zshHeader record ++ line) % 2 = 0 := by
        rwa [trailingBackslashes_header]
      have ⟨newest, others, hnext, hsame, hshort⟩ :=
        hcontinued (.new line (some record.timestamp)) entries rest
      refine ⟨newest, others, ?_, fun hevenly ↦ ?_, fun hodd ↦ ?_⟩
      · rw [← List.append_assoc, HistoryReader.endLine_of_odd hheader]
        simp only [HistoryEntry.new, List.dropLast_concat]
        exact hnext
      · have ⟨hothers, hnewest⟩ := hsame hevenly.2
        refine ⟨hothers, ?_⟩
        rw [hnewest, ShellRecord.entry, hsplit]
        rfl
      · exact hshorter newest (hshort fun hrestEven ↦ hodd ⟨heven, hrestEven⟩)
    · have hbroken : trailingBackslashes (zshHeader record ++ (line ++ ['\\'])) % 2 = 0 := by
        rw [trailingBackslashes_header, trailingBackslashes_concat]
        omega
      let first : HistoryEntry := .new (line ++ ['\\']) (some record.timestamp)
      have ⟨newest, others, hnext, hshort⟩ := hfresh (first :: entries) rest
      refine ⟨newest, others ++ [first], ?_, fun hevenly ↦ absurd hevenly.1 heven, fun _ ↦
        hshorter newest hshort⟩
      rw [HistoryReader.endLine_of_even hbroken, hnext, List.append_assoc]
      rfl
  · have hend : trailingBackslashes (zshHeader record ++ record.command) % 2 = 0 := by
      rw [trailingBackslashes_header, trailingBackslashes_eq_zero hcommand.ends]
    have htext : zshText record ++ rest = (zshHeader record ++ record.command) ++ '\n' :: rest := by
      simp [zshText, zshEscape_of_line hline]
    refine ⟨record.entry, [], ?_, fun _ ↦ ⟨rfl, rfl⟩, fun hodd ↦
      absurd (continuesEvenly_of_line hline) hodd⟩
    rw [htext, HistoryReader.read_line (not_mem_append hnewline hline)
      (not_mem_append hreturn hcommand.noReturn), HistoryReader.readLine_header htime,
      HistoryReader.endLine_of_even hend]
    rfl

/-! ### The quotes of zsh -/

private theorem unmetafy_metafy {special : UInt8 → Bool} (h : special 0x83 = true)
    (bytes rest : List UInt8) :
    unmetafy (metafy special bytes ++ rest) = bytes ++ unmetafy rest := by
  induction bytes with
  | nil => rfl
  | cons byte bytes ih =>
    rw [metafy, List.flatMap_cons, ← metafy]
    by_cases hspecial : special byte = true
    · have hback : byte ^^^ 32 ^^^ 32 = byte := by
        rw [UInt8.xor_assoc, UInt8.xor_self, UInt8.xor_zero]
      rw [if_pos hspecial]
      simp [unmetafy, ih, hback]
    · have hbyte : byte ≠ 0x83 := fun heq ↦ hspecial (heq ▸ h)
      rw [if_neg hspecial, List.singleton_append, List.cons_append, unmetafy.eq_def]
      simp only [if_neg hbyte, ih, List.cons_append]

private theorem unmetafy_plain {bytes : List UInt8} (h : 0x83 ∉ bytes) (rest : List UInt8) :
    unmetafy (bytes ++ rest) = bytes ++ unmetafy rest := by
  induction bytes with
  | nil => rfl
  | cons byte bytes ih =>
    have ⟨hbyte, hbytes⟩ := not_or.mp (List.mem_cons.not.mp h)
    rw [List.cons_append, unmetafy.eq_def]
    simp only [if_neg fun heq : byte = 0x83 ↦ hbyte heq.symm, ih hbytes, List.cons_append]

private theorem meta_not_mem_zshHeader (record : ShellRecord) :
    0x83 ∉ textBytes (String.ofList (zshHeader record)) := by
  rw [textBytes_ofList]
  intro hmem
  have ⟨c, hc, hbyte⟩ := List.mem_flatMap.mp hmem
  have hascii : c.toNat < 0x80 := by
    by_contra hlarge
    refine not_mem_zshHeader ?_ ?_ record hc
    · intro hmark
      simp only [List.mem_cons, List.not_mem_nil, or_false] at hmark
      rcases hmark with rfl | rfl | rfl <;> exact hlarge (by decide)
    · cases hdigit : c.isDigit with
      | false => rfl
      | true =>
        have hle := (Char.isDigit_iff_toNat.mp hdigit).2
        have hnine : '9'.toNat = 57 := rfl
        omega
  rw [utf8EncodeChar_ascii hascii, List.mem_singleton] at hbyte
  have hnat := congrArg UInt8.toNat hbyte
  simp only [UInt8.toNat_ofNat'] at hnat
  have hmod : c.toNat % 2 ^ 8 = c.toNat := Nat.mod_eq_of_lt (by omega)
  rw [hmod] at hnat
  have hlarge : (0x83 : UInt8).toNat = 0x83 := rfl
  omega

/-- What zsh writes is read as the text of its records. -/
theorem unmetafy_zshRecords {special : UInt8 → Bool} (h : special 0x83 = true)
    (records : List ShellRecord) :
    unmetafy (records.flatMap (zshRecord special)) =
      textBytes (String.ofList (records.flatMap zshText)) := by
  have hnewline : textBytes "\n" = textBytes (String.ofList ['\n']) := rfl
  have hplain : 0x83 ∉ textBytes "\n" := by decide +kernel
  induction records with
  | nil => rfl
  | cons record records ih =>
    rw [List.flatMap_cons, List.flatMap_cons, zshRecord, List.append_assoc, List.append_assoc,
      unmetafy_plain (meta_not_mem_zshHeader record), unmetafy_metafy h, unmetafy_plain hplain, ih,
      zshText, hnewline]
    simp only [textBytes_append, List.append_assoc]

/-! ### Whole histories -/

private theorem read_fishRecords {records : List ShellRecord}
    (hrecords : ∀ record ∈ records, '\r' ∉ record.command ∧ record.timestamp < 2 ^ 64)
    (entries : List HistoryEntry) :
    HistoryReader.read "fish" ⟨entries, none, false⟩ (records.flatMap fishRecord) =
      ⟨(records.map ShellRecord.entry).reverse ++ entries, none, false⟩ := by
  induction records generalizing entries with
  | nil => rfl
  | cons record records ih =>
    have ⟨⟨hreturn, htime⟩, hrest⟩ := List.forall_mem_cons.mp hrecords
    rw [List.flatMap_cons, read_fishRecord hreturn htime, ih hrest]
    simp

/-- The records of zsh are read as their entries if all continue evenly. The last one that does not
leaves an entry that is none of the records'. -/
theorem read_zshTexts {records : List ShellRecord}
    (hrecords : ∀ record ∈ records, ZshCommand record.command ∧ record.timestamp < 2 ^ 64)
    (entries : List HistoryEntry) :
    ∃ newest, HistoryReader.read "zsh" ⟨entries, none, false⟩ (records.flatMap zshText) =
        ⟨newest ++ entries, none, false⟩ ∧
      ((∀ record ∈ records, ContinuesEvenly record.command) →
        newest = (records.map ShellRecord.entry).reverse) ∧
      ((¬∀ record ∈ records, ContinuesEvenly record.command) →
        ∀ tail, (newest ++ tail).take records.length ≠
          (records.map ShellRecord.entry).reverse) := by
  induction records generalizing entries with
  | nil => exact ⟨[], rfl, fun _ ↦ rfl, fun hnot ↦ absurd (by simp) hnot⟩
  | cons record records ih =>
    have ⟨⟨hcommand, htime⟩, hrest⟩ := List.forall_mem_cons.mp hrecords
    have ⟨last, others, hread, hsame, hother⟩ :=
      read_zshText hcommand htime entries (records.flatMap zshText)
    have ⟨newest, hnewest, heven, hodd⟩ := ih hrest (last :: (others ++ entries))
    refine ⟨newest ++ last :: others, ?_, fun hall ↦ ?_, fun hnot tail htake ↦ ?_⟩
    · rw [List.flatMap_cons, hread, hnewest]
      simp
    · have ⟨hrecord, hrecords⟩ := List.forall_mem_cons.mp hall
      have ⟨hothers, hlast⟩ := hsame hrecord
      rw [heven hrecords, hothers, hlast]
      simp
    · rw [List.append_assoc, List.length_cons] at htake
      by_cases hall : ∀ record ∈ records, ContinuesEvenly record.command
      · have hrecord : ¬ContinuesEvenly record.command := fun hrecord ↦
          hnot (List.forall_mem_cons.mpr ⟨hrecord, hall⟩)
        have hlength : records.length = (records.map ShellRecord.entry).reverse.length := by simp
        rw [heven hall, hlength, List.take_length_add_append, List.cons_append,
          List.take_succ_cons, List.take_zero, List.map_cons, List.reverse_cons] at htake
        exact hother hrecord (List.cons.inj (List.append_cancel_left htake)).1
      · refine hodd hall (last :: others ++ tail) ?_
        have hprefix := congrArg (List.take records.length) htake
        have hlength : (records.map ShellRecord.entry).reverse.length = records.length := by simp
        have hentries : ((records.map ShellRecord.entry).reverse ++ [record.entry]).take
            records.length = (records.map ShellRecord.entry).reverse := by
          rw [← hlength, List.take_left]
        rw [List.take_take, Nat.min_eq_left (Nat.le_succ _), List.map_cons, List.reverse_cons,
          hentries] at hprefix
        exact hprefix

/-- The reader of fish inverts its writer. That of zsh does so exactly for commands of which no line
but the last ends in an odd number of backslashes. -/
theorem parseHistoryBytes_inverts {records : List ShellRecord}
    (hlength : records.length ≤ maxEntries)
    (hrecords : ∀ record ∈ records, record.command ≠ [] ∧ '\r' ∉ record.command ∧
      record.timestamp < 2 ^ 64) :
    parseHistoryBytes "fish" (textBytes (String.ofList (records.flatMap fishRecord))) =
        records.map ShellRecord.entry ∧
      ∀ special : UInt8 → Bool, special 0x83 = true →
        (∀ record ∈ records, record.command.getLast? ≠ some '\\') →
        (parseHistoryBytes "zsh" (records.flatMap (zshRecord special)) =
            records.map ShellRecord.entry ↔
          ∀ record ∈ records, ContinuesEvenly record.command) := by
  have htake : ((records.map ShellRecord.entry).reverse.take maxEntries).reverse =
      records.map ShellRecord.entry := by
    rw [List.take_of_length_le (by simpa using hlength), List.reverse_reverse]
  constructor
  · have hread := read_fishRecords (fun record hmem ↦ (hrecords record hmem).2) []
    rw [parseHistoryBytes, if_pos (by decide), fromUtf8Lossy_textBytes, String.toList_ofList,
      parseHistory_eq, hread, List.append_nil, htake]
  · intro special hspecial hends
    have ⟨newest, hread, heven, hodd⟩ := read_zshTexts (fun record hmem ↦
      ⟨⟨(hrecords record hmem).2.1, hends record hmem⟩, (hrecords record hmem).2.2⟩) []
    rw [parseHistoryBytes, if_neg (by simp), unmetafy_zshRecords hspecial, fromUtf8Lossy_textBytes,
      String.toList_ofList, parseHistory_eq, hread, List.append_nil]
    constructor
    · intro hparsed
      by_contra hnot
      refine hodd hnot [] ?_
      have hsame := congrArg List.reverse hparsed
      rw [List.reverse_reverse] at hsame
      have hshorter := congrArg (List.take records.length) hsame
      rw [List.take_take, Nat.min_eq_left hlength] at hshorter
      rw [List.append_nil, hshorter, List.take_of_length_le (by simp)]
    · intro hall
      rw [heven hall, htake]

/-- A command of two lines, of which the first ends in two backslashes. -/
theorem parseHistoryBytes_inverts_sample :
    parseHistoryBytes "zsh"
        (zshRecord (fun byte ↦ byte == 0x83) ⟨['a', '\\', '\\', '\n', 'b'], 7, 0⟩) =
      [⟨['a', '\\', '\\', '\n', 'b'], none, some 7, none, 1⟩] := by
  have heven : ContinuesEvenly ['a', '\\', '\\', '\n', 'b'] := by
    have hline : '\n' ∉ ['a', '\\', '\\'] := by decide
    exact (continuesEvenly_append hline ['b']).mpr ⟨by decide, continuesEvenly_of_line (by decide)⟩
  have hread := (@parseHistoryBytes_inverts [⟨['a', '\\', '\\', '\n', 'b'], 7, 0⟩] (by decide)
    (by decide)).2 (fun byte ↦ byte == 0x83) rfl (by decide)
  simpa [ShellRecord.entry, HistoryEntry.new] using hread.mpr (by simpa using heven)

/-- A line continuation of the shell in a command is read as the end of its record. -/
theorem parseHistoryBytes_splits :
    ∃ record : ShellRecord, record.command ≠ [] ∧ '\r' ∉ record.command ∧
      record.command.getLast? ≠ some '\\' ∧
      parseHistoryBytes "zsh" (zshRecord (fun byte ↦ byte == 0x83) record) =
        [.new ['a', '\\', '\\'] (some 7), .new ['b'] none] ∧
      parseHistoryBytes "zsh" (zshRecord (fun byte ↦ byte == 0x83) record) ≠ [record.entry] :=
  ⟨⟨['a', '\\', '\n', 'b'], 7, 0⟩, by decide, by decide, by decide, by decide +kernel,
    by decide +kernel⟩

end Bootty.Host
