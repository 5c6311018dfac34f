import Bootty.Base.Text
import Mathlib.Algebra.GroupWithZero.Nat

/-!
# Ingress of terminal output

Model of `crates/bootty-terminal/src/terminal_engine/write_ingress.rs`: how the bytes of a write
are cut where a control sequence is not complete, which controls they hold, and how those of
tmux and of Kitty's graphics are rewritten.
-/

namespace Bootty.Terminal

open Bootty.Base

/-- `crates/bootty-terminal/src/clipboard_write.rs:3`. -/
def maxPacket : Nat := 8192

/-- The bytes that begin an OSC sequence. -/
def oscStart : List UInt8 := [0x1B, 0x5D]

/-- `write_ingress.rs:5–16`: the length of what is before the terminator, and the terminator's. -/
def findOscTerminator : List UInt8 → Option (Nat × Nat)
  | [] => none
  | byte :: rest =>
    if byte = 0x07 then some (0, 1)
    else if byte = 0x1B ∧ rest.head? = some 0x5C then some (0, 2)
    else (findOscTerminator rest).map fun (len, terminatorLen) ↦ (len + 1, terminatorLen)

/-- `write_ingress.rs:18–22`. -/
def splitOscPayload (payload : List UInt8) : Option (List UInt8 × List UInt8) :=
  match payload.dropWhile (· != 0x3B) with
  | [] => none
  | _ :: rest => some (payload.takeWhile (· != 0x3B), rest)

/-- `write_ingress.rs:24–36`. -/
structure TerminalWriteFeatures where
  tmuxPassthrough : Bool := false
  kittyGraphics : Bool := false
  oscSideEffect : Bool := false
  oscColor : Bool := false
  deriving DecidableEq, Repr

namespace TerminalWriteFeatures

/-- `needs_sanitizing`. -/
def needsSanitizing (features : TerminalWriteFeatures) : Bool :=
  features.tmuxPassthrough || features.kittyGraphics || features.oscSideEffect ||
    features.oscColor

/-- The features of either of two. -/
def or (features other : TerminalWriteFeatures) : TerminalWriteFeatures where
  tmuxPassthrough := features.tmuxPassthrough || other.tmuxPassthrough
  kittyGraphics := features.kittyGraphics || other.kittyGraphics
  oscSideEffect := features.oscSideEffect || other.oscSideEffect
  oscColor := features.oscColor || other.oscColor

end TerminalWriteFeatures

/-- `StreamingControlState`. -/
inductive StreamingControlState where
  | complete (len : Nat)
  | incomplete
  | unrecognized
  deriving DecidableEq, Repr

/-- What a control of tmux begins with. -/
def tmuxStart : List UInt8 := textBytes "\x1bPtmux;"

/-- What a graphics command begins with. -/
def kittyStart : List UInt8 := textBytes "\x1b_G"

/-- What a clipboard packet begins with. -/
def clipboardStart : List UInt8 := textBytes "\x1b]5522;"

/-- `write_ingress.rs:45–63`. -/
def streamingControlPrefixes : List (List UInt8) :=
  tmuxStart :: kittyStart ::
    ["\x1b]0;", "\x1b]1;", "\x1b]2;", "\x1b]7;", "\x1b]4;", "\x1b]10;", "\x1b]11;", "\x1b]9;",
      "\x1b]22;", "\x1b]52;", "\x1b]5522;", "\x1b]66;", "\x1b]133;", "\x1b]777;",
      "\x1b]1337;"].map textBytes

/-- `write_ingress.rs:65–67`. -/
def sideEffectOscPrefixes : List (List UInt8) :=
  ["1;", "9;", "22;", "52;", "5522;", "66;", "133;", "777;", "1337;"].map textBytes

/-- `write_ingress.rs:69–72`. -/
def colorOscPrefixes : List (List UInt8) :=
  ["4;", "10;", "11;", "12;", "13;", "14;", "15;", "16;", "17;", "18;", "19;", "110", "111", "112",
    "113", "114", "115", "116", "117", "118", "119"].map textBytes

/-- `write_ingress.rs:396–398`. -/
def hasOscPrefix (data : List UInt8) (prefixes : List (List UInt8)) : Bool :=
  prefixes.any fun start ↦ start.isPrefixOf data

/-- `data` is shorter than one of `prefixes` and begins it. -/
def beginsOscPrefix (data : List UInt8) (prefixes : List (List UInt8)) : Bool :=
  prefixes.any fun start ↦ decide (data.length < start.length) && data.isPrefixOf start

/-- All that an OSC sequence which is held back begins with. -/
def oscPrefixes : List (List UInt8) :=
  sideEffectOscPrefixes ++ colorOscPrefixes ++ [textBytes "7;"]

/-- `write_ingress.rs:196–214`. -/
def oscStreamingPrefixState (data : List UInt8) : StreamingControlState :=
  if hasOscPrefix data oscPrefixes then .complete 0
  else if beginsOscPrefix data oscPrefixes then .incomplete
  else .unrecognized

/-- What is after the start of a tmux passthrough up to its end, and whether an ESC in it is
escaped; `cursor` bytes are before it. -/
def findTmuxPassthroughFrom (cursor : Nat) (escaped : Bool) : List UInt8 → Option (Nat × Bool)
  | [] => none
  | [_] => none
  | byte :: next :: rest =>
    if byte = 0x1B then
      if next = 0x1B then findTmuxPassthroughFrom (cursor + 2) true rest
      else if next = 0x5C then some (cursor + 2, escaped)
      else findTmuxPassthroughFrom (cursor + 1) escaped (next :: rest)
    else findTmuxPassthroughFrom (cursor + 1) escaped (next :: rest)

/-- `write_ingress.rs:216–231`. -/
def findTmuxPassthrough (data : List UInt8) : Option (Nat × Bool) :=
  findTmuxPassthroughFrom 7 false (data.drop 7)

/-- `write_ingress.rs:155–194`. -/
def streamingControlState (data : List UInt8) : StreamingControlState :=
  if beginsOscPrefix data streamingControlPrefixes then .incomplete
  else if tmuxStart.isPrefixOf data then
    match findTmuxPassthrough data with
    | some (len, _) => .complete len
    | none => .incomplete
  else if kittyStart.isPrefixOf data then
    match findOscTerminator (data.drop 3) with
    | some (payloadLen, terminatorLen) => .complete (payloadLen + 3 + terminatorLen)
    | none => .incomplete
  else if oscStart.isPrefixOf data then
    match oscStreamingPrefixState (data.drop 2) with
    | .complete _ =>
      match findOscTerminator (data.drop 2) with
      | some (payloadLen, terminatorLen) => .complete (payloadLen + 2 + terminatorLen)
      | none => .incomplete
    | state => state
  else .unrecognized

/-- `write_ingress.rs:74–98`: how many of the bytes are not held back. -/
def completeStreamingControlPrefixLen : List UInt8 → Nat
  | [] => 0
  | byte :: rest =>
    if byte = 0x1B then
      match streamingControlState (byte :: rest) with
      | .complete len => len + completeStreamingControlPrefixLen (rest.drop (len - 1))
      | .incomplete =>
        -- The collector discards oversized clipboard packets without retaining them.
        if clipboardStart.isPrefixOf (byte :: rest) ∧ maxPacket + 7 < (byte :: rest).length then
          (byte :: rest).length
        else 0
      | .unrecognized => 1 + completeStreamingControlPrefixLen rest
    else 1 + completeStreamingControlPrefixLen rest
termination_by data => data.length
decreasing_by all_goals simp only [List.length_cons, List.length_drop]; omega

/-- The byte at the head of `data`, after an ESC, is part of a control that is tracked. -/
def isTrackedMarker : List UInt8 → Bool
  | [] => true
  | marker :: rest =>
    if marker = 0x5D then true
    else if marker = 0x5F then rest.head?.all (· == 0x47)
    else if marker = 0x50 then ((0x1B :: marker :: rest).take 7).isPrefixOf tmuxStart
    else false

/-- `write_ingress.rs:100–132`. -/
def containsTrackedStreamingControl : List UInt8 → Bool
  | [] => false
  | byte :: rest =>
    byte == 0x1B && isTrackedMarker rest || containsTrackedStreamingControl rest

/-- `write_ingress.rs:134`. -/
def cursorHome : List UInt8 := textBytes "\x1b[H"

/-- `write_ingress.rs:136–153`. -/
def repeatedCursorHomePrefixLen : List UInt8 → Nat → Option (Nat × Nat)
  | [], state => some (0, state)
  | byte :: rest, state =>
    if some byte ≠ cursorHome[state]? then none
    else if state + 1 = cursorHome.length then
      (repeatedCursorHomePrefixLen rest 0).map fun (complete, state) ↦ (complete + 1, state)
    else repeatedCursorHomePrefixLen rest (state + 1)

/-- The features of the control whose ESC is before `data`. -/
def controlFeatures (data : List UInt8) : TerminalWriteFeatures :=
  match data with
  | [] => {}
  | kind :: rest =>
    if kind = 0x50 then { tmuxPassthrough := rest.take 5 == textBytes "tmux;" }
    else if kind = 0x5F then { kittyGraphics := rest.head? == some 0x47 }
    else if kind = 0x5D then
      if hasOscPrefix rest colorOscPrefixes then { oscColor := true }
      else { oscSideEffect := hasOscPrefix rest sideEffectOscPrefixes }
    else {}

/-- `write_ingress.rs:233–264`. -/
def terminalWriteFeatures : List UInt8 → TerminalWriteFeatures
  | [] => {}
  | byte :: rest =>
    if byte = 0x1B then (controlFeatures rest).or (terminalWriteFeatures rest)
    else terminalWriteFeatures rest

/-- A payload of a tmux passthrough without its escapes. -/
def unescapeTmux : List UInt8 → List UInt8
  | 0x1B :: 0x1B :: rest => 0x1B :: unescapeTmux rest
  | byte :: rest => byte :: unescapeTmux rest
  | [] => []

/-- `write_ingress.rs:266–310`. -/
def unwrapTmuxPassthroughCommands : List UInt8 → List UInt8
  | [] => []
  | byte :: rest =>
    if tmuxStart.isPrefixOf (byte :: rest) then
      match findTmuxPassthrough (byte :: rest) with
      | none => byte :: rest
      | some (controlLen, escaped) =>
        let payload := ((byte :: rest).take (controlLen - 2)).drop tmuxStart.length
        (if escaped then unescapeTmux payload else payload) ++
          unwrapTmuxPassthroughCommands (rest.drop (controlLen - 1))
    else byte :: unwrapTmuxPassthroughCommands rest
termination_by data => data.length
decreasing_by all_goals simp only [List.length_cons, List.length_drop]; omega

/-- `write_ingress.rs:390–394`. -/
def validKittyGraphicsField (field : List UInt8) : Bool :=
  match field.dropWhile (· != 0x3D) with
  | [] => true
  | _ :: value => (field.takeWhile (· != 0x3D)).length == 1 && value.length ≤ 11

/-- `write_ingress.rs:368–388`. -/
def sanitizeKittyGraphicsControl (control : List UInt8) : Option (List UInt8) :=
  let fields := control.splitOn 0x2C
  if fields.all validKittyGraphicsField then none
  else some ([0x2C].intercalate (fields.filter validKittyGraphicsField))

/-- `write_ingress.rs:317–366`. -/
def sanitizeKittyGraphicsCommands : List UInt8 → List UInt8
  | [] => []
  | byte :: rest =>
    if kittyStart.isPrefixOf (byte :: rest) then
      match findOscTerminator ((byte :: rest).drop 3) with
      | none => byte :: rest
      | some (payloadLen, terminatorLen) =>
        let payload := ((byte :: rest).drop 3).take payloadLen
        let control := payload.takeWhile (· != 0x3B)
        let sanitized := (sanitizeKittyGraphicsControl control).getD control
        kittyStart ++ sanitized ++ payload.drop control.length ++
          ((byte :: rest).drop (3 + payloadLen)).take terminatorLen ++
            sanitizeKittyGraphicsCommands (rest.drop (2 + payloadLen + terminatorLen))
    else byte :: sanitizeKittyGraphicsCommands rest
termination_by data => data.length
decreasing_by all_goals simp only [List.length_cons, List.length_drop]; omega

/-! ### Payloads -/

variable {payload rest : List UInt8}

/-- What a payload is split into. -/
theorem splitOscPayload_eq_some {command : List UInt8}
    (h : splitOscPayload payload = some (command, rest)) : payload = command ++ 0x3B :: rest := by
  unfold splitOscPayload at h
  split at h
  · cases h
  next first rest' htail =>
    have hfirst : first = 0x3B := by
      have hhead := List.head?_dropWhile_not (· != 0x3B) payload
      rw [htail] at hhead
      simpa using hhead
    rw [hfirst] at htail
    cases h
    rw [← htail]
    exact List.takeWhile_append_dropWhile.symm

variable {data : List UInt8} {prefixes : List (List UInt8)}

/-- A payload with one of the starts. -/
theorem hasOscPrefix_of_mem {start : List UInt8} (hmem : start ∈ prefixes) (h : start <+: data) :
    hasOscPrefix data prefixes = true := by
  unfold hasOscPrefix
  rw [List.any_eq_true]
  exact ⟨start, hmem, List.isPrefixOf_iff_prefix.mpr h⟩

/-- Bytes of which none ends an OSC sequence. -/
def Plain (bytes : List UInt8) : Prop := ∀ byte ∈ bytes, byte ≠ 0x1B ∧ byte ≠ 0x07

/-- Whether bytes are plain is decidable. -/
instance (bytes : List UInt8) : Decidable (Plain bytes) :=
  List.decidableBAll (fun byte ↦ byte ≠ 0x1B ∧ byte ≠ 0x07) bytes

variable {bytes more : List UInt8}

theorem Plain.append (h : Plain bytes) (hmore : Plain more) :
    Plain (bytes ++ more) := by
  intro byte hmem
  cases List.mem_append.mp hmem with
  | inl hmem => exact h byte hmem
  | inr hmem => exact hmore byte hmem

theorem Plain.of_append_left (h : Plain (bytes ++ more)) : Plain bytes :=
  fun byte hmem ↦ h byte (List.mem_append_left more hmem)

theorem Plain.of_append_right (h : Plain (bytes ++ more)) : Plain more :=
  fun byte hmem ↦ h byte (List.mem_append_right bytes hmem)

/-! ### Terminators -/

variable {byte : UInt8}

private theorem findOscTerminator_cons_of_plain (h : byte ≠ 0x1B ∧ byte ≠ 0x07) (rest : List UInt8)
    : findOscTerminator (byte :: rest) =
      (findOscTerminator rest).map fun (len, terminatorLen) ↦ (len + 1, terminatorLen) := by
  simp [findOscTerminator, h]

/-- Plain bytes are before the terminator. -/
theorem findOscTerminator_append (h : Plain payload) (rest : List UInt8) :
    findOscTerminator (payload ++ rest) =
      (findOscTerminator rest).map fun (len, terminatorLen) ↦
        (payload.length + len, terminatorLen) := by
  induction payload with
  | nil => simp
  | cons byte payload ih =>
    rw [List.cons_append, findOscTerminator_cons_of_plain (h byte List.mem_cons_self),
      ih fun byte hmem ↦ h byte (List.mem_cons_of_mem _ hmem), Option.map_map]
    congr 1
    funext ⟨len, terminatorLen⟩
    simp only [Function.comp_apply, List.length_cons, Prod.mk.injEq, and_true]
    omega

/-- Plain bytes end no command. -/
theorem findOscTerminator_of_plain (h : Plain payload) :
    findOscTerminator payload = none := by
  have happend := findOscTerminator_append h []
  simpa [findOscTerminator] using happend

theorem findOscTerminator_append_esc (h : Plain payload) :
    findOscTerminator (payload ++ [0x1B]) = none := by
  rw [findOscTerminator_append h]
  rfl

/-! ### Prefixes -/

/-- A start lies before a byte it lacks. -/
theorem prefix_of_prefix_append {start : List UInt8} (hstart : byte ∉ start)
    (h : start <+: data ++ byte :: rest) : start <+: data := by
  by_cases hlen : start.length ≤ data.length
  · exact List.prefix_of_prefix_length_le h (List.prefix_append data (byte :: rest)) hlen
  · have hwhole : data ++ [byte] <+: data ++ byte :: rest := ⟨rest, by simp⟩
    have hdata : data ++ [byte] <+: start := by
      apply List.prefix_of_prefix_length_le hwhole h
      simp only [List.length_append, List.length_singleton]
      omega
    exact absurd (hdata.subset (by simp)) hstart

/-- When a payload has a start. -/
theorem hasOscPrefix_eq_true :
    hasOscPrefix data prefixes = true ↔ ∃ start ∈ prefixes, start <+: data := by
  simp [hasOscPrefix]

/-- What ends an OSC sequence and what is after it are in no prefix. -/
theorem hasOscPrefix_append (hprefixes : ∀ start ∈ prefixes, byte ∉ start) (rest : List UInt8) :
    hasOscPrefix (data ++ byte :: rest) prefixes = hasOscPrefix data prefixes := by
  rw [Bool.eq_iff_iff, hasOscPrefix_eq_true, hasOscPrefix_eq_true]
  constructor
  · intro ⟨start, hmem, h⟩
    exact ⟨start, hmem, prefix_of_prefix_append (hprefixes start hmem) h⟩
  · intro ⟨start, hmem, h⟩
    exact ⟨start, hmem, h.trans (List.prefix_append data _)⟩

private theorem prefixes_table :
    (∀ start ∈ oscPrefixes, Plain start) ∧
    (∀ start ∈ streamingControlPrefixes, start.head? = some 0x1B ∧ Plain start.tail ∧
      (start.tail.head? = some 0x50 ∨ start.tail.head? = some 0x5F ∨
        start.tail.head? = some 0x5D)) ∧
    (∀ start ∈ streamingControlPrefixes, (start.tail.head? = some 0x5F → start.length = 3) ∧
      (start.tail.head? = some 0x50 → start = tmuxStart)) ∧
    (∀ color ∈ colorOscPrefixes, ∀ start ∈ sideEffectOscPrefixes,
      ¬ color <+: start ∧ ¬ start <+: color) ∧
    streamingControlState [0x1B] = .incomplete ∧ tmuxStart = 0x1B :: 0x50 :: textBytes "tmux;" := by
  decide +kernel

/-- All prefixes are of plain bytes. -/
theorem plain_of_mem_oscPrefixes : ∀ start ∈ oscPrefixes, Plain start := prefixes_table.1

private theorem streamingControlPrefixes_shape : ∀ start ∈ streamingControlPrefixes,
    start.head? = some 0x1B ∧ Plain start.tail ∧
      (start.tail.head? = some 0x50 ∨ start.tail.head? = some 0x5F ∨
        start.tail.head? = some 0x5D) :=
  prefixes_table.2.1

/-! ### States of controls -/

/-- When it may still get one. -/
theorem beginsOscPrefix_eq_true :
    beginsOscPrefix data prefixes = true ↔
      ∃ start ∈ prefixes, data.length < start.length ∧ data <+: start := by
  simp [beginsOscPrefix]

variable {kind : UInt8}

/-- A control is one of four kinds by the byte after its ESC. -/
theorem streamingControlState_of_ne (hosc : kind ≠ 0x5D) (htmux : kind ≠ 0x50)
    (hkitty : kind ≠ 0x5F) (rest : List UInt8) :
    streamingControlState (0x1B :: kind :: rest) = .unrecognized := by
  have hbegins : beginsOscPrefix (0x1B :: kind :: rest) streamingControlPrefixes = false := by
    rw [← Bool.not_eq_true, beginsOscPrefix_eq_true]
    rintro ⟨start, hmem, -, tail, rfl⟩
    have hkinds := (streamingControlPrefixes_shape _ hmem).2.2
    simp [htmux, hkitty, hosc] at hkinds
  have hnot (first : UInt8) (more : List UInt8) (hne : kind ≠ first) :
      (0x1B :: first :: more).isPrefixOf (0x1B :: kind :: rest) = false := by
    simp [List.isPrefixOf, Ne.symm hne]
  have htmux' : tmuxStart.isPrefixOf (0x1B :: kind :: rest) = false := hnot 0x50 _ htmux
  have hkitty' : kittyStart.isPrefixOf (0x1B :: kind :: rest) = false := hnot 0x5F _ hkitty
  have hosc' : oscStart.isPrefixOf (0x1B :: kind :: rest) = false := hnot 0x5D _ hosc
  simp [streamingControlState, hbegins, htmux', hkitty', hosc']

/-- The state of an OSC sequence after the check of what it may begin. -/
theorem streamingControlState_osc (data : List UInt8) :
    streamingControlState (0x1B :: 0x5D :: data) =
      if beginsOscPrefix (0x1B :: 0x5D :: data) streamingControlPrefixes then .incomplete
      else
        match oscStreamingPrefixState data with
        | .complete _ =>
          match findOscTerminator data with
          | some (payloadLen, terminatorLen) => .complete (payloadLen + 2 + terminatorLen)
          | none => .incomplete
        | state => state := rfl

/-- Bytes that are in no prefix are after all that is checked. -/
theorem oscStreamingPrefixState_append (payload : List UInt8) (hbyte : byte = 0x1B ∨ byte = 0x07)
    (rest : List UInt8) :
    beginsOscPrefix (0x1B :: 0x5D :: (payload ++ byte :: rest)) streamingControlPrefixes = false ∧
      oscStreamingPrefixState (payload ++ byte :: rest) =
        if hasOscPrefix payload oscPrefixes then .complete 0 else .unrecognized := by
  have hplain {start : List UInt8} (h : Plain start) : byte ∉ start := by
    intro hmem
    have hne := h byte hmem
    cases hbyte with
    | inl hbyte => exact hne.1 hbyte
    | inr hbyte => exact hne.2 hbyte
  have hmemRest : byte ∈ payload ++ byte :: rest := by simp
  constructor
  · rw [← Bool.not_eq_true, beginsOscPrefix_eq_true]
    rintro ⟨start, hmem, -, tail, rfl⟩
    apply hplain (streamingControlPrefixes_shape _ hmem).2.1
    simp
  · have hbegins : beginsOscPrefix (payload ++ byte :: rest) oscPrefixes = false := by
      rw [← Bool.not_eq_true, beginsOscPrefix_eq_true]
      rintro ⟨start, hmem, -, hstart⟩
      exact hplain (plain_of_mem_oscPrefixes start hmem) (hstart.subset hmemRest)
    unfold oscStreamingPrefixState
    rw [hasOscPrefix_append (fun start hmem ↦ hplain (plain_of_mem_oscPrefixes start hmem)), hbegins]
    simp

/-- An OSC sequence that is not recognized stays so whatever follows. -/
theorem not_hasOscPrefix_of_unrecognized
    (h : streamingControlState (0x1B :: 0x5D :: data) = .unrecognized) (more : List UInt8) :
    hasOscPrefix (data ++ more) oscPrefixes = false := by
  have hstate : oscStreamingPrefixState data = .unrecognized := by
    rw [streamingControlState_osc] at h
    split at h
    · cases h
    · split at h
      · split at h <;> cases h
      · exact h
  unfold oscStreamingPrefixState at hstate
  split at hstate
  · cases hstate
  next hnot =>
    split at hstate
    · cases hstate
    next hbegins =>
      rw [← Bool.not_eq_true, hasOscPrefix_eq_true]
      intro ⟨start, hmem, hstart⟩
      by_cases hlen : start.length ≤ data.length
      · exact hnot (hasOscPrefix_of_mem hmem
          (List.prefix_of_prefix_length_le hstart (List.prefix_append data more) hlen))
      · apply hbegins
        rw [beginsOscPrefix_eq_true]
        have hlt : data.length < start.length := by omega
        exact ⟨start, hmem, hlt,
          List.prefix_of_prefix_length_le (List.prefix_append data more) hstart (Nat.le_of_lt hlt)⟩

/-! ### Bytes that are not held back -/

@[simp]
theorem completeStreamingControlPrefixLen_nil : completeStreamingControlPrefixLen [] = 0 := by
  rw [completeStreamingControlPrefixLen]

/-- A byte that begins nothing is complete. -/
theorem completeStreamingControlPrefixLen_cons (h : byte ≠ 0x1B) (rest : List UInt8) :
    completeStreamingControlPrefixLen (byte :: rest) =
      1 + completeStreamingControlPrefixLen rest := by
  rw [completeStreamingControlPrefixLen, if_neg h]

/-- A control that is not recognized is complete. -/
theorem completeStreamingControlPrefixLen_of_unrecognized
    (h : streamingControlState (0x1B :: rest) = .unrecognized) :
    completeStreamingControlPrefixLen (0x1B :: rest) =
      1 + completeStreamingControlPrefixLen rest := by
  rw [completeStreamingControlPrefixLen, if_pos rfl, h]

/-- What is held back of a control. -/
theorem completeStreamingControlPrefixLen_of_incomplete
    (h : streamingControlState (0x1B :: rest) = .incomplete) :
    completeStreamingControlPrefixLen (0x1B :: rest) =
      if clipboardStart.isPrefixOf (0x1B :: rest) ∧ maxPacket + 7 < (0x1B :: rest).length then
        (0x1B :: rest).length
      else 0 := by
  rw [completeStreamingControlPrefixLen, if_pos rfl, h]

theorem completeStreamingControlPrefixLen_esc : completeStreamingControlPrefixLen [0x1B] = 0 := by
  rw [completeStreamingControlPrefixLen_of_incomplete prefixes_table.2.2.2.2.1]
  simp [maxPacket]

/-- Bytes without a control are complete. -/
theorem completeStreamingControlPrefixLen_append {bytes : List UInt8}
    (h : ∀ byte ∈ bytes, byte ≠ 0x1B) (rest : List UInt8) :
    completeStreamingControlPrefixLen (bytes ++ rest) =
      bytes.length + completeStreamingControlPrefixLen rest := by
  induction bytes with
  | nil => simp
  | cons byte bytes ih =>
    rw [List.cons_append, completeStreamingControlPrefixLen_cons (h byte List.mem_cons_self),
      ih fun byte hmem ↦ h byte (List.mem_cons_of_mem _ hmem), List.length_cons]
    omega

theorem completeStreamingControlPrefixLen_escape (hosc : kind ≠ 0x5D) (htmux : kind ≠ 0x50)
    (hkitty : kind ≠ 0x5F) (hesc : kind ≠ 0x1B) (rest : List UInt8) :
    completeStreamingControlPrefixLen (0x1B :: kind :: rest) =
      2 + completeStreamingControlPrefixLen rest := by
  rw [completeStreamingControlPrefixLen_of_unrecognized
    (streamingControlState_of_ne hosc htmux hkitty rest), completeStreamingControlPrefixLen_cons hesc]
  omega

/-! ### Features -/

@[simp]
theorem TerminalWriteFeatures.default_or (features : TerminalWriteFeatures) :
    ({} : TerminalWriteFeatures).or features = features := rfl

/-- Bytes without a control need no rewriting. -/
theorem terminalWriteFeatures_append (h : ∀ byte ∈ bytes, byte ≠ 0x1B) (rest : List UInt8) :
    terminalWriteFeatures (bytes ++ rest) = terminalWriteFeatures rest := by
  induction bytes with
  | nil => rfl
  | cons byte bytes ih =>
    rw [List.cons_append, terminalWriteFeatures, if_neg (h byte List.mem_cons_self)]
    exact ih fun byte hmem ↦ h byte (List.mem_cons_of_mem _ hmem)

theorem terminalWriteFeatures_escape (hosc : kind ≠ 0x5D) (htmux : kind ≠ 0x50)
    (hkitty : kind ≠ 0x5F) (hesc : kind ≠ 0x1B) (rest : List UInt8) :
    terminalWriteFeatures (0x1B :: kind :: rest) = terminalWriteFeatures rest := by
  simp [terminalWriteFeatures, controlFeatures, hosc, htmux, hkitty, hesc]

private theorem controlFeatures_osc (payload : List UInt8) :
    controlFeatures (0x5D :: payload) =
      if hasOscPrefix payload colorOscPrefixes then { oscColor := true }
      else { oscSideEffect := hasOscPrefix payload sideEffectOscPrefixes } := rfl

/-- The features of an OSC sequence are those of its payload. -/
theorem controlFeatures_append (payload : List UInt8) (hbyte : byte = 0x1B ∨ byte = 0x07)
    (rest : List UInt8) :
    controlFeatures (0x5D :: (payload ++ byte :: rest)) = controlFeatures (0x5D :: payload) := by
  have hcolor : ∀ start ∈ colorOscPrefixes, start ∈ oscPrefixes := by simp_all [oscPrefixes]
  have hside : ∀ start ∈ sideEffectOscPrefixes, start ∈ oscPrefixes := by simp_all [oscPrefixes]
  have hnot {start : List UInt8} (h : start ∈ oscPrefixes) : byte ∉ start := by
    intro hmem
    have hplain := plain_of_mem_oscPrefixes start h byte hmem
    exact hbyte.elim hplain.1 hplain.2
  rw [controlFeatures_osc, controlFeatures_osc,
    hasOscPrefix_append fun start hmem ↦ hnot (hcolor start hmem),
    hasOscPrefix_append fun start hmem ↦ hnot (hside start hmem)]

/-- An OSC sequence with side effects is one that sets no colour. -/
theorem controlFeatures_sideEffect (payload : List UInt8) :
    (controlFeatures (0x5D :: payload)).oscSideEffect =
      hasOscPrefix payload sideEffectOscPrefixes := by
  have hdisjoint := prefixes_table.2.2.2.1
  rw [controlFeatures_osc]
  by_cases hcolor : hasOscPrefix payload colorOscPrefixes = true
  · have hside : hasOscPrefix payload sideEffectOscPrefixes = false := by
      rw [← Bool.not_eq_true, hasOscPrefix_eq_true]
      intro ⟨start, hstart, hsidePrefix⟩
      have ⟨color, hmem, hcolorPrefix⟩ := hasOscPrefix_eq_true.mp hcolor
      have hne := hdisjoint color hmem start hstart
      cases List.prefix_or_prefix_of_prefix hcolorPrefix hsidePrefix with
      | inl h => exact hne.1 h
      | inr h => exact hne.2 h
    simp [hcolor, hside]
  · simp [hcolor]

theorem controlFeatures_osc_untouched (payload : List UInt8) :
    (controlFeatures (0x5D :: payload)).tmuxPassthrough = false ∧
      (controlFeatures (0x5D :: payload)).kittyGraphics = false := by
  rw [controlFeatures_osc]
  split <;> exact ⟨rfl, rfl⟩

/-! ### Bytes without a tracked control -/

private theorem streamingControlState_of_not_kitty {next : UInt8} (h : next ≠ 0x47)
    (rest : List UInt8) :
    streamingControlState (0x1B :: 0x5F :: next :: rest) = .unrecognized := by
  have honly : ∀ start ∈ streamingControlPrefixes, start.tail.head? = some 0x5F →
      start.length = 3 := fun start hmem ↦ (prefixes_table.2.2.1 start hmem).1
  have hbegins :
      beginsOscPrefix (0x1B :: 0x5F :: next :: rest) streamingControlPrefixes = false := by
    rw [← Bool.not_eq_true, beginsOscPrefix_eq_true]
    rintro ⟨start, hmem, hlen, tail, rfl⟩
    rw [honly _ hmem rfl] at hlen
    simp only [List.length_cons] at hlen
    omega
  have htmux : tmuxStart.isPrefixOf (0x1B :: 0x5F :: next :: rest) = false := rfl
  have hkitty : kittyStart.isPrefixOf (0x1B :: 0x5F :: next :: rest) = false := by
    show (0x1B == 0x1B && (0x5F == 0x5F && ((0x47 : UInt8) == next && true))) = false
    simp [Ne.symm h]
  have hosc : oscStart.isPrefixOf (0x1B :: 0x5F :: next :: rest) = false := rfl
  simp [streamingControlState, hbegins, htmux, hkitty, hosc]

private theorem streamingControlState_of_not_tmux
    (h : ¬ (0x1B :: 0x50 :: rest).take 7 <+: tmuxStart) :
    streamingControlState (0x1B :: 0x50 :: rest) = .unrecognized := by
  have honly : ∀ start ∈ streamingControlPrefixes, start.tail.head? = some 0x50 →
      start = tmuxStart := fun start hmem ↦ (prefixes_table.2.2.1 start hmem).2
  have hbegins : beginsOscPrefix (0x1B :: 0x50 :: rest) streamingControlPrefixes = false := by
    rw [← Bool.not_eq_true, beginsOscPrefix_eq_true]
    rintro ⟨start, hmem, -, tail, hstart⟩
    subst hstart
    apply h
    rw [← honly _ hmem rfl]
    exact (List.take_prefix 7 _).trans (List.prefix_append _ tail)
  have htmux : tmuxStart.isPrefixOf (0x1B :: 0x50 :: rest) = false := by
    rw [← Bool.not_eq_true, List.isPrefixOf_iff_prefix]
    intro hstart
    have htake : tmuxStart = (0x1B :: 0x50 :: rest).take 7 := List.prefix_iff_eq_take.mp hstart
    exact h ⟨[], by rw [List.append_nil, ← htake]⟩
  have hkitty : kittyStart.isPrefixOf (0x1B :: 0x50 :: rest) = false := rfl
  have hosc : oscStart.isPrefixOf (0x1B :: 0x50 :: rest) = false := rfl
  simp [streamingControlState, hbegins, htmux, hkitty, hosc]

private theorem streamingControlState_of_not_tracked (h : isTrackedMarker rest = false) :
    streamingControlState (0x1B :: rest) = .unrecognized ∧ controlFeatures rest = {} := by
  cases rest with
  | nil => cases h
  | cons kind rest =>
    by_cases hosc : kind = 0x5D
    · simp [isTrackedMarker, hosc] at h
    by_cases hkitty : kind = 0x5F
    · subst hkitty
      cases rest with
      | nil => cases h
      | cons next rest =>
        have hnext : next ≠ 0x47 := by simpa [isTrackedMarker] using h
        constructor
        · exact streamingControlState_of_not_kitty hnext rest
        · simp [controlFeatures, hnext]
    by_cases htmux : kind = 0x50
    · subst htmux
      have hstart : ¬ (0x1B :: 0x50 :: rest).take 7 <+: tmuxStart := by
        rw [← List.isPrefixOf_iff_prefix, Bool.not_eq_true]
        exact h
      constructor
      · exact streamingControlState_of_not_tmux hstart
      · have hrest : rest.take 5 ≠ textBytes "tmux;" := by
          intro hrest
          have htake : (0x1B :: 0x50 :: rest).take 7 = tmuxStart := by
            rw [prefixes_table.2.2.2.2.2, ← hrest]
            rfl
          exact hstart (htake ▸ List.prefix_refl _)
        simp [controlFeatures, hrest]
    constructor
    · exact streamingControlState_of_ne hosc htmux hkitty rest
    · simp [controlFeatures, hosc, hkitty, htmux]

/-- A write without a tracked control is not held back and has no features. -/
theorem complete_of_not_containsTracked (h : containsTrackedStreamingControl data = false) :
    completeStreamingControlPrefixLen data = data.length ∧ terminalWriteFeatures data = {} := by
  induction data with
  | nil => simp [terminalWriteFeatures]
  | cons byte rest ih =>
    simp only [containsTrackedStreamingControl, Bool.or_eq_false_iff] at h
    have ⟨hlen, hfeatures⟩ := ih h.2
    by_cases hbyte : byte = 0x1B
    · subst hbyte
      have hmarker : isTrackedMarker rest = false := by simpa using h.1
      have ⟨hstate, hcontrol⟩ := streamingControlState_of_not_tracked hmarker
      rw [completeStreamingControlPrefixLen_of_unrecognized hstate, hlen, terminalWriteFeatures,
        if_pos rfl, hcontrol, hfeatures]
      simp only [List.length_cons, TerminalWriteFeatures.default_or, and_true]
      omega
    · rw [completeStreamingControlPrefixLen_cons hbyte, hlen, terminalWriteFeatures, if_neg hbyte]
      simp only [List.length_cons, hfeatures, and_true]
      omega

end Bootty.Terminal
