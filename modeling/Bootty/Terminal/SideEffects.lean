import Bootty.Base.Base64
import Bootty.Terminal.ShellPrompt
import Bootty.Terminal.WriteIngress

/-!
# Side effects of OSC sequences

Model of what `TerminalSideEffectCollector` does with the payload of an OSC sequence and with the
text between them (`crates/bootty-terminal/src/terminal_side_effect.rs:235–536`), with the
parsers it calls (`shell_lifecycle.rs:12–30`, `shell_prompt.rs:15–57`). The two base64 engines
it decodes with are parameters.
-/

namespace Bootty.Terminal

open Bootty.Base

/-- Effects that the collector pushes; those of Ghostty's callbacks are not among them. -/
inductive TerminalSideEffect where
  | clipboardWrite (text : String)
  | clipboardPacket (bytes : List UInt8)
  | clipboardQuery (selection : String)
  | windowTitle (title : String)
  | windowIcon (icon : String)
  | desktopNotification (title body : String)
  | mouseShape (shape : String)
  | semanticPrompt (mark : String)
  | shellLifecycle (event : ShellEvent)
  | shellPrompt (report : PromptReport)
  | kittyTextSizing (text : String)
  | conEmuControl (data : String)
  | conEmuProgress (state : String) (value : Option Nat)
  | iterm2UserVarPorts (ports : List Nat)
  | iterm2Control (data : String)
  | iterm2File (data : String)
  | openUrl (url : String)
  | focusWindow
  | reportCellSize
  | reportVariable (name : String)
  | unsupportedHostCommand (protocol command : String)

/-- The decoders `STANDARD` and `STANDARD_NO_PAD`. -/
structure Base64Decoders where
  standard : List UInt8 → Option (List UInt8)
  standardNoPad : List UInt8 → Option (List UInt8)

/-- `terminal_side_effect.rs:449–455`. -/
def Base64Decoders.decode (base64 : Base64Decoders) (value : List UInt8) : Option (List UInt8) :=
  (base64.standard value).or (base64.standardNoPad value)

/-- Without padding, which the last symbols of the standard encoding are short of. -/
def decodeNoPad (encoded : List UInt8) : Option (List UInt8) :=
  if Base64.padding ∈ encoded then none
  else
    Base64.decodeStandard (encoded ++ List.replicate ((4 - encoded.length % 4) % 4) Base64.padding)

/-- The decoders of the standard alphabet. -/
def Base64Decoders.engines : Base64Decoders := ⟨Base64.decodeStandard, decodeNoPad⟩

/-! ### Parsers -/

/-- `shell_lifecycle.rs:14–29`. -/
def ShellEvent.parseOsc133 (value : String) : Option ShellEvent :=
  match splitText ';' value with
  | "A" :: _ => some .promptStart
  | "B" :: _ => some .promptEnd
  | "C" :: _ => some .commandStart
  | "D" :: fields =>
    match fields with
    | [] | "" :: _ => some (.commandFinish none)
    | code :: _ => (parseI32 code).map fun code ↦ .commandFinish (some code)
  | _ => none

/-- Neither NUL nor ESC is in a text. -/
def plainText (text : String) : Bool := text.toList.all fun c ↦ c.toNat != 0 && c.toNat != 0x1B

/-- `shell_prompt.rs:16–56`. -/
def PromptReport.parse (base64 : Base64Decoders) (value : String) : Option PromptReport :=
  match splitText ';' value with
  | "P" :: shell :: path :: fields =>
    if ¬ (shell = "bash" ∨ shell = "zsh" ∨ shell = "fish") ∨ 8192 < path.utf8ByteSize then none
    else do
      let historyFile ← (base64.standard (textBytes path)).bind fromUtf8
      if ¬ plainText historyFile then none
      else
        let editable ← fields.head?
        some (.ready shell historyFile (editable == "1"))
  | "E" :: encoded :: _ =>
    if 24 * 1024 < encoded.utf8ByteSize then none
    else do
      let command ← (base64.standard (textBytes encoded)).bind fromUtf8
      if command.isEmpty || command.toList.head?.any isWhitespace || !plainText command then none
      else some (.command command)
  | _ => none

/-- `terminal_side_effect.rs:457–471`. -/
def iterm2UserVarPorts (base64 : Base64Decoders) (value : String) : Option (List Nat) := do
  let (name, encoded) ← splitOnce '=' value
  if name ≠ "bootty_ports" then none
  else
    let csv ← (base64.decode (textBytes encoded)).bind fromUtf8
    if csv.isEmpty then some []
    else (splitText ',' csv).mapM fun port ↦ parseUnsigned (2 ^ 16 - 1) (trim port)

/-- `terminal_side_effect.rs:473–476`. -/
def isConemuOsc9 (data : String) : Bool :=
  match splitText ';' data with
  | kind :: _ => !kind.isEmpty && kind.toList.all Char.isDigit
  | [] => false

/-- `terminal_side_effect.rs:478–487`. -/
def conemuProgressState (state : String) : String :=
  match state with
  | "0" | "" => "inactive"
  | "1" => "normal"
  | "2" => "error"
  | "3" => "indeterminate"
  | "4" => "warning"
  | _ => "unknown"

/-- `terminal_side_effect.rs:489–496`. -/
def itermCursorShapeSequence (shape : String) : Option (List UInt8) :=
  match shape with
  | "0" => some [0x1B, 0x5B, 0x32, 0x20, 0x71]
  | "1" => some [0x1B, 0x5B, 0x36, 0x20, 0x71]
  | "2" => some [0x1B, 0x5B, 0x34, 0x20, 0x71]
  | _ => none

/-- `terminal_side_effect.rs:435–447`. -/
def osc52SideEffect (base64 : Base64Decoders) (payload : List UInt8) : Option TerminalSideEffect :=
  match payload.dropWhile (· != 0x3B) with
  | [] => none
  | _ :: encoded =>
    if encoded = [0x3F] then
      some (.clipboardQuery (fromUtf8Lossy (payload.takeWhile (· != 0x3B))))
    else ((base64.decode encoded).bind fromUtf8).map .clipboardWrite

/-! ### Copied text -/

/-- Where the capture is in an escape sequence. -/
inductive ItermCopyEscape where
  | none
  | escape
  | intermediate
  | csi
  | string
  | stringEscape
  deriving DecidableEq, Repr

/-- Text that is being copied to the clipboard, `terminal_side_effect.rs:118–133`. -/
structure ItermCopyCapture where
  text : List UInt8
  escape : ItermCopyEscape

namespace ItermCopyCapture

/-- An empty capture. -/
def new : ItermCopyCapture := ⟨[], .none⟩

/-- The state of the escape after a byte, and what the byte adds to the text. -/
def next (state : ItermCopyEscape) (byte : UInt8) : ItermCopyEscape × List UInt8 :=
  match state with
  | .none =>
    if byte = 0x1B then (.escape, [])
    else if byte = 0x0D then (.none, [0x0A])
    else if 0x20 ≤ byte ∨ byte = 0x0A ∨ byte = 0x09 then (.none, [byte])
    else (.none, [])
  | .escape =>
    if byte = 0x5B then (.csi, [])
    else if byte = 0x5D ∨ byte = 0x50 ∨ byte = 0x5F ∨ byte = 0x5E then (.string, [])
    else if 0x20 ≤ byte ∧ byte ≤ 0x2F then (.intermediate, [])
    else (.none, [])
  | .intermediate => if 0x20 ≤ byte ∧ byte ≤ 0x2F then (.intermediate, []) else (.none, [])
  | .csi => if 0x40 ≤ byte ∧ byte ≤ 0x7E then (.none, []) else (.csi, [])
  | .string =>
    if byte = 0x07 then (.none, []) else if byte = 0x1B then (.stringEscape, []) else (.string, [])
  | .stringEscape =>
    if byte = 0x5C ∨ byte = 0x07 then (.none, [])
    else if byte = 0x1B then (.stringEscape, [])
    else (.string, [])

/-- `terminal_side_effect.rs:499–536`. -/
def appendPlainText (capture : ItermCopyCapture) (data : List UInt8) : ItermCopyCapture :=
  data.foldl (fun capture byte ↦
    let (state, added) := next capture.escape byte
    ⟨capture.text ++ added, state⟩) capture

end ItermCopyCapture

/-! ### What sequences do -/

/-- The effects pushed, the host actions returned and the text being copied. -/
structure SideEffects where
  effects : List TerminalSideEffect
  actions : List (List UInt8)
  itermCopyCapture : Option ItermCopyCapture

namespace SideEffects

/-- No effects. -/
def new : SideEffects := ⟨[], [], none⟩

/-- One more effect. -/
def push (s : SideEffects) (effect : TerminalSideEffect) : SideEffects :=
  { s with effects := s.effects ++ [effect] }

/-- `effects.extend`. -/
def extend (s : SideEffects) (effect : Option TerminalSideEffect) : SideEffects :=
  { s with effects := s.effects ++ effect.toList }

/-- A host action that writes to the terminal. -/
def writeVt (s : SideEffects) (bytes : List UInt8) : SideEffects :=
  { s with actions := s.actions ++ [bytes] }

/-- An effect whose payload is a text. -/
def pushUtf8Effect (s : SideEffects) (payload : List UInt8)
    (effect : String → TerminalSideEffect) : SideEffects :=
  s.extend ((fromUtf8 payload).map effect)

/-- `push_iterm2_control`. -/
def pushIterm2Control (s : SideEffects) (data : String) : SideEffects := s.push (.iterm2Control data)

/-- Text for the capture, where there is one. -/
def appendItermCopyText (s : SideEffects) (data : List UInt8) : SideEffects :=
  { s with itermCopyCapture := s.itermCopyCapture.map (·.appendPlainText data) }

/-- `terminal_side_effect.rs:306–347`. -/
def pushConemuSideEffect (s : SideEffects) (data : String) : SideEffects :=
  match splitText ';' data with
  | "2" :: parts => s.push (.windowTitle (";".intercalate parts))
  | "4" :: parts =>
    let first := parts.head?.getD ""
    let (state, value) :=
      match parts with
      | _ :: second :: _ => (conemuProgressState first, parseUnsigned (2 ^ 8 - 1) second)
      | _ =>
        if first = "0" ∨ first = "1" ∨ first = "2" ∨ first = "3" ∨ first = "4" then
          (conemuProgressState first, none)
        else ("normal", parseUnsigned (2 ^ 8 - 1) first)
    s.push (.conEmuProgress state (value.map fun value ↦ min value 100))
  | "6" :: _ => s.push (.semanticPrompt "conemu-prompt")
  | "0" :: _ | "1" :: _ | "3" :: _ | "5" :: _ | "7" :: _ =>
    s.push (.unsupportedHostCommand "conemu" data)
  | _ => s.push (.conEmuControl data)

variable (base64 : Base64Decoders)

/-- `terminal_side_effect.rs:371–420`. -/
def pushIterm2AssignmentSideEffect (s : SideEffects) (data : String) : SideEffects :=
  match splitOnce '=' data with
  | none => s.pushIterm2Control data
  | some (key, value) =>
    match key with
    | "CursorShape" =>
      let s :=
        match itermCursorShapeSequence value with
        | some sequence => s.writeVt sequence
        | none => s
      s.pushIterm2Control data
    | "Copy" =>
      s.extend ((base64.standard (textBytes value)).map fun bytes ↦
        .clipboardWrite (fromUtf8Lossy bytes))
    | "CopyToClipboard" =>
      { s with itermCopyCapture := some .new }.pushIterm2Control data
    | "OpenURL" =>
      match base64.standard (textBytes value) with
      | some bytes => s.push (.openUrl (fromUtf8Lossy bytes))
      | none => s.push (.openUrl value)
    | "File" => s.push (.iterm2File data)
    | "ReportVariable" =>
      match base64.standard (textBytes value) with
      | some bytes => s.push (.reportVariable (fromUtf8Lossy bytes))
      | none => s.pushIterm2Control data
    | "SetUserVar" =>
      match iterm2UserVarPorts base64 value with
      | some ports => s.push (.iterm2UserVarPorts ports)
      | none => s.pushIterm2Control data
    | _ => s.pushIterm2Control data

/-- `terminal_side_effect.rs:349–369`. -/
def pushIterm2SideEffect (s : SideEffects) (data : String) : SideEffects :=
  match data with
  | "ClearScrollback" => (s.writeVt [0x1B, 0x5B, 0x33, 0x4A]).pushIterm2Control data
  | "SetMark" => s.push (.semanticPrompt "iterm2-set-mark")
  | "StealFocus" => s.push .focusWindow
  | "ReportCellSize" => s.push .reportCellSize
  | "EndCopy" =>
    match s.itermCopyCapture with
    | some capture =>
      { s with itermCopyCapture := none }.push (.clipboardWrite (fromUtf8Lossy capture.text))
    | none => s
  | _ => s.pushIterm2AssignmentSideEffect base64 data

/-- `terminal_side_effect.rs:422–432`. -/
def pushOsc777SideEffect (s : SideEffects) (payload : List UInt8) : SideEffects :=
  match (splitTextN 3 ';' (fromUtf8Lossy payload).toList).map String.ofList with
  | "notify" :: parts =>
    s.push (.desktopNotification (parts.head?.getD "") (parts.tail.head?.getD ""))
  | _ => s

/-- `terminal_side_effect.rs:235–286`. -/
def pushOscSideEffect (s : SideEffects) (payload : List UInt8) : SideEffects :=
  match splitOscPayload payload with
  | none => s
  | some (command, rest) =>
    if command = textBytes "1" then s.pushUtf8Effect rest .windowIcon
    else if command = textBytes "9" then
      match fromUtf8 rest with
      | some data =>
        if isConemuOsc9 data then s.pushConemuSideEffect data
        else s.push (.desktopNotification "" data)
      | none => s
    else if command = textBytes "22" then s.pushUtf8Effect rest .mouseShape
    else if command = textBytes "5522" then
      s.push (.clipboardPacket (if rest.length ≤ maxPacket then rest else []))
    else if command = textBytes "52" then s.extend (osc52SideEffect base64 rest)
    else if command = textBytes "133" then
      let s := s.extend (((fromUtf8 rest).bind ShellEvent.parseOsc133).map .shellLifecycle)
      s.extend (((fromUtf8 rest).bind (PromptReport.parse base64)).map .shellPrompt)
    else if command = textBytes "66" then s.pushUtf8Effect rest .kittyTextSizing
    else if command = textBytes "777" then s.pushOsc777SideEffect rest
    else if command = textBytes "1337" then
      match fromUtf8 rest with
      | some data => s.pushIterm2SideEffect base64 data
      | none => s
    else s

/-! ### Laws -/

@[simp]
theorem appendItermCopyText_nil (s : SideEffects) : s.appendItermCopyText [] = s := by
  cases s with
  | mk effects actions capture => cases capture <;> rfl

/-- A text comes in two parts. -/
theorem appendItermCopyText_append (s : SideEffects) (data more : List UInt8) :
    s.appendItermCopyText (data ++ more) = (s.appendItermCopyText data).appendItermCopyText more := by
  cases s with
  | mk effects actions capture =>
    cases capture with
    | none => rfl
    | some capture =>
      simp [appendItermCopyText, ItermCopyCapture.appendPlainText, List.foldl_append]

theorem appendItermCopyText_of_none {s : SideEffects} (h : s.itermCopyCapture = none)
    (data : List UInt8) : s.appendItermCopyText data = s := by
  cases s with
  | mk effects actions capture =>
    cases h
    rfl

/-- What is pushed after what was pushed earlier. -/
def after (s earlier : SideEffects) : SideEffects :=
  { s with effects := earlier.effects ++ s.effects, actions := earlier.actions ++ s.actions }

private theorem extend_after (s earlier : SideEffects) (effect : Option TerminalSideEffect) :
    (s.after earlier).extend effect = (s.extend effect).after earlier := by
  simp [after, extend]

/-- Earlier effects stay in front. -/
theorem appendItermCopyText_after (s earlier : SideEffects) (data : List UInt8) :
    (s.after earlier).appendItermCopyText data = (s.appendItermCopyText data).after earlier := rfl

private theorem push_after (s earlier : SideEffects) (effect : TerminalSideEffect) :
    (s.after earlier).push effect = (s.push effect).after earlier := by
  simp [after, push]

private theorem writeVt_after (s earlier : SideEffects) (bytes : List UInt8) :
    (s.after earlier).writeVt bytes = (s.writeVt bytes).after earlier := by
  simp [after, writeVt]

private theorem pushConemuSideEffect_after (s earlier : SideEffects) (data : String) :
    (s.after earlier).pushConemuSideEffect data = (s.pushConemuSideEffect data).after earlier := by
  unfold pushConemuSideEffect
  split <;> exact push_after ..

private theorem pushOsc777SideEffect_after (s earlier : SideEffects) (payload : List UInt8) :
    (s.after earlier).pushOsc777SideEffect payload =
      (s.pushOsc777SideEffect payload).after earlier := by
  unfold pushOsc777SideEffect
  split
  · exact push_after ..
  · rfl

private theorem pushIterm2AssignmentSideEffect_after (s earlier : SideEffects) (data : String) :
    (s.after earlier).pushIterm2AssignmentSideEffect base64 data =
      (s.pushIterm2AssignmentSideEffect base64 data).after earlier := by
  unfold pushIterm2AssignmentSideEffect pushIterm2Control
  split
  · exact push_after ..
  next key value _ =>
    split
    · cases itermCursorShapeSequence value with
      | none => exact push_after ..
      | some sequence => simp only [writeVt_after, push_after]
    · exact extend_after ..
    · exact push_after { s with itermCopyCapture := some .new } earlier _
    · split <;> exact push_after ..
    · exact push_after ..
    · split <;> exact push_after ..
    · split <;> exact push_after ..
    · exact push_after ..

private theorem pushIterm2SideEffect_after (s earlier : SideEffects) (data : String) :
    (s.after earlier).pushIterm2SideEffect base64 data =
      (s.pushIterm2SideEffect base64 data).after earlier := by
  unfold pushIterm2SideEffect pushIterm2Control
  split
  · rw [writeVt_after, push_after]
  · exact push_after ..
  · exact push_after ..
  · exact push_after ..
  · cases hcapture : s.itermCopyCapture with
    | none => simp only [after, hcapture]
    | some capture => simp [after, hcapture, push]
  · exact pushIterm2AssignmentSideEffect_after ..

private theorem ite_after {p : Prop} [Decidable p] {s t s' t' earlier : SideEffects}
    (hs : s' = s.after earlier) (ht : t' = t.after earlier) :
    (if p then s' else t') = (if p then s else t).after earlier := by
  split
  · exact hs
  · exact ht

/-- What a sequence pushes depends on the text being copied alone. -/
theorem pushOscSideEffect_after (s earlier : SideEffects) (payload : List UInt8) :
    (s.after earlier).pushOscSideEffect base64 payload =
      (s.pushOscSideEffect base64 payload).after earlier := by
  unfold pushOscSideEffect pushUtf8Effect
  cases splitOscPayload payload with
  | none => rfl
  | some parts =>
    apply ite_after (extend_after ..)
    apply ite_after
    · cases fromUtf8 parts.2 with
      | none => rfl
      | some data => exact ite_after (pushConemuSideEffect_after ..) (push_after ..)
    apply ite_after (extend_after ..)
    apply ite_after (push_after ..)
    apply ite_after (extend_after ..)
    apply ite_after
    · show ((s.after earlier).extend _).extend _ = _
      rw [extend_after, extend_after]
    apply ite_after (extend_after ..)
    apply ite_after (pushOsc777SideEffect_after ..)
    apply ite_after
    · cases fromUtf8 parts.2 with
      | none => rfl
      | some data => exact pushIterm2SideEffect_after ..
    · rfl

private theorem textBytes_mem_sideEffect {command : String}
    (h : command ∈ ["1", "9", "22", "52", "5522", "66", "133", "777", "1337"]) :
    textBytes command ++ [0x3B] ∈ sideEffectOscPrefixes := by
  revert command
  decide +kernel

/-- A sequence that begins like none of the effectful ones has no effect. -/
theorem pushOscSideEffect_of_not_hasOscPrefix (s : SideEffects) {payload : List UInt8}
    (h : hasOscPrefix payload sideEffectOscPrefixes = false) :
    s.pushOscSideEffect base64 payload = s := by
  unfold pushOscSideEffect
  cases hsplit : splitOscPayload payload with
  | none => rfl
  | some parts =>
    have hne {command : String}
        (hmem : command ∈ ["1", "9", "22", "52", "5522", "66", "133", "777", "1337"]) :
        parts.1 ≠ textBytes command := by
      rintro hcommand
      have hpayload := splitOscPayload_eq_some (show _ = some (parts.1, parts.2) from hsplit)
      have hstart : textBytes command ++ [0x3B] <+: payload := by
        rw [hpayload, hcommand]
        exact ⟨parts.2, by simp⟩
      rw [hasOscPrefix_of_mem (textBytes_mem_sideEffect hmem) hstart] at h
      cases h
    simp [hne]

/-- A clipboard packet that is too long is pushed without its data. -/
theorem pushOscSideEffect_clipboard (s : SideEffects) (rest : List UInt8) :
    s.pushOscSideEffect base64 (textBytes "5522;" ++ rest) =
      s.push (.clipboardPacket (if rest.length ≤ maxPacket then rest else [])) := by
  have hsplit : splitOscPayload (textBytes "5522;" ++ rest) = some (textBytes "5522", rest) := rfl
  unfold pushOscSideEffect
  rw [hsplit]
  have h1 : textBytes "5522" ≠ textBytes "1" := by decide +kernel
  have h9 : textBytes "5522" ≠ textBytes "9" := by decide +kernel
  have h22 : textBytes "5522" ≠ textBytes "22" := by decide +kernel
  simp [h1, h9, h22]

end SideEffects
end Bootty.Terminal
