import Bootty.Terminal.OutputStream
import Bootty.Terminal.SideEffects

/-!
# Collector of side effects

Model of `TerminalSideEffectCollector` as far as it reads the bytes of writes
(`crates/bootty-terminal/src/terminal_side_effect.rs:154–204`): it keeps an OSC sequence that is
not complete, except for a clipboard packet that is too long, of which it discards the rest.
-/

namespace Bootty.Terminal

open Bootty.Base

/-- `terminal_side_effect.rs:112–119`, without the effects of Ghostty's callbacks; the host actions
of all calls are with the effects. -/
structure TerminalSideEffectCollector where
  oscPending : List UInt8
  clipboardDiscard : Bool
  sideEffects : SideEffects

variable {remaining : List UInt8}

private theorem findBytes_oscStart_ne_nil {start : Nat}
    (h : findBytes oscStart remaining = some start) : 0 < remaining.length := by
  cases remaining with
  | nil => cases h
  | cons byte rest => exact Nat.zero_lt_succ _

variable {s : SideEffects}

namespace TerminalSideEffectCollector

/-- A collector that has read nothing. -/
def new : TerminalSideEffectCollector := ⟨[], false, .new⟩

/-- `terminal_side_effect.rs:154–156`. -/
def needsInput (collector : TerminalSideEffectCollector) : Bool :=
  collector.clipboardDiscard || !collector.oscPending.isEmpty ||
    collector.sideEffects.itermCopyCapture.isSome

/-- The last byte, where it is ESC. -/
def lastEscape (bytes : List UInt8) : List UInt8 :=
  if bytes.getLast? = some 0x1B then [0x1B] else []

variable (base64 : Base64Decoders)

/-- The loop of `collect`, from the bytes that remain. -/
def collectFrom (s : SideEffects) (remaining : List UInt8) : TerminalSideEffectCollector :=
  match _hstart : findBytes oscStart remaining with
  | none => ⟨[], false, s.appendItermCopyText remaining⟩
  | some start =>
    let s := s.appendItermCopyText (remaining.take start)
    let packet := remaining.drop start
    let payload := packet.drop 2
    match findOscTerminator payload with
    | some (payloadLen, terminatorLen) =>
      collectFrom (s.pushOscSideEffect base64 (payload.take payloadLen))
        (payload.drop (payloadLen + terminatorLen))
    | none =>
      if (textBytes "5522;").isPrefixOf payload ∧ maxPacket < payload.length then
        ⟨lastEscape packet, true, s.push (.clipboardPacket [])⟩
      else ⟨packet, false, s⟩
termination_by remaining.length
decreasing_by
  have hpos := findBytes_oscStart_ne_nil _hstart
  simp only [List.length_drop]
  omega

/-- `terminal_side_effect.rs:158–204`. -/
def collect (collector : TerminalSideEffectCollector) (data : List UInt8) :
    TerminalSideEffectCollector :=
  let bytes := collector.oscPending ++ data
  if collector.clipboardDiscard then
    match findOscTerminator bytes with
    | none => { collector with oscPending := lastEscape bytes }
    | some (finish, len) => collectFrom base64 collector.sideEffects (bytes.drop (finish + len))
  else collectFrom base64 collector.sideEffects bytes

/-! ### The loop -/

variable {base64 : Base64Decoders}

private theorem collectFrom_of_none (h : findBytes oscStart remaining = none) :
    collectFrom base64 s remaining = ⟨[], false, s.appendItermCopyText remaining⟩ := by
  rw [collectFrom]
  split
  · rfl
  next hstart =>
    rw [h] at hstart
    cases hstart

private theorem collectFrom_of_some {start : Nat} (h : findBytes oscStart remaining = some start) :
    collectFrom base64 s remaining =
      match findOscTerminator ((remaining.drop start).drop 2) with
      | some (payloadLen, terminatorLen) =>
        collectFrom base64 ((s.appendItermCopyText (remaining.take start)).pushOscSideEffect base64
            (((remaining.drop start).drop 2).take payloadLen))
          (((remaining.drop start).drop 2).drop (payloadLen + terminatorLen))
      | none =>
        if (textBytes "5522;").isPrefixOf ((remaining.drop start).drop 2) ∧
            maxPacket < ((remaining.drop start).drop 2).length then
          ⟨lastEscape (remaining.drop start), true,
            (s.appendItermCopyText (remaining.take start)).push (.clipboardPacket [])⟩
        else ⟨remaining.drop start, false, s.appendItermCopyText (remaining.take start)⟩ := by
  rw [collectFrom]
  split
  next hstart =>
    rw [h] at hstart
    cases hstart
  next first hstart =>
    rw [h] at hstart
    cases hstart
    rfl

private theorem collectFrom_append {text rest : List UInt8}
    (h : findBytes oscStart (text ++ rest) = (findBytes oscStart rest).map (· + text.length))
    (s : SideEffects) :
    collectFrom base64 s (text ++ rest) = collectFrom base64 (s.appendItermCopyText text) rest := by
  cases hfind : findBytes oscStart rest with
  | none =>
    rw [hfind] at h
    rw [collectFrom_of_none h, collectFrom_of_none hfind, SideEffects.appendItermCopyText_append]
  | some start =>
    rw [hfind] at h
    have htake : (text ++ rest).take (start + text.length) = text ++ rest.take start := by
      rw [Nat.add_comm, List.take_length_add_append]
    have hdrop : (text ++ rest).drop (start + text.length) = rest.drop start := by
      rw [Nat.add_comm, List.drop_length_add_append]
    rw [collectFrom_of_some h, collectFrom_of_some hfind, htake, hdrop,
      SideEffects.appendItermCopyText_append]

private theorem collectFrom_cons {byte : UInt8} (h : byte ≠ 0x1B) (s : SideEffects)
    (rest : List UInt8) :
    collectFrom base64 s (byte :: rest) =
      collectFrom base64 (s.appendItermCopyText [byte]) rest := by
  have hnot : oscStart.isPrefixOf (byte :: rest) = false := by
    simp [oscStart, List.isPrefixOf, Ne.symm h]
  have hfind : findBytes oscStart ([byte] ++ rest) =
      (findBytes oscStart rest).map (· + [byte].length) := by
    simp [findBytes, hnot]
  exact collectFrom_append hfind s

private theorem collectFrom_escape {kind : UInt8} (hosc : kind ≠ 0x5D) (hesc : kind ≠ 0x1B)
    (s : SideEffects) (rest : List UInt8) :
    collectFrom base64 s (0x1B :: kind :: rest) =
      collectFrom base64 (s.appendItermCopyText [0x1B, kind]) rest := by
  have hnot : oscStart.isPrefixOf (0x1B :: kind :: rest) = false := by
    simp [oscStart, List.isPrefixOf, Ne.symm hosc]
  have hnot' : oscStart.isPrefixOf (kind :: rest) = false := by
    simp [oscStart, List.isPrefixOf, Ne.symm hesc]
  have hfind : findBytes oscStart ([0x1B, kind] ++ rest) =
      (findBytes oscStart rest).map (· + [0x1B, kind].length) := by
    simp [findBytes, hnot, hnot', Option.map_map, Function.comp_def]
  exact collectFrom_append hfind s

private theorem findBytes_osc (rest : List UInt8) :
    findBytes oscStart (oscStart ++ rest) = some 0 := by
  simp [findBytes, oscStart, List.isPrefixOf]

/-- A command has its effect. -/
theorem collectFrom_osc {payload : List UInt8} (h : Plain payload) (terminator : OscTerminator)
    (s : SideEffects) (rest : List UInt8) :
    collectFrom base64 s (oscStart ++ payload ++ terminator.bytes ++ rest) =
      collectFrom base64 (s.pushOscSideEffect base64 payload) rest := by
  have hpacket : oscStart ++ payload ++ terminator.bytes ++ rest =
      oscStart ++ (payload ++ terminator.bytes ++ rest) := by simp
  rw [hpacket, collectFrom_of_some (findBytes_osc _)]
  have hdrop : ((oscStart ++ (payload ++ terminator.bytes ++ rest)).drop 0).drop 2 =
      payload ++ terminator.bytes ++ rest := rfl
  rw [hdrop, findOscTerminator_osc h]
  have hpayload : (payload ++ terminator.bytes ++ rest).take payload.length = payload := by
    rw [List.append_assoc, List.take_left]
  have hrest : (payload ++ terminator.bytes ++ rest).drop
      (payload.length + terminator.bytes.length) = rest := by
    apply List.drop_left'
    rw [List.length_append]
  simp only [hpayload, hrest, List.take_zero, SideEffects.appendItermCopyText_nil]

/-- An OSC sequence that is not complete is kept or discarded. -/
theorem collectFrom_part {data : List UInt8} (h : findOscTerminator data = none)
    (s : SideEffects) :
    collectFrom base64 s (oscStart ++ data) =
      if (textBytes "5522;").isPrefixOf data ∧ maxPacket < data.length then
        ⟨lastEscape (oscStart ++ data), true, s.push (.clipboardPacket [])⟩
      else ⟨oscStart ++ data, false, s⟩ := by
  rw [collectFrom_of_some (findBytes_osc data)]
  have hdrop : ((oscStart ++ data).drop 0).drop 2 = data := rfl
  rw [hdrop, h]
  simp only [List.take_zero, List.drop_zero, SideEffects.appendItermCopyText_nil]

theorem collectFrom_nil (s : SideEffects) : collectFrom base64 s [] = ⟨[], false, s⟩ := by
  rw [collectFrom_of_none rfl, SideEffects.appendItermCopyText_nil]

end TerminalSideEffectCollector

/-! ### Streams that are not cut -/

variable (base64 : Base64Decoders)

/-- What an item does that is read at once. -/
def StreamItem.apply (s : SideEffects) : StreamItem → SideEffects
  | .byte value _ => s.appendItermCopyText [value]
  | .escape kind _ => s.appendItermCopyText [0x1B, kind]
  | .osc payload _ _ => s.pushOscSideEffect base64 payload

/-- What the items of a stream do one after the other. -/
def applyStream (s : SideEffects) (items : List StreamItem) : SideEffects :=
  items.foldl (StreamItem.apply base64) s

namespace TerminalSideEffectCollector

variable {base64 : Base64Decoders}

/-- The loop reads a stream item by item. -/
theorem collectFrom_stream (s : SideEffects) (items : List StreamItem) (rest : List UInt8) :
    collectFrom base64 s (streamBytes items ++ rest) =
      collectFrom base64 (applyStream base64 s items) rest := by
  induction items generalizing s with
  | nil => rfl
  | cons item items ih =>
    rw [streamBytes_cons, List.append_assoc]
    cases item with
    | byte value h => exact (collectFrom_cons h s _).trans (ih _)
    | escape kind h => exact (collectFrom_escape h.1 h.2.2.2 s _).trans (ih _)
    | osc payload terminator h => exact (collectFrom_osc h terminator s _).trans (ih _)

/-- The end of an OSC sequence of which the collector did not see the start. -/
theorem collectFrom_osc_tail (hcapture : s.itermCopyCapture = none) {payload : List UInt8}
    (h : Plain payload) (terminator : OscTerminator) (rest : List UInt8) :
    collectFrom base64 s (payload ++ terminator.bytes ++ rest) = collectFrom base64 s rest := by
  induction payload with
  | nil =>
    cases terminator with
    | bel =>
      show collectFrom base64 s (0x07 :: rest) = _
      rw [collectFrom_cons (by decide), SideEffects.appendItermCopyText_of_none hcapture]
    | st =>
      show collectFrom base64 s (0x1B :: 0x5C :: rest) = _
      rw [collectFrom_escape (by decide) (by decide),
        SideEffects.appendItermCopyText_of_none hcapture]
  | cons byte payload ih =>
    show collectFrom base64 s (byte :: (payload ++ terminator.bytes ++ rest)) = _
    rw [collectFrom_cons (h byte List.mem_cons_self).1,
      SideEffects.appendItermCopyText_of_none hcapture]
    exact ih fun byte hmem ↦ h byte (List.mem_cons_of_mem _ hmem)

end TerminalSideEffectCollector

/-- Where no text is copied, items without side effects do nothing. -/
theorem applyStream_eq_self (hcapture : s.itermCopyCapture = none) {items : List StreamItem}
    (h : items.any StreamItem.isSideEffect = false) :
    applyStream base64 s items = s := by
  induction items with
  | nil => rfl
  | cons item items ih =>
    rw [List.any_cons, Bool.or_eq_false_iff] at h
    have hitem : item.apply base64 s = s := by
      cases item with
      | byte value _ => exact SideEffects.appendItermCopyText_of_none hcapture _
      | escape kind _ => exact SideEffects.appendItermCopyText_of_none hcapture _
      | osc payload terminator _ =>
        exact SideEffects.pushOscSideEffect_of_not_hasOscPrefix base64 s h.1
    show applyStream base64 (item.apply base64 s) items = s
    rw [hitem]
    exact ih h.2

end Bootty.Terminal
