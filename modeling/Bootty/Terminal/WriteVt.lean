import Bootty.Terminal.SideEffectCollector

/-!
# Writes to the terminal engine

Model of `TerminalEngine::write_vt` as far as it decides what the collector of side effects is
given (`crates/bootty-terminal/src/terminal_engine.rs:1509–1641`). What is written to Ghostty's
terminal, colours and the working directory are left out.
-/

namespace Bootty.Terminal

open Bootty.Base

/-- The parts of `TerminalEngine` that a write changes. -/
structure TerminalEngine where
  terminalWritePending : List UInt8
  cursorHomePendingLen : Nat
  sideEffects : TerminalSideEffectCollector

namespace TerminalEngine

/-- An engine that has read nothing. -/
def new : TerminalEngine := ⟨[], 0, .new⟩

/-- `terminal_engine.rs:1509–1538`: the bytes that are not held back. -/
def completeStreamingTerminalWrite (engine : TerminalEngine) (bytes : List UInt8) :
    List UInt8 × TerminalEngine :=
  if engine.terminalWritePending.isEmpty then
    let completeLen := completeStreamingControlPrefixLen bytes
    if completeLen = bytes.length then (bytes, engine)
    else
      (bytes.take completeLen, { engine with terminalWritePending := bytes.drop completeLen })
  else
    let joined := engine.terminalWritePending ++ bytes
    let completeLen := completeStreamingControlPrefixLen joined
    if completeLen < joined.length then
      (joined.take completeLen, { engine with terminalWritePending := joined.drop completeLen })
    else (joined, { engine with terminalWritePending := [] })

/-- `terminal_engine.rs:1540–1560`: whether the bytes only bring the cursor home. -/
def tryWriteRepeatedCursorHome (engine : TerminalEngine) (bytes : List UInt8) :
    Bool × TerminalEngine :=
  match repeatedCursorHomePrefixLen bytes engine.cursorHomePendingLen with
  | none => (false, { engine with cursorHomePendingLen := 0 })
  | some (_, pendingLen) => (true, { engine with cursorHomePendingLen := pendingLen })

/-- The features of bytes, with side effects where the collector waits for input. -/
def writeFeatures (engine : TerminalEngine) (bytes : List UInt8) : TerminalWriteFeatures :=
  let features := terminalWriteFeatures bytes
  if engine.sideEffects.needsInput then { features with oscSideEffect := true } else features

variable (base64 : Base64Decoders)

/-- `terminal_engine.rs:1562–1641`. -/
def writeVt (engine : TerminalEngine) (bytes : List UInt8) : TerminalEngine :=
  let canFastWrite := engine.terminalWritePending.isEmpty && !engine.sideEffects.needsInput &&
    !containsTrackedStreamingControl bytes
  let (cursorHome, engine) :=
    if canFastWrite then engine.tryWriteRepeatedCursorHome bytes else (false, engine)
  if cursorHome then engine
  else
    let engine := { engine with cursorHomePendingLen := 0 }
    if canFastWrite then engine
    else
      let (writeBytes, engine) := engine.completeStreamingTerminalWrite bytes
      if writeBytes.isEmpty then engine
      else
        let features := engine.writeFeatures writeBytes
        if !features.needsSanitizing then engine
        else
          let (features, bytes) :=
            if features.tmuxPassthrough then
              let unwrapped := unwrapTmuxPassthroughCommands writeBytes
              (engine.writeFeatures unwrapped, unwrapped)
            else (features, writeBytes)
          let sanitized :=
            if features.kittyGraphics then sanitizeKittyGraphicsCommands bytes else bytes
          if features.oscSideEffect then
            { engine with sideEffects := engine.sideEffects.collect base64 sanitized }
          else engine

/-- Successive writes. -/
def writes (engine : TerminalEngine) (chunks : List (List UInt8)) : TerminalEngine :=
  chunks.foldl (writeVt base64) engine

end TerminalEngine

/-! ### A write in terms of what is held back -/

namespace TerminalSideEffectCollector

variable (base64 : Base64Decoders)

/-- The collector after bytes that are not held back and hold no control to rewrite. -/
def deliver (collector : TerminalSideEffectCollector) (data : List UInt8) :
    TerminalSideEffectCollector :=
  if collector.needsInput || (terminalWriteFeatures data).oscSideEffect then
    collector.collect base64 data
  else collector

end TerminalSideEffectCollector

namespace TerminalEngine

/-- What is written, and what is held back. -/
theorem completeStreamingTerminalWrite_eq (engine : TerminalEngine) (bytes : List UInt8) :
    engine.completeStreamingTerminalWrite bytes =
      let joined := engine.terminalWritePending ++ bytes
      let completeLen := completeStreamingControlPrefixLen joined
      (joined.take completeLen, { engine with terminalWritePending := joined.drop completeLen }) := by
  unfold completeStreamingTerminalWrite
  cases engine with
  | mk pending cursorHomePendingLen sideEffects =>
    dsimp only
    split
    next hempty =>
      have hpending : pending = [] := List.isEmpty_iff.mp hempty
      subst hpending
      split
      next hlen => simp [hlen]
      next => rfl
    next =>
      split
      next => rfl
      next hlen =>
        rw [List.take_of_length_le (by omega), List.drop_eq_nil_of_le (by omega)]

private theorem tryWriteRepeatedCursorHome_fields (engine : TerminalEngine) (bytes : List UInt8) :
    (engine.tryWriteRepeatedCursorHome bytes).2.terminalWritePending =
        engine.terminalWritePending ∧
      (engine.tryWriteRepeatedCursorHome bytes).2.sideEffects = engine.sideEffects := by
  unfold tryWriteRepeatedCursorHome
  split <;> exact ⟨rfl, rfl⟩

variable {engine : TerminalEngine} {bytes : List UInt8}

/-- A write on a fast path changes neither what is held back nor the collector. -/
theorem writeVt_of_fast (base64 : Base64Decoders)
    (h : (engine.terminalWritePending.isEmpty && !engine.sideEffects.needsInput &&
      !containsTrackedStreamingControl bytes) = true) :
    (engine.writeVt base64 bytes).terminalWritePending = engine.terminalWritePending ∧
      (engine.writeVt base64 bytes).sideEffects = engine.sideEffects := by
  have ⟨hpending, hsideEffects⟩ := tryWriteRepeatedCursorHome_fields engine bytes
  unfold writeVt
  simp only [h, if_true]
  split
  · exact ⟨hpending, hsideEffects⟩
  · exact ⟨hpending, hsideEffects⟩

private theorem writeVt_of_not_fast {base64 : Base64Decoders} {joined passed : List UInt8}
    (h : (engine.terminalWritePending.isEmpty && !engine.sideEffects.needsInput &&
      !containsTrackedStreamingControl bytes) = false)
    (hjoined : joined = engine.terminalWritePending ++ bytes)
    (hpassed : passed = joined.take (completeStreamingControlPrefixLen joined))
    (htmux : (terminalWriteFeatures passed).tmuxPassthrough = false)
    (hkitty : (terminalWriteFeatures passed).kittyGraphics = false)
    (hnil : engine.sideEffects.deliver base64 [] = engine.sideEffects) :
    (engine.writeVt base64 bytes).terminalWritePending =
        joined.drop (completeStreamingControlPrefixLen joined) ∧
      (engine.writeVt base64 bytes).sideEffects = engine.sideEffects.deliver base64 passed := by
  unfold writeVt
  simp only [h, Bool.false_eq_true, if_false, completeStreamingTerminalWrite_eq, ← hjoined,
    ← hpassed]
  split
  next hempty =>
    rw [List.isEmpty_iff.mp hempty, hnil]
    exact ⟨rfl, rfl⟩
  next =>
    unfold writeFeatures TerminalSideEffectCollector.deliver
    by_cases hneeds : engine.sideEffects.needsInput = true
    · simp [hneeds, TerminalWriteFeatures.needsSanitizing, htmux, hkitty]
    · cases hside : (terminalWriteFeatures passed).oscSideEffect with
      | true => simp [hneeds, TerminalWriteFeatures.needsSanitizing, htmux, hkitty, hside]
      | false =>
        simp [hneeds, TerminalWriteFeatures.needsSanitizing, htmux, hkitty, hside]

/-- The write passes on what is complete, together with what was held back before, and the fast
paths do nothing else. -/
theorem writeVt_eq {base64 : Base64Decoders} {joined passed : List UInt8}
    (hjoined : joined = engine.terminalWritePending ++ bytes)
    (hpassed : passed = joined.take (completeStreamingControlPrefixLen joined))
    (htmux : (terminalWriteFeatures passed).tmuxPassthrough = false)
    (hkitty : (terminalWriteFeatures passed).kittyGraphics = false)
    (hnil : engine.sideEffects.deliver base64 [] = engine.sideEffects) :
    (engine.writeVt base64 bytes).terminalWritePending =
        joined.drop (completeStreamingControlPrefixLen joined) ∧
      (engine.writeVt base64 bytes).sideEffects = engine.sideEffects.deliver base64 passed := by
  cases hfast : engine.terminalWritePending.isEmpty && !engine.sideEffects.needsInput &&
    !containsTrackedStreamingControl bytes with
  | false => exact writeVt_of_not_fast hfast hjoined hpassed htmux hkitty hnil
  | true =>
    have ⟨hpending, hsideEffects⟩ := writeVt_of_fast base64 hfast
    simp only [Bool.and_eq_true, Bool.not_eq_true', List.isEmpty_iff] at hfast
    have hbytes : joined = bytes := by rw [hjoined, hfast.1.1, List.nil_append]
    have ⟨hlen, hfeatures⟩ := complete_of_not_containsTracked hfast.2
    have hwhole : passed = bytes := by rw [hpassed, hbytes, hlen, List.take_length]
    rw [hpending, hsideEffects, hfast.1.1, hbytes, hlen, List.drop_length, hwhole]
    constructor
    · rfl
    · simp [TerminalSideEffectCollector.deliver, hfast.1.2, hfeatures]

end TerminalEngine
end Bootty.Terminal
