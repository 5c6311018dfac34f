import Bootty.Terminal.StreamCuts

/-!
# What the collector is given

What the collector of side effects does with the bytes that a write passes on, for each state
in which a cut of a stream may leave it (`crates/bootty-terminal/src/terminal_side_effect.rs:154–204`).
-/

namespace Bootty.Terminal

open Bootty.Base
open TerminalSideEffectCollector

variable {base64 : Base64Decoders}

/-! ### Before an item -/

/-- The collector read `data` after `s`, or was not called where that does nothing. -/
def Delivered (base64 : Base64Decoders) (s : SideEffects) (data : List UInt8)
    (collector : TerminalSideEffectCollector) : Prop :=
  collector = collectFrom base64 s data ∨
    collector = ⟨[], false, s⟩ ∧ s.itermCopyCapture = none ∧
      (terminalWriteFeatures data).oscSideEffect = false

/-- What is delivered outside of a control. -/
theorem delivered_ground (s : SideEffects) (data : List UInt8) :
    Delivered base64 s data (deliver base64 ⟨[], false, s⟩ data) := by
  unfold deliver
  split
  · exact .inl rfl
  next hcall =>
    simp only [needsInput, Bool.or_eq_true, not_or, Bool.not_eq_true] at hcall
    exact .inr ⟨rfl, by simpa using hcall.1.2, hcall.2⟩

variable {s : SideEffects}

/-- The items of a stream are read one after the other. -/
theorem Delivered.stream {done : List StreamItem} {rest : List UInt8}
    {collector : TerminalSideEffectCollector}
    (h : Delivered base64 s (streamBytes done ++ rest) collector) :
    Delivered base64 (applyStream base64 s done) rest collector := by
  cases h with
  | inl hcollect => exact .inl (hcollect.trans (collectFrom_stream s done rest))
  | inr hskip =>
    have ⟨hcollector, hcapture, hfeatures⟩ := hskip
    rw [(terminalWriteFeatures_stream done rest).2.2, Bool.or_eq_false_iff] at hfeatures
    rw [applyStream_eq_self base64 hcapture hfeatures.1]
    exact .inr ⟨hcollector, hcapture, hfeatures.2⟩

theorem deliver_ground_nil (s : SideEffects) :
    deliver base64 ⟨[], false, s⟩ [] = ⟨[], false, s⟩ := by
  cases delivered_ground s [] with
  | inl hcollect => exact hcollect.trans (collectFrom_nil s)
  | inr hskip => exact hskip.1

/-! ### Inside an OSC sequence that is not recognized -/

/-- What is no command has no effect. -/
theorem hasOscPrefix_sideEffect {payload : List UInt8}
    (h : hasOscPrefix payload oscPrefixes = false) :
    hasOscPrefix payload sideEffectOscPrefixes = false := by
  simp only [oscPrefixes, hasOscPrefix, List.any_append, Bool.or_eq_false_iff] at h ⊢
  exact h.1.1

variable {start finish : List UInt8}

/-- A command that is not recognized is held. -/
theorem collectFrom_unrecognized (h : Plain start)
    (hunrecognized : hasOscPrefix (start ++ finish) oscPrefixes = false) (s : SideEffects) :
    collectFrom base64 s (oscStart ++ start) = ⟨oscStart ++ start, false, s⟩ := by
  rw [collectFrom_part (findOscTerminator_of_plain h), if_neg]
  intro ⟨hclipboard, _⟩
  have hstart : textBytes "5522;" <+: start ++ finish :=
    (List.isPrefixOf_iff_prefix.mp hclipboard).trans (List.prefix_append start finish)
  have hmem : textBytes "5522;" ∈ oscPrefixes := by decide +kernel
  rw [hasOscPrefix_of_mem hmem hstart] at hunrecognized
  cases hunrecognized

variable {data : List UInt8}

theorem features_of_plain (h : Plain data) :
    terminalWriteFeatures data = {} := by
  have happend := terminalWriteFeatures_append h.ne_esc []
  rwa [List.append_nil] at happend

variable {passed : List UInt8}

/-- More of it is held, too. -/
theorem deliver_unrecognized (hplain : Plain (start ++ passed))
    (hunrecognized : hasOscPrefix (start ++ passed ++ finish) oscPrefixes = false) (s : SideEffects)
    :
    deliver base64 ⟨oscStart ++ start, false, s⟩ passed =
      ⟨oscStart ++ (start ++ passed), false, s⟩ := by
  have hcollect : collectFrom base64 s (oscStart ++ (start ++ passed)) = _ :=
    collectFrom_unrecognized hplain hunrecognized s
  rw [← List.append_assoc] at hcollect
  simpa [deliver, needsInput, collect, oscStart] using hcollect

/-- Plain bytes have no effect outside of a capture. -/
theorem deliver_unseen (hcapture : s.itermCopyCapture = none) (hplain : Plain passed) :
    deliver base64 ⟨[], false, s⟩ passed = ⟨[], false, s⟩ := by
  simp [deliver, needsInput, hcapture, features_of_plain hplain]

/-- The end of an OSC sequence that is not recognized, of which the collector kept the start. -/
theorem deliver_osc_tail (hplain : Plain (start ++ finish))
    (hunrecognized : hasOscPrefix (start ++ finish) oscPrefixes = false)
    (terminator : OscTerminator) (s : SideEffects) (rest : List UInt8) :
    deliver base64 ⟨oscStart ++ start, false, s⟩ (finish ++ terminator.bytes ++ rest) =
      collectFrom base64 s rest := by
  have hosc : collectFrom base64 s (oscStart ++ (start ++ finish) ++ terminator.bytes ++ rest) = _ :=
    collectFrom_osc hplain terminator s rest
  rw [SideEffects.pushOscSideEffect_of_not_hasOscPrefix base64 s
    (hasOscPrefix_sideEffect hunrecognized)] at hosc
  rw [← hosc]
  simp [deliver, needsInput, collect, oscStart]

theorem deliver_unseen_tail (hcapture : s.itermCopyCapture = none) (hplain : Plain finish)
    (terminator : OscTerminator) (rest : List UInt8) :
    deliver base64 ⟨[], false, s⟩ (finish ++ terminator.bytes ++ rest) =
      deliver base64 ⟨[], false, s⟩ rest := by
  have htail : collect base64 ⟨[], false, s⟩ (finish ++ terminator.bytes ++ rest) =
      collect base64 ⟨[], false, s⟩ rest := collectFrom_osc_tail hcapture hplain terminator rest
  unfold deliver
  rw [terminalWriteFeatures_osc_tail hplain, htail]

/-! ### Inside a clipboard packet that is too long -/

private theorem lastEscape_of_plain (h : Plain data) : lastEscape data = [] := by
  unfold lastEscape
  split
  next hlast => exact absurd rfl (h _ (List.mem_of_getLast? hlast)).1
  · rfl

theorem lastEscape_osc (h : Plain data) :
    lastEscape (oscStart ++ data) = [] := by
  have hbracket : Plain [0x5D] := by decide
  have htail := lastEscape_of_plain (hbracket.append h)
  unfold lastEscape at htail ⊢
  rwa [show oscStart ++ data = 0x1B :: 0x5D :: data from rfl, List.getLast?_cons_cons]

theorem lastEscape_append_esc (data : List UInt8) : lastEscape (data ++ [0x1B]) = [0x1B] := by
  simp [lastEscape]

/-- The collector discards the rest of a clipboard packet that is too long. -/
theorem delivered_clipboard {collector : TerminalSideEffectCollector} {payload missing : List UInt8}
    {terminator : OscTerminator} (hplain : Plain payload)
    (hcut : OscCut payload terminator data missing) (hclipboard : textBytes "5522;" <+: data)
    (hlong : limitOffset ≤ (oscStart ++ data).length)
    (h : Delivered base64 s (oscStart ++ data) collector) :
    collector = ⟨lastEscape (oscStart ++ data), true, s.push (.clipboardPacket [])⟩ := by
  cases h with
  | inl hcollect =>
    have hlen : maxPacket < data.length := by
      simp only [List.length_append, oscStart, List.length_cons, List.length_nil, limitOffset]
        at hlong
      omega
    rw [hcollect, collectFrom_part (hcut.findOscTerminator_eq_none hplain),
      if_pos ⟨List.isPrefixOf_iff_prefix.mpr hclipboard, hlen⟩]
  | inr hskip =>
    have hmem : textBytes "5522;" ∈ sideEffectOscPrefixes := by decide +kernel
    have hfeatures := hskip.2.2
    rw [terminalWriteFeatures_osc_part (hcut.plain hplain), TerminalWriteFeatures.or,
      controlFeatures_sideEffect, hasOscPrefix_of_mem hmem hclipboard] at hfeatures
    cases hfeatures

/-- Discarded bytes have no effect. -/
theorem deliver_discard (hplain : Plain passed) (s : SideEffects) :
    deliver base64 ⟨[], true, s⟩ passed = ⟨[], true, s⟩ := by
  simp [deliver, needsInput, collect, findOscTerminator_of_plain hplain, lastEscape_of_plain hplain]

theorem deliver_discard_tail (hplain : Plain finish) (terminator : OscTerminator) (s : SideEffects)
    (rest : List UInt8) :
    deliver base64 ⟨[], true, s⟩ (finish ++ terminator.bytes ++ rest) =
      collectFrom base64 s rest := by
  have hdrop : (finish ++ terminator.bytes ++ rest).drop
      (finish.length + terminator.bytes.length) = rest := by
    apply List.drop_left'
    rw [List.length_append]
  simp only [deliver, needsInput, collect, Bool.true_or, if_true, List.nil_append,
    findOscTerminator_osc hplain, hdrop]

theorem deliver_discardEscape_nil (s : SideEffects) :
    deliver base64 ⟨[0x1B], true, s⟩ [] = ⟨[0x1B], true, s⟩ := rfl

end Bootty.Terminal
