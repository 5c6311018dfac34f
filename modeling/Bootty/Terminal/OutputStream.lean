import Bootty.Terminal.WriteIngress

/-!
# Streams of terminal output

Streams that are read item by item: bytes, two-byte escapes and OSC sequences. What
`write_ingress.rs` finds in such a stream is said item by item, and for what is read of an item
that is not yet complete.
-/

namespace Bootty.Terminal

open Bootty.Base

/-- What ends an operating system command. -/
inductive OscTerminator where
  | bel
  | st
  deriving DecidableEq, Repr

/-- Its bytes. -/
def OscTerminator.bytes : OscTerminator → List UInt8
  | .bel => [0x07]
  | .st => [0x1B, 0x5C]

/-- A byte that is not ESC, an ESC before a byte that begins no string, or an OSC sequence. -/
inductive StreamItem where
  | byte (byte : UInt8) (h : byte ≠ 0x1B)
  | escape (kind : UInt8) (h : kind ≠ 0x5D ∧ kind ≠ 0x50 ∧ kind ≠ 0x5F ∧ kind ≠ 0x1B)
  | osc (payload : List UInt8) (terminator : OscTerminator) (h : Plain payload)

namespace StreamItem

/-- The bytes of an item. -/
def bytes : StreamItem → List UInt8
  | .byte value _ => [value]
  | .escape kind _ => [0x1B, kind]
  | .osc payload terminator _ => oscStart ++ payload ++ terminator.bytes

end StreamItem

/-- The bytes of a stream. -/
def streamBytes (items : List StreamItem) : List UInt8 := items.flatMap StreamItem.bytes

@[simp]
theorem streamBytes_nil : streamBytes [] = [] := rfl

@[simp]
theorem streamBytes_cons (item : StreamItem) (items : List StreamItem) :
    streamBytes (item :: items) = item.bytes ++ streamBytes items := rfl

@[simp]
theorem streamBytes_append (items more : List StreamItem) :
    streamBytes (items ++ more) = streamBytes items ++ streamBytes more :=
  List.flatMap_append

private theorem StreamItem.bytes_ne_nil (item : StreamItem) : item.bytes ≠ [] := by
  cases item <;> simp [bytes, oscStart]

/-- No bytes are no items. -/
theorem streamBytes_eq_nil {items : List StreamItem} (h : streamBytes items = []) : items = [] := by
  cases items with
  | nil => rfl
  | cons item items => exact absurd (List.append_eq_nil_iff.mp h).1 item.bytes_ne_nil

/-- What is read of a stream is whole items and a part of the next. -/
theorem streamBytes_split {items : List StreamItem} {read unread : List UInt8}
    (h : read ++ unread = streamBytes items) :
    ∃ done todo part, items = done ++ todo ∧ read = streamBytes done ++ part ∧
      part ++ unread = streamBytes todo ∧
      (part = [] ∨ ∃ item rest missing, todo = item :: rest ∧ item.bytes = part ++ missing ∧
        part ≠ [] ∧ missing ≠ []) := by
  induction items generalizing read with
  | nil =>
    have hread : read = [] := (List.append_eq_nil_iff.mp h).1
    exact ⟨[], [], [], rfl, hread, by simpa [hread] using h, .inl rfl⟩
  | cons item items ih =>
    rw [streamBytes_cons] at h
    cases List.append_eq_append_iff.mp h with
    | inl hpart =>
      -- The stream is read up to a byte of this item.
      have ⟨missing, hbytes, hunread⟩ := hpart
      by_cases hread : read = []
      · exact ⟨[], item :: items, [], rfl, hread, by simp [hread] at h; simpa using h, .inl rfl⟩
      by_cases hmissing : missing = []
      · exact ⟨[item], items, [], rfl, by simp [hbytes, hmissing], by simp [hunread, hmissing],
          .inl rfl⟩
      · exact ⟨[], item :: items, read, rfl, rfl, by simp [hbytes, hunread],
          .inr ⟨item, items, missing, rfl, hbytes, hread, hmissing⟩⟩
    | inr hwhole =>
      have ⟨more, hread, hrest⟩ := hwhole
      have ⟨done, todo, part, hitems, hmore, htodo, hpart⟩ := ih hrest.symm
      exact ⟨item :: done, todo, part, by rw [hitems]; rfl, by simp [hread, hmore], htodo, hpart⟩

/-! ### Parts of an OSC sequence -/

private theorem OscTerminator.bytes_ne_nil (terminator : OscTerminator) : terminator.bytes ≠
    [] := by
  cases terminator <;> simp [bytes]

/-- An OSC sequence is cut after `data`: inside its payload, or inside its terminator. -/
inductive OscCut (payload : List UInt8) (terminator : OscTerminator) (data missing : List UInt8) :
    Prop
  | payload (rest : List UInt8) (hpayload : payload = data ++ rest)
      (hmissing : missing = rest ++ terminator.bytes)
  | terminator (hst : terminator = .st) (hdata : data = payload ++ [0x1B])
      (hmissing : missing = [0x5C])

/-- Bytes of a payload and its terminator that do not end it. -/
theorem oscCut_of_append {payload read missing : List UInt8} {terminator : OscTerminator}
    (h : read ++ missing = payload ++ terminator.bytes) (hmissing : missing ≠ []) :
    OscCut payload terminator read missing := by
  cases List.append_eq_append_iff.mp h with
  | inl hinside =>
    have ⟨rest, hpayload, hrest⟩ := hinside
    exact .payload rest hpayload hrest
  | inr hafter =>
    have ⟨more, hread, hbytes⟩ := hafter
    cases more with
    | nil => exact .payload [] (by simp [hread]) (by simpa using hbytes.symm)
    | cons first more =>
      cases terminator with
      | bel =>
        have hnil : more ++ missing = [] := (List.cons.inj hbytes).2.symm
        exact absurd (List.append_eq_nil_iff.mp hnil).2 hmissing
      | st =>
        have ⟨hfirst, hlast⟩ := List.cons.inj hbytes
        cases more with
        | nil => exact .terminator rfl (by rw [hread, ← hfirst]) hlast.symm
        | cons second more =>
          have hnil : more ++ missing = [] := (List.cons.inj hlast).2.symm
          exact absurd (List.append_eq_nil_iff.mp hnil).2 hmissing

/-- Bytes of an OSC sequence that do not end it. -/
theorem oscCut_of_part {payload part missing : List UInt8} {terminator : OscTerminator}
    (h : oscStart ++ payload ++ terminator.bytes = part ++ missing) (hpart : part ≠ [])
    (hmissing : missing ≠ []) :
    part = [0x1B] ∨ ∃ data, part = oscStart ++ data ∧ OscCut payload terminator data missing := by
  cases part with
  | nil => exact absurd rfl hpart
  | cons first part =>
    have ⟨hfirst, hrest⟩ := List.cons.inj h
    subst hfirst
    cases part with
    | nil => exact .inl rfl
    | cons second part =>
      have ⟨hsecond, htail⟩ := List.cons.inj hrest
      subst hsecond
      exact .inr ⟨part, rfl, oscCut_of_append htail.symm hmissing⟩

namespace OscCut

variable {payload data missing : List UInt8} {terminator : OscTerminator}

theorem plain (h : OscCut payload terminator data missing) (hplain : Plain payload) :
    Plain data ∨ ∃ payload, Plain payload ∧ data = payload ++ [0x1B] := by
  cases h with
  | payload rest hpayload hmissing => exact .inl (hpayload ▸ hplain).of_append_left
  | terminator hst hdata hmissing => exact .inr ⟨payload, hplain, hdata⟩

/-- A command that was cut has no end. -/
theorem findOscTerminator_eq_none (h : OscCut payload terminator data missing) (hplain : Plain payload) :
    findOscTerminator data = none := by
  cases h with
  | payload rest hpayload hmissing =>
    exact findOscTerminator_of_plain (hpayload ▸ hplain).of_append_left
  | terminator hst hdata hmissing => exact hdata ▸ findOscTerminator_append_esc hplain

end OscCut

/-! ### What ingress finds in whole items -/

theorem Plain.ne_esc {bytes : List UInt8} (h : Plain bytes) : ∀ byte ∈ bytes, byte ≠ 0x1B :=
  fun byte hmem ↦ (h byte hmem).1

/-- A command ends at its terminator. -/
theorem findOscTerminator_osc {payload : List UInt8} (h : Plain payload)
    (terminator : OscTerminator) (rest : List UInt8) :
    findOscTerminator (payload ++ terminator.bytes ++ rest) =
      some (payload.length, terminator.bytes.length) := by
  rw [List.append_assoc, findOscTerminator_append h]
  cases terminator <;> rfl

/-- The end of an OSC sequence of which the start was passed on before. -/
theorem completeStreamingControlPrefixLen_osc_tail {payload : List UInt8} (h : Plain payload)
    (terminator : OscTerminator) (rest : List UInt8) :
    completeStreamingControlPrefixLen (payload ++ terminator.bytes ++ rest) =
      (payload ++ terminator.bytes).length + completeStreamingControlPrefixLen rest := by
  rw [List.append_assoc, completeStreamingControlPrefixLen_append h.ne_esc]
  cases terminator with
  | bel =>
    rw [show OscTerminator.bel.bytes ++ rest = 0x07 :: rest from rfl,
      completeStreamingControlPrefixLen_cons (by decide)]
    simp only [List.length_append, OscTerminator.bytes, List.length_cons, List.length_nil]
    omega
  | st =>
    rw [show OscTerminator.st.bytes ++ rest = 0x1B :: 0x5C :: rest from rfl,
      completeStreamingControlPrefixLen_escape (by decide) (by decide) (by decide) (by decide)]
    simp only [List.length_append, OscTerminator.bytes, List.length_cons, List.length_nil]
    omega

/-- A command needs no rewriting. -/
theorem terminalWriteFeatures_osc_tail {payload : List UInt8} (h : Plain payload)
    (terminator : OscTerminator) (rest : List UInt8) :
    terminalWriteFeatures (payload ++ terminator.bytes ++ rest) = terminalWriteFeatures rest := by
  rw [List.append_assoc, terminalWriteFeatures_append h.ne_esc]
  cases terminator <;> rfl

private theorem terminator_head (terminator : OscTerminator) :
    ∃ first more, terminator.bytes = first :: more ∧ (first = 0x1B ∨ first = 0x07) := by
  cases terminator with
  | bel => exact ⟨0x07, [], rfl, .inr rfl⟩
  | st => exact ⟨0x1B, [0x5C], rfl, .inl rfl⟩

private theorem streamingControlState_whole {payload : List UInt8} (h : Plain payload)
    (terminator : OscTerminator) (rest : List UInt8) :
    streamingControlState (oscStart ++ payload ++ terminator.bytes ++ rest) =
      if hasOscPrefix payload oscPrefixes then
        .complete (payload.length + 2 + terminator.bytes.length)
      else .unrecognized := by
  have ⟨first, more, hbytes, hfirst⟩ := terminator_head terminator
  have ⟨hbegins, hosc⟩ := oscStreamingPrefixState_append payload hfirst (more ++ rest)
  have hdata : payload ++ first :: (more ++ rest) = payload ++ terminator.bytes ++ rest := by
    rw [hbytes, List.append_assoc, List.cons_append]
  rw [hdata] at hbegins hosc
  have hstate := streamingControlState_osc (payload ++ terminator.bytes ++ rest)
  rw [hbegins, hosc, findOscTerminator_osc h] at hstate
  rw [show oscStart ++ payload ++ terminator.bytes ++ rest =
    0x1B :: 0x5D :: (payload ++ terminator.bytes ++ rest) from rfl, hstate]
  by_cases hrecognized : hasOscPrefix payload oscPrefixes = true
  · simp [hrecognized]
  · simp [hrecognized]

/-- No whole item is held back. -/
theorem completeStreamingControlPrefixLen_item (item : StreamItem) (rest : List UInt8) :
    completeStreamingControlPrefixLen (item.bytes ++ rest) =
      item.bytes.length + completeStreamingControlPrefixLen rest := by
  cases item with
  | byte value h => exact completeStreamingControlPrefixLen_cons h rest
  | escape kind h => exact completeStreamingControlPrefixLen_escape h.1 h.2.1 h.2.2.1 h.2.2.2 rest
  | osc payload terminator h =>
    have hstate := streamingControlState_whole h terminator rest
    by_cases hrecognized : hasOscPrefix payload oscPrefixes = true
    · rw [if_pos hrecognized] at hstate
      show completeStreamingControlPrefixLen
        (0x1B :: ([0x5D] ++ payload ++ terminator.bytes ++ rest)) = _
      rw [completeStreamingControlPrefixLen, if_pos rfl,
        show 0x1B :: ([0x5D] ++ payload ++ terminator.bytes ++ rest) =
          oscStart ++ payload ++ terminator.bytes ++ rest from rfl, hstate]
      have hdrop : ([0x5D] ++ payload ++ terminator.bytes ++ rest).drop
          (payload.length + 2 + terminator.bytes.length - 1) = rest := by
        apply List.drop_left'
        simp only [List.length_append, List.length_singleton]
        omega
      simp only [hdrop, StreamItem.bytes, List.length_append, oscStart, List.length_cons,
        List.length_nil]
      omega
    · rw [if_neg hrecognized] at hstate
      have hosc : streamingControlState (0x1B :: 0x5D :: (payload ++ terminator.bytes ++ rest)) =
          .unrecognized := hstate
      show completeStreamingControlPrefixLen
        (0x1B :: 0x5D :: (payload ++ terminator.bytes ++ rest)) = _
      rw [completeStreamingControlPrefixLen_of_unrecognized hosc,
        completeStreamingControlPrefixLen_cons (by decide),
        completeStreamingControlPrefixLen_osc_tail h]
      simp only [StreamItem.bytes, List.length_append, oscStart, List.length_cons, List.length_nil]
      omega

/-- Whole items are complete. -/
theorem completeStreamingControlPrefixLen_stream (items : List StreamItem) (rest : List UInt8) :
    completeStreamingControlPrefixLen (streamBytes items ++ rest) =
      (streamBytes items).length + completeStreamingControlPrefixLen rest := by
  induction items with
  | nil => simp
  | cons item items ih =>
    rw [streamBytes_cons, List.append_assoc, completeStreamingControlPrefixLen_item, ih,
      List.length_append]
    omega

/-- The features of an item. -/
def StreamItem.features : StreamItem → TerminalWriteFeatures
  | .osc payload _ _ => controlFeatures (0x5D :: payload)
  | _ => {}

private theorem terminalWriteFeatures_item (item : StreamItem) (rest : List UInt8) :
    terminalWriteFeatures (item.bytes ++ rest) = item.features.or (terminalWriteFeatures rest) := by
  cases item with
  | byte value h => exact terminalWriteFeatures_append (by simpa [StreamItem.bytes] using h) rest
  | escape kind h => exact terminalWriteFeatures_escape h.1 h.2.1 h.2.2.1 h.2.2.2 rest
  | osc payload terminator h =>
    have ⟨first, more, hbytes, hfirst⟩ := terminator_head terminator
    have hcontrol := controlFeatures_append payload hfirst (more ++ rest)
    have hdata : payload ++ first :: (more ++ rest) = payload ++ terminator.bytes ++ rest := by
      rw [hbytes, List.append_assoc, List.cons_append]
    rw [hdata] at hcontrol
    show terminalWriteFeatures (0x1B :: 0x5D :: (payload ++ terminator.bytes ++ rest)) = _
    rw [terminalWriteFeatures, if_pos rfl, hcontrol, terminalWriteFeatures, if_neg (by decide),
      terminalWriteFeatures_osc_tail h]
    rfl

/-- A side effect is what the collector is called for. -/
def StreamItem.isSideEffect : StreamItem → Bool
  | .osc payload _ _ => hasOscPrefix payload sideEffectOscPrefixes
  | _ => false

/-- Only OSC sequences of a stream have features. -/
theorem terminalWriteFeatures_stream (items : List StreamItem) (rest : List UInt8) :
    (terminalWriteFeatures (streamBytes items ++ rest)).tmuxPassthrough =
        (terminalWriteFeatures rest).tmuxPassthrough ∧
      (terminalWriteFeatures (streamBytes items ++ rest)).kittyGraphics =
        (terminalWriteFeatures rest).kittyGraphics ∧
      (terminalWriteFeatures (streamBytes items ++ rest)).oscSideEffect =
        (items.any StreamItem.isSideEffect || (terminalWriteFeatures rest).oscSideEffect) := by
  induction items with
  | nil => exact ⟨rfl, rfl, rfl⟩
  | cons item items ih =>
    have hitem : item.features.tmuxPassthrough = false ∧ item.features.kittyGraphics = false ∧
        item.features.oscSideEffect = item.isSideEffect := by
      cases item with
      | byte value h => exact ⟨rfl, rfl, rfl⟩
      | escape kind h => exact ⟨rfl, rfl, rfl⟩
      | osc payload terminator h =>
        have ⟨htmux, hkitty⟩ := controlFeatures_osc_untouched payload
        exact ⟨htmux, hkitty, controlFeatures_sideEffect payload⟩
    rw [streamBytes_cons, List.append_assoc, terminalWriteFeatures_item]
    simp only [TerminalWriteFeatures.or, hitem, ih, Bool.false_or, List.any_cons, Bool.or_assoc,
      and_self]

/-! ### What ingress finds in a part of an OSC sequence -/

/-- An OSC sequence that is not complete is held back or not recognized. -/
theorem streamingControlState_part {data : List UInt8} (h : findOscTerminator data = none) :
    streamingControlState (oscStart ++ data) = .incomplete ∨
      streamingControlState (oscStart ++ data) = .unrecognized := by
  rw [show oscStart ++ data = 0x1B :: 0x5D :: data from rfl, streamingControlState_osc, h]
  split
  · exact .inl rfl
  · cases oscStreamingPrefixState data with
    | complete len => exact .inl rfl
    | incomplete => exact .inl rfl
    | unrecognized => exact .inr rfl

/-- A part that is not recognized is passed on. -/
theorem completeStreamingControlPrefixLen_part {data : List UInt8} (h : Plain data)
    (hstate : streamingControlState (oscStart ++ data) = .unrecognized) :
    completeStreamingControlPrefixLen (oscStart ++ data) = (oscStart ++ data).length := by
  have hosc : streamingControlState (0x1B :: 0x5D :: data) = .unrecognized := hstate
  show completeStreamingControlPrefixLen (0x1B :: 0x5D :: data) = _
  have hdata := completeStreamingControlPrefixLen_append h.ne_esc []
  rw [List.append_nil, completeStreamingControlPrefixLen_nil] at hdata
  rw [completeStreamingControlPrefixLen_of_unrecognized hosc,
    completeStreamingControlPrefixLen_cons (by decide), hdata]
  simp only [oscStart, List.length_append, List.length_cons, List.length_nil]
  omega

theorem completeStreamingControlPrefixLen_part_esc {data : List UInt8} (h : Plain data)
    (hstate : streamingControlState (oscStart ++ (data ++ [0x1B])) = .unrecognized) :
    completeStreamingControlPrefixLen (oscStart ++ (data ++ [0x1B])) =
      (oscStart ++ data).length := by
  have hosc : streamingControlState (0x1B :: 0x5D :: (data ++ [0x1B])) = .unrecognized := hstate
  show completeStreamingControlPrefixLen (0x1B :: 0x5D :: (data ++ [0x1B])) = _
  rw [completeStreamingControlPrefixLen_of_unrecognized hosc,
    completeStreamingControlPrefixLen_cons (by decide),
    completeStreamingControlPrefixLen_append h.ne_esc, completeStreamingControlPrefixLen_esc]
  simp only [oscStart, List.length_append, List.length_cons, List.length_nil]
  omega

end Bootty.Terminal
