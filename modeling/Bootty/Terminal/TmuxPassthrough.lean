import Bootty.Terminal.WriteVt

/-!
# Passthroughs of tmux

A stream of plain bytes and of packets that tmux passes through
(`crates/bootty-terminal/src/terminal_engine/write_ingress.rs:74–98, 216–231, 266–310`): unwrapping
gives back the payloads, and however the stream is cut into writes, what
`TerminalEngine::write_vt` takes of it ends at no byte inside a packet
(`crates/bootty-terminal/src/terminal_engine.rs:1509–1614`).
-/

namespace Bootty.Terminal

open Bootty.Base

/-- Plain bytes without an ESC, or the payload of a packet. -/
inductive TmuxSegment where
  | plain (bytes : List UInt8) (noEscape : 0x1B ∉ bytes)
  | packet (payload : List UInt8)

namespace TmuxSegment

/-- A payload with every ESC doubled. -/
def escape : List UInt8 → List UInt8
  | [] => []
  | byte :: rest => if byte = 0x1B then 0x1B :: 0x1B :: escape rest else byte :: escape rest

/-- What a program writes for a segment. -/
def written : TmuxSegment → List UInt8
  | plain bytes _ => bytes
  | packet payload => tmuxStart ++ escape payload ++ [0x1B, 0x5C]

/-- What a segment stands for. -/
def content : TmuxSegment → List UInt8
  | plain bytes _ => bytes
  | packet payload => payload

/-- `segments` are cut into `front` and `back`, which share at most plain bytes. -/
inductive Cut : List TmuxSegment → List TmuxSegment → List TmuxSegment → Prop
  | start (segments : List TmuxSegment) : Cut segments [] segments
  | cons (segment : TmuxSegment) {segments front back : List TmuxSegment} :
      Cut segments front back → Cut (segment :: segments) (segment :: front) back
  | plain {bytes more : List UInt8} (h : 0x1B ∉ bytes ++ more) (hbytes : 0x1B ∉ bytes)
      (hmore : 0x1B ∉ more) (segments : List TmuxSegment) :
      Cut (plain (bytes ++ more) h :: segments) [plain bytes hbytes] (plain more hmore :: segments)

end TmuxSegment

namespace TerminalEngine

/-- `terminal_engine.rs:1562–1614`: what a write hands over with its passthroughs unwrapped, before
graphics and colours are rewritten. -/
def unwrappedWrite (engine : TerminalEngine) (bytes : List UInt8) : List UInt8 :=
  let canFastWrite := engine.terminalWritePending.isEmpty && !engine.sideEffects.needsInput &&
    !containsTrackedStreamingControl bytes
  let pendingHome := cursorHome.take engine.cursorHomePendingLen
  if canFastWrite then
    match repeatedCursorHomePrefixLen bytes engine.cursorHomePendingLen with
    | some (complete, _) => if 0 < complete then cursorHome else []
    | none => pendingHome ++ bytes
  else
    let writeBytes := (engine.completeStreamingTerminalWrite bytes).1
    if writeBytes.isEmpty then pendingHome
    else if (engine.writeFeatures writeBytes).tmuxPassthrough then
      pendingHome ++ unwrapTmuxPassthroughCommands writeBytes
    else pendingHome ++ writeBytes

/-- What is not held back at each of successive writes. -/
def releases (base64 : Base64Decoders) (engine : TerminalEngine) :
    List (List UInt8) → List (List UInt8)
  | [] => []
  | bytes :: chunks =>
    (engine.completeStreamingTerminalWrite bytes).1 ::
      releases base64 (engine.writeVt base64 bytes) chunks

/-- What successive writes hand over with their passthroughs unwrapped. -/
def unwrappedWrites (base64 : Base64Decoders) (engine : TerminalEngine) :
    List (List UInt8) → List UInt8
  | [] => []
  | bytes :: chunks =>
    engine.unwrappedWrite bytes ++ unwrappedWrites base64 (engine.writeVt base64 bytes) chunks

end TerminalEngine

variable {bytes : List UInt8} {segments : List TmuxSegment}

namespace TmuxSegment

/-! ### Payloads -/

@[simp]
theorem escape_nil : escape [] = [] := rfl

@[simp]
theorem escape_esc (rest : List UInt8) : escape (0x1B :: rest) = 0x1B :: 0x1B :: escape rest := rfl

variable {byte : UInt8}

private theorem escape_cons (h : byte ≠ 0x1B) (rest : List UInt8) :
    escape (byte :: rest) = byte :: escape rest := if_neg h

variable {payload : List UInt8}

private theorem escape_of_notMem (h : 0x1B ∉ payload) :
    escape payload = payload := by
  induction payload with
  | nil => rfl
  | cons byte payload ih =>
    rw [List.mem_cons, not_or] at h
    rw [escape_cons (Ne.symm h.1), ih h.2]

private theorem unescapeTmux_cons (h : byte ≠ 0x1B) (rest : List UInt8) :
    unescapeTmux (byte :: rest) = byte :: unescapeTmux rest := by
  rw [unescapeTmux]
  intro more hbyte
  exact absurd hbyte h

/-- The escapes of a payload are undone. -/
theorem unescapeTmux_escape (payload : List UInt8) : unescapeTmux (escape payload) = payload := by
  induction payload with
  | nil => rfl
  | cons byte payload ih =>
    by_cases hbyte : byte = 0x1B
    · rw [hbyte, escape_esc, unescapeTmux, ih]
    · rw [escape_cons hbyte, unescapeTmux_cons hbyte, ih]

/-! ### Ends of packets -/

private theorem findTmuxPassthroughFrom_cons (h : byte ≠ 0x1B) (cursor : Nat) (escaped : Bool)
    (next : UInt8) (rest : List UInt8) :
    findTmuxPassthroughFrom cursor escaped (byte :: next :: rest) =
      findTmuxPassthroughFrom (cursor + 1) escaped (next :: rest) := by
  rw [findTmuxPassthroughFrom, if_neg h]

/-- A packet ends where its terminator is, and has escapes where its payload has an ESC. -/
theorem findTmuxPassthroughFrom_escape (payload more : List UInt8) (cursor : Nat)
    (escaped : Bool) :
    findTmuxPassthroughFrom cursor escaped (escape payload ++ 0x1B :: 0x5C :: more) =
      some (cursor + (escape payload).length + 2, escaped || decide (0x1B ∈ payload)) := by
  induction payload generalizing cursor escaped with
  | nil => simp [findTmuxPassthroughFrom]
  | cons byte payload ih =>
    by_cases hbyte : byte = 0x1B
    · rw [hbyte, escape_esc, List.cons_append, List.cons_append, findTmuxPassthroughFrom,
        if_pos rfl,
        if_pos rfl, ih]
      simp only [List.length_cons, List.mem_cons, true_or, decide_true, Bool.or_true, Bool.true_or,
        Option.some.injEq, Prod.mk.injEq, and_true]
      omega
    · rw [escape_cons hbyte, List.cons_append]
      have ⟨next, rest, htail⟩ :
          ∃ next rest, escape payload ++ 0x1B :: 0x5C :: more = next :: rest := by
        cases escape payload with
        | nil => exact ⟨_, _, rfl⟩
        | cons next rest => exact ⟨_, _, rfl⟩
      rw [htail, findTmuxPassthroughFrom_cons hbyte, ← htail, ih]
      simp only [List.length_cons, List.mem_cons, Ne.symm hbyte, false_or, Option.some.injEq,
        Prod.mk.injEq, and_true]
      omega

variable {data : List UInt8}

/-- No end is found before the terminator. -/
theorem findTmuxPassthroughFrom_of_short (hdata : data <+: escape payload ++ [0x1B, 0x5C])
    (hlen : data.length < (escape payload).length + 2) (cursor : Nat) (escaped : Bool) :
    findTmuxPassthroughFrom cursor escaped data = none := by
  induction payload generalizing data cursor escaped with
  | nil =>
    have hshort : data.length ≤ 1 := by
      rw [escape_nil] at hlen
      simp only [List.length_nil] at hlen
      omega
    match data, hshort with
    | [], _ => rfl
    | [byte], _ => rfl
  | cons byte payload ih =>
    match data with
    | [] => rfl
    | [first] => rfl
    | first :: next :: rest =>
      by_cases hbyte : byte = 0x1B
      · rw [hbyte, escape_esc, List.cons_append, List.cons_append, List.cons_prefix_cons,
          List.cons_prefix_cons] at hdata
        have ⟨hfirst, hnext, hrest⟩ := hdata
        rw [hfirst, hnext, findTmuxPassthroughFrom, if_pos rfl, if_pos rfl]
        apply ih hrest
        simp only [hbyte, escape_esc, List.length_cons] at hlen
        omega
      · rw [escape_cons hbyte, List.cons_append, List.cons_prefix_cons] at hdata
        rw [hdata.1, findTmuxPassthroughFrom_cons hbyte]
        apply ih hdata.2
        simp only [escape_cons hbyte, List.length_cons] at hlen ⊢
        omega

/-! ### Packets in a stream -/

private theorem tmuxStart_table :
    tmuxStart.length = 7 ∧ tmuxStart = 0x1B :: tmuxStart.tail ∧
    tmuxStart.tail = 0x50 :: textBytes "tmux;" ∧ (textBytes "tmux;").length = 5 ∧
    (∀ start ∈ streamingControlPrefixes, tmuxStart <+: start → start.length = 7) ∧
    ¬ (clipboardStart <+: tmuxStart ∨ tmuxStart <+: clipboardStart) ∧
    cursorHome[0]? = some 0x1B := by
  decide +kernel

private theorem tmuxStart_length : tmuxStart.length = 7 := tmuxStart_table.1

private theorem tmuxStart_cons : tmuxStart = 0x1B :: tmuxStart.tail := tmuxStart_table.2.1

private theorem written_packet_length (payload : List UInt8) :
    (packet payload).written.length = 7 + (escape payload).length + 2 := by
  simp [written, tmuxStart_length, Nat.add_assoc]

private theorem tmuxStart_prefix_written (payload more : List UInt8) :
    tmuxStart <+: (packet payload).written ++ more := by
  simp only [written, List.append_assoc]
  exact List.prefix_append _ _

private theorem findTmuxPassthrough_written (payload more : List UInt8) :
    findTmuxPassthrough ((packet payload).written ++ more) =
      some ((packet payload).written.length, decide (0x1B ∈ payload)) := by
  have hdrop : ((packet payload).written ++ more).drop 7 =
      escape payload ++ 0x1B :: 0x5C :: more := by
    simp only [written, List.append_assoc, List.cons_append, List.nil_append]
    exact List.drop_left' tmuxStart_length
  rw [findTmuxPassthrough, hdrop, findTmuxPassthroughFrom_escape, written_packet_length]
  simp only [Bool.false_or]

private theorem written_packet_append (payload more : List UInt8) :
    (packet payload).written ++ more =
      0x1B :: (tmuxStart.tail ++ escape payload ++ [0x1B, 0x5C] ++ more) := by
  rw [written, tmuxStart_cons]
  rfl

/-- A whole packet is not held back. -/
theorem streamingControlState_written (payload more : List UInt8) :
    streamingControlState ((packet payload).written ++ more) =
      .complete (packet payload).written.length := by
  have hstart := tmuxStart_prefix_written payload more
  have hbegins :
      beginsOscPrefix ((packet payload).written ++ more) streamingControlPrefixes = false := by
    rw [← Bool.not_eq_true, beginsOscPrefix_eq_true]
    intro ⟨start, hmem, hlen, hprefix⟩
    have honly := tmuxStart_table.2.2.2.2.1
    rw [honly start hmem (hstart.trans hprefix), List.length_append, written_packet_length] at hlen
    omega
  rw [streamingControlState, hbegins, List.isPrefixOf_iff_prefix.mpr hstart,
    findTmuxPassthrough_written]
  rfl

/-- A packet that has begun is held back. -/
theorem streamingControlState_of_short (hdata : data <+: (packet payload).written)
    (hlen : data.length < (packet payload).written.length) :
    streamingControlState data = .incomplete := by
  have htmux := tmuxStart_prefix_written payload []
  rw [List.append_nil] at htmux
  by_cases hstart : data.length < 7
  · have hbegins : beginsOscPrefix data streamingControlPrefixes = true := by
      rw [beginsOscPrefix_eq_true]
      refine ⟨tmuxStart, List.mem_cons_self, by rw [tmuxStart_length]; exact hstart, ?_⟩
      apply List.prefix_of_prefix_length_le hdata htmux
      rw [tmuxStart_length]
      omega
    rw [streamingControlState, hbegins]
    rfl
  · have hprefix : tmuxStart <+: data := by
      apply List.prefix_of_prefix_length_le htmux hdata
      rw [tmuxStart_length]
      omega
    have hstarts := List.isPrefixOf_iff_prefix.mpr hprefix
    obtain ⟨rest, hrest⟩ := hprefix
    have hnone : findTmuxPassthrough data = none := by
      rw [← hrest, findTmuxPassthrough, List.drop_left' tmuxStart_length]
      apply findTmuxPassthroughFrom_of_short
      · rw [← hrest, written, List.append_assoc] at hdata
        exact (List.prefix_append_right_inj tmuxStart).mp hdata
      · rw [written_packet_length, ← hrest, List.length_append, tmuxStart_length] at hlen
        omega
    rw [streamingControlState, hstarts, hnone]
    simp only [if_true, ite_self]

private theorem completeStreamingControlPrefixLen_packet (payload more : List UInt8) :
    completeStreamingControlPrefixLen ((packet payload).written ++ more) =
      (packet payload).written.length + completeStreamingControlPrefixLen more := by
  have hlen := congrArg List.length (written_packet_append payload more)
  have hstate := streamingControlState_written payload more
  have hdrop : ((packet payload).written ++ more).drop (packet payload).written.length = more :=
    List.drop_left
  rw [written_packet_append] at hstate hdrop ⊢
  rw [completeStreamingControlPrefixLen, if_pos rfl, hstate]
  have hpos : (packet payload).written.length = (packet payload).written.length - 1 + 1 := by
    rw [written_packet_length]
    omega
  rw [hpos, List.drop_succ_cons] at hdrop
  simp only [hdrop]

private theorem completeStreamingControlPrefixLen_of_short
    (hdata : data <+: (packet payload).written)
    (hlen : data.length < (packet payload).written.length) :
    completeStreamingControlPrefixLen data = 0 := by
  cases data with
  | nil => exact completeStreamingControlPrefixLen_nil
  | cons byte rest =>
    have hstate := streamingControlState_of_short hdata hlen
    have hbyte : byte = 0x1B := by
      have hwhole := written_packet_append payload []
      rw [List.append_nil] at hwhole
      rw [hwhole, List.cons_prefix_cons] at hdata
      exact hdata.1
    rw [hbyte] at hstate hdata ⊢
    have hclipboard : clipboardStart.isPrefixOf (0x1B :: rest) = false := by
      rw [← Bool.not_eq_true, List.isPrefixOf_iff_prefix]
      intro hstart
      have htmux := tmuxStart_prefix_written payload []
      rw [List.append_nil] at htmux
      have hboth := List.prefix_or_prefix_of_prefix (hstart.trans hdata) htmux
      exact tmuxStart_table.2.2.2.2.2.1 hboth
    rw [completeStreamingControlPrefixLen_of_incomplete hstate, hclipboard]
    simp

/-! ### Unwrapping -/

private theorem unwrapTmuxPassthroughCommands_plain (h : 0x1B ∉ bytes) (more : List UInt8) :
    unwrapTmuxPassthroughCommands (bytes ++ more) =
      bytes ++ unwrapTmuxPassthroughCommands more := by
  induction bytes with
  | nil => rfl
  | cons byte bytes ih =>
    rw [List.mem_cons, not_or] at h
    have hstart : ¬ tmuxStart.isPrefixOf (byte :: (bytes ++ more)) = true := by
      rw [List.isPrefixOf_iff_prefix, tmuxStart_cons, List.cons_prefix_cons]
      exact fun hprefix ↦ h.1 hprefix.1
    rw [List.cons_append, unwrapTmuxPassthroughCommands, if_neg hstart, ih h.2, List.cons_append]

private theorem unwrapTmuxPassthroughCommands_packet (payload more : List UInt8) :
    unwrapTmuxPassthroughCommands ((packet payload).written ++ more) =
      payload ++ unwrapTmuxPassthroughCommands more := by
  have hstart := List.isPrefixOf_iff_prefix.mpr (tmuxStart_prefix_written payload more)
  have hfind := findTmuxPassthrough_written payload more
  have hdrop : ((packet payload).written ++ more).drop (packet payload).written.length = more :=
    List.drop_left
  have htake : (((packet payload).written ++ more).take ((packet payload).written.length - 2)).drop
      tmuxStart.length = escape payload := by
    have hlen : (packet payload).written.length - 2 = (tmuxStart ++ escape payload).length := by
      rw [written_packet_length, List.length_append, tmuxStart_length]
      omega
    have hwhole : (packet payload).written ++ more =
        (tmuxStart ++ escape payload) ++ ([0x1B, 0x5C] ++ more) := by
      simp only [written, List.append_assoc]
    rw [hlen, hwhole, List.take_left, List.drop_left]
  have hpos : (packet payload).written.length = (packet payload).written.length - 1 + 1 := by
    rw [written_packet_length]
    omega
  have hescape :
      (if decide (0x1B ∈ payload) = true then unescapeTmux (escape payload) else escape payload) =
        payload := by
    by_cases hmem : 0x1B ∈ payload
    · rw [if_pos (decide_eq_true hmem), unescapeTmux_escape]
    · rw [if_neg (by simpa using hmem), escape_of_notMem hmem]
  rw [written_packet_append] at hstart hfind hdrop htake ⊢
  rw [hpos, List.drop_succ_cons] at hdrop
  rw [unwrapTmuxPassthroughCommands, if_pos hstart, hfind]
  simp only [htake, hescape, hdrop]

/-- Unwrapping gives back what the segments stand for. -/
theorem unwrapTmuxPassthroughCommands_append (segments : List TmuxSegment) (more : List UInt8) :
    unwrapTmuxPassthroughCommands (segments.flatMap written ++ more) =
      segments.flatMap content ++ unwrapTmuxPassthroughCommands more := by
  induction segments with
  | nil => rfl
  | cons segment segments ih =>
    rw [List.flatMap_cons, List.flatMap_cons, List.append_assoc, List.append_assoc]
    cases segment with
    | plain bytes noEscape =>
      rw [written, content, unwrapTmuxPassthroughCommands_plain noEscape, ih]
    | packet payload => rw [unwrapTmuxPassthroughCommands_packet, content, ih]

private theorem unwrapTmuxPassthroughCommands_written (segments : List TmuxSegment) :
    unwrapTmuxPassthroughCommands (segments.flatMap written) = segments.flatMap content := by
  have h := unwrapTmuxPassthroughCommands_append segments []
  rw [unwrapTmuxPassthroughCommands, List.append_nil, List.append_nil] at h
  exact h

/-! ### Cuts -/

variable {front back : List TmuxSegment}

private theorem Cut.written_append (h : Cut segments front back) :
    segments.flatMap written = front.flatMap written ++ back.flatMap written := by
  induction h with
  | start segments => rfl
  | cons segment _ ih => rw [List.flatMap_cons, List.flatMap_cons, ih, List.append_assoc]
  | plain h hbytes hmore segments => simp [written]

private theorem Cut.content_append (h : Cut segments front back) :
    segments.flatMap content = front.flatMap content ++ back.flatMap content := by
  induction h with
  | start segments => rfl
  | cons segment _ ih => rw [List.flatMap_cons, List.flatMap_cons, ih, List.append_assoc]
  | plain h hbytes hmore segments => simp [content]

/-- What is cut off the rest of a cut is cut off the whole, too. -/
theorem Cut.then {front' back' : List TmuxSegment} (h : Cut segments front back)
    (h' : Cut back front' back') :
    ∃ whole, Cut segments whole back' ∧
      whole.flatMap written = front.flatMap written ++ front'.flatMap written := by
  induction h with
  | start segments => exact ⟨front', h', rfl⟩
  | cons segment _ ih =>
    have ⟨whole, hcut, hwritten⟩ := ih h'
    refine ⟨segment :: whole, .cons segment hcut, ?_⟩
    rw [List.flatMap_cons, List.flatMap_cons, hwritten, List.append_assoc]
  | @plain bytes more h hbytes hmore segments =>
    cases h' with
    | start => exact ⟨_, .plain h hbytes hmore segments, by simp⟩
    | cons _ hrest => exact ⟨_, .cons _ hrest, by simp [written]⟩
    | @plain bytes' more' _ hbytes' hmore' =>
      have hfront : 0x1B ∉ bytes ++ bytes' := by
        rw [List.mem_append, not_or]
        exact ⟨hbytes, hbytes'⟩
      simp only [← List.append_assoc]
      exact ⟨_, .plain (by rw [List.append_assoc]; exact h) hfront hmore' segments,
        by simp [written]⟩

private theorem completeStreamingControlPrefixLen_written (segments : List TmuxSegment)
    (more : List UInt8) :
    completeStreamingControlPrefixLen (segments.flatMap written ++ more) =
      (segments.flatMap written).length + completeStreamingControlPrefixLen more := by
  induction segments with
  | nil => simp
  | cons segment segments ih =>
    rw [List.flatMap_cons, List.append_assoc, List.length_append, Nat.add_assoc, ← ih]
    cases segment with
    | plain bytes noEscape =>
      rw [written, completeStreamingControlPrefixLen_append]
      intro byte hmem hbyte
      exact noEscape (hbyte ▸ hmem)
    | packet payload => rw [completeStreamingControlPrefixLen_packet]

/-- What is not held back of a beginning of a stream ends at no byte inside a packet. -/
theorem cut_of_prefix {rest : List UInt8} (h : data ++ rest = segments.flatMap written) :
    ∃ front back, Cut segments front back ∧
      data.take (completeStreamingControlPrefixLen data) = front.flatMap written := by
  induction segments generalizing data with
  | nil =>
    have hdata : data = [] := (List.append_eq_nil_iff.mp h).1
    rw [hdata]
    exact ⟨[], [], .start [], by simp⟩
  | cons segment segments ih =>
    rw [List.flatMap_cons] at h
    by_cases hlen : data.length < segment.written.length
    · have hprefix : data <+: segment.written :=
        List.prefix_of_prefix_length_le ⟨rest, h⟩ (List.prefix_append _ _) (Nat.le_of_lt hlen)
      cases segment with
      | plain bytes noEscape =>
        have ⟨more, hmore⟩ := hprefix
        change data ++ more = bytes at hmore
        subst hmore
        have hboth : 0x1B ∉ data ∧ 0x1B ∉ more := by
          rw [List.mem_append, not_or] at noEscape
          exact noEscape
        have hcomplete := @completeStreamingControlPrefixLen_append data
          (fun byte hmem hbyte ↦ hboth.1 (hbyte ▸ hmem)) []
        rw [List.append_nil, completeStreamingControlPrefixLen_nil, Nat.add_zero] at hcomplete
        refine ⟨_, _, .plain noEscape hboth.1 hboth.2 segments, ?_⟩
        rw [hcomplete, List.take_length]
        simp [written]
      | packet payload =>
        refine ⟨[], _, .start _, ?_⟩
        rw [completeStreamingControlPrefixLen_of_short hprefix hlen]
        rfl
    · have ⟨tail, htail⟩ : segment.written <+: data :=
        List.prefix_of_prefix_length_le (List.prefix_append _ _) ⟨rest, h⟩ (by omega)
      rw [← htail, List.append_assoc, List.append_cancel_left_eq] at h
      have ⟨front, back, hcut, htake⟩ := ih h
      refine ⟨segment :: front, back, .cons segment hcut, ?_⟩
      have hcomplete := completeStreamingControlPrefixLen_written [segment] tail
      rw [List.flatMap_singleton] at hcomplete
      rw [← htail, hcomplete, List.take_length_add_append, htake, List.flatMap_cons]

private theorem terminalWriteFeatures_packet (payload more : List UInt8) :
    (terminalWriteFeatures ((packet payload).written ++ more)).tmuxPassthrough = true := by
  have ⟨_, _, hkind, hfive, _⟩ := tmuxStart_table
  rw [written_packet_append, hkind, terminalWriteFeatures, if_pos rfl]
  simp only [List.cons_append, List.append_assoc, controlFeatures, if_true,
    List.take_left' hfive, beq_self_eq_true, TerminalWriteFeatures.or, Bool.true_or]

/-- A stream without the mark of a passthrough has no packets. -/
theorem content_eq_written {segments : List TmuxSegment}
    (h : (terminalWriteFeatures (segments.flatMap written)).tmuxPassthrough = false) :
    segments.flatMap content = segments.flatMap written ∧ 0x1B ∉ segments.flatMap written := by
  induction segments with
  | nil => exact ⟨rfl, List.not_mem_nil⟩
  | cons segment segments ih =>
    rw [List.flatMap_cons] at h
    cases segment with
    | packet payload =>
      rw [terminalWriteFeatures_packet] at h
      cases h
    | plain bytes noEscape =>
      have hplain : ∀ byte ∈ bytes, byte ≠ 0x1B := fun byte hmem hbyte ↦ noEscape (hbyte ▸ hmem)
      rw [written, terminalWriteFeatures_append hplain] at h
      have ⟨hcontent, hrest⟩ := ih h
      rw [List.flatMap_cons, List.flatMap_cons, hcontent, written, content, List.mem_append, not_or]
      exact ⟨rfl, noEscape, hrest⟩

end TmuxSegment

namespace TerminalEngine

open TmuxSegment

/-! ### Writes -/

variable {base64 : Base64Decoders} {engine : TerminalEngine}

/-- Whether a write holds no control that is tracked and nothing is held back. -/
private def fast (engine : TerminalEngine) (bytes : List UInt8) : Bool :=
  engine.terminalWritePending.isEmpty && !engine.sideEffects.needsInput &&
    !containsTrackedStreamingControl bytes

private theorem fields_of_not_fast (base64 : Base64Decoders) (h : engine.fast bytes = false) :
    (engine.writeVt base64 bytes).terminalWritePending =
        (engine.completeStreamingTerminalWrite bytes).2.terminalWritePending ∧
      (engine.writeVt base64 bytes).cursorHomePendingLen = 0 := by
  unfold fast at h
  rw [completeStreamingTerminalWrite_eq]
  unfold writeVt
  simp only [h, Bool.false_eq_true, if_false, completeStreamingTerminalWrite_eq]
  split
  · exact ⟨rfl, rfl⟩
  · split
    · exact ⟨rfl, rfl⟩
    · split <;> split <;> exact ⟨rfl, rfl⟩

/-- Every write holds back what is not complete. -/
theorem writeVt_terminalWritePending (base64 : Base64Decoders) (engine : TerminalEngine)
    (bytes : List UInt8) :
    (engine.writeVt base64 bytes).terminalWritePending =
      (engine.completeStreamingTerminalWrite bytes).2.terminalWritePending := by
  cases hfast : engine.fast bytes with
  | false => exact (fields_of_not_fast base64 hfast).1
  | true =>
    rw [(writeVt_of_fast base64 hfast).1, completeStreamingTerminalWrite_eq]
    simp only [fast, Bool.and_eq_true, Bool.not_eq_true', List.isEmpty_iff] at hfast
    simp only [hfast.1.1, List.nil_append, (complete_of_not_containsTracked hfast.2).1,
      List.drop_length]

private theorem repeatedCursorHomePrefixLen_of_notMem (h : 0x1B ∉ bytes) :
    repeatedCursorHomePrefixLen bytes 0 = if bytes = [] then some (0, 0) else none := by
  cases bytes with
  | nil => rfl
  | cons byte rest =>
    rw [List.mem_cons, not_or] at h
    have hhome := tmuxStart_table.2.2.2.2.2.2
    have hne : some byte ≠ cursorHome[0]? := by
      rw [hhome, ne_eq, Option.some.injEq]
      exact Ne.symm h.1
    rw [repeatedCursorHomePrefixLen, if_pos hne, if_neg (List.cons_ne_nil byte rest)]

private theorem unwrappedWrite_of_fast (base64 : Base64Decoders) (hfast : engine.fast bytes = true)
    (hbytes : 0x1B ∉ bytes) (hhome : engine.cursorHomePendingLen = 0) :
    engine.unwrappedWrite bytes = bytes ∧
      (engine.writeVt base64 bytes).cursorHomePendingLen = 0 := by
  have hrepeated := repeatedCursorHomePrefixLen_of_notMem hbytes
  unfold fast at hfast
  unfold unwrappedWrite writeVt tryWriteRepeatedCursorHome
  simp only [hfast, if_true, hhome, hrepeated]
  by_cases hempty : bytes = []
  · simp [hempty]
  · simp [hempty]

/-- One write hands over whole segments and holds back the beginning of a packet. -/
theorem unwrappedWrite_of_cut (base64 : Base64Decoders) {rest : List UInt8}
    (hhome : engine.cursorHomePendingLen = 0)
    (h : engine.terminalWritePending ++ bytes ++ rest = segments.flatMap written) :
    ∃ front back, Cut segments front back ∧
      (engine.completeStreamingTerminalWrite bytes).1 = front.flatMap written ∧
      engine.unwrappedWrite bytes = front.flatMap content ∧
      (engine.writeVt base64 bytes).terminalWritePending ++ rest = back.flatMap written ∧
      completeStreamingControlPrefixLen (engine.writeVt base64 bytes).terminalWritePending = 0 ∧
      (engine.writeVt base64 bytes).cursorHomePendingLen = 0 := by
  have ⟨front, back, hcut, htake⟩ := cut_of_prefix h
  have hpending := writeVt_terminalWritePending base64 engine bytes
  simp only [completeStreamingTerminalWrite_eq] at hpending
  have hreleased : (engine.completeStreamingTerminalWrite bytes).1 = front.flatMap written := by
    rw [completeStreamingTerminalWrite_eq]
    exact htake
  have hsplit := List.take_append_drop
    (completeStreamingControlPrefixLen (engine.terminalWritePending ++ bytes))
    (engine.terminalWritePending ++ bytes)
  rw [htake, ← hpending] at hsplit
  have hrest : (engine.writeVt base64 bytes).terminalWritePending ++ rest =
      back.flatMap written := by
    rw [← hsplit, hcut.written_append, List.append_assoc, List.append_cancel_left_eq] at h
    exact h
  have hheld : completeStreamingControlPrefixLen
      (engine.writeVt base64 bytes).terminalWritePending = 0 := by
    have hlen := congrArg List.length htake
    rw [List.length_take, ← hsplit, completeStreamingControlPrefixLen_written,
      List.length_append] at hlen
    by_cases hnil : (engine.writeVt base64 bytes).terminalWritePending.length = 0
    · rw [List.length_eq_zero_iff.mp hnil, completeStreamingControlPrefixLen_nil]
    · omega
  refine ⟨front, back, hcut, hreleased, ?_⟩
  cases hfast : engine.fast bytes with
  | true =>
    have hbytes : front.flatMap written = bytes := by
      rw [← hreleased, completeStreamingTerminalWrite_eq]
      simp only [fast, Bool.and_eq_true, Bool.not_eq_true', List.isEmpty_iff] at hfast
      simp only [hfast.1.1, List.nil_append, (complete_of_not_containsTracked hfast.2).1,
        List.take_length]
    have hfeatures : (terminalWriteFeatures (front.flatMap written)).tmuxPassthrough = false := by
      simp only [fast, Bool.and_eq_true, Bool.not_eq_true'] at hfast
      rw [hbytes, (complete_of_not_containsTracked hfast.2).2]
    have ⟨hcontent, hplain⟩ := content_eq_written hfeatures
    rw [hbytes] at hcontent hplain
    have ⟨hunwrapped, hhome'⟩ := unwrappedWrite_of_fast base64 hfast hplain hhome
    exact ⟨by rw [hunwrapped, hcontent], hrest, hheld, hhome'⟩
  | false =>
    refine ⟨?_, hrest, hheld, (fields_of_not_fast base64 hfast).2⟩
    unfold fast at hfast
    unfold unwrappedWrite
    simp only [hfast, Bool.false_eq_true, if_false, hreleased, hhome, List.take_zero,
      List.nil_append]
    by_cases hempty : (front.flatMap written).isEmpty = true
    · have hnil := List.isEmpty_iff.mp hempty
      have hcontent := @content_eq_written front (by rw [hnil]; rfl)
      rw [if_pos hempty, hcontent.1, hnil]
    · have hsame : (engine.writeFeatures (front.flatMap written)).tmuxPassthrough =
          (terminalWriteFeatures (front.flatMap written)).tmuxPassthrough := by
        unfold writeFeatures
        split <;> rfl
      rw [if_neg hempty, hsame, unwrapTmuxPassthroughCommands_written]
      cases hfeatures : (terminalWriteFeatures (front.flatMap written)).tmuxPassthrough with
      | true => rfl
      | false => simp [content_eq_written hfeatures]

/-- Successive writes hand over whole segments. -/
theorem unwrappedWrites_of_cut {chunks : List (List UInt8)}
    (hhome : engine.cursorHomePendingLen = 0)
    (hheld : completeStreamingControlPrefixLen engine.terminalWritePending = 0)
    (h : engine.terminalWritePending ++ chunks.flatten = segments.flatMap written) :
    (∀ count, ∃ front back, Cut segments front back ∧
        ((engine.releases base64 chunks).take count).flatten = front.flatMap written) ∧
      engine.unwrappedWrites base64 chunks = segments.flatMap content := by
  induction chunks generalizing engine segments with
  | nil =>
    rw [List.flatten_nil, List.append_nil] at h
    have hlen := completeStreamingControlPrefixLen_written segments []
    rw [List.append_nil, ← h, hheld, completeStreamingControlPrefixLen_nil, Nat.add_zero] at hlen
    have hnil : segments.flatMap written = [] := by
      rw [← h]
      exact List.length_eq_zero_iff.mp hlen.symm
    constructor
    · exact fun count ↦ ⟨[], segments, .start segments, by simp [releases]⟩
    · rw [unwrappedWrites, (content_eq_written (by rw [hnil]; rfl)).1, hnil]
  | cons bytes chunks ih =>
    rw [List.flatten_cons, ← List.append_assoc] at h
    have ⟨front, back, hcut, hreleased, hunwrapped, hrest, hheld', hhome'⟩ :=
      unwrappedWrite_of_cut base64 hhome h
    have ⟨hreleases, hwrites⟩ := ih hhome' hheld' hrest
    constructor
    · intro count
      cases count with
      | zero => exact ⟨[], segments, .start segments, rfl⟩
      | succ count =>
        have ⟨front', back', hcut', hreleased'⟩ := hreleases count
        have ⟨whole, hwhole, hwritten⟩ := hcut.then hcut'
        refine ⟨whole, back', hwhole, ?_⟩
        rw [releases, List.take_succ_cons, List.flatten_cons, hreleased, hreleased', hwritten]
    · rw [unwrappedWrites, hunwrapped, hwrites, hcut.content_append]

/-- A stream of plain bytes and packets is unwrapped to what it stands for. However it is cut into
writes, no write takes it up to a byte inside a packet, and all of them together hand over the
same. -/
theorem unwrappedWrites_eq_content {segments : List TmuxSegment} {chunks : List (List UInt8)}
    (hpending : engine.terminalWritePending = []) (hhome : engine.cursorHomePendingLen = 0)
    (hcut : chunks.flatten = segments.flatMap written) :
    unwrapTmuxPassthroughCommands (segments.flatMap written) = segments.flatMap content ∧
      (∀ count, ∃ front back, Cut segments front back ∧
        ((engine.releases base64 chunks).take count).flatten = front.flatMap written) ∧
      engine.unwrappedWrites base64 chunks = segments.flatMap content := by
  constructor
  · exact unwrapTmuxPassthroughCommands_written segments
  · apply unwrappedWrites_of_cut hhome
    · rw [hpending, completeStreamingControlPrefixLen_nil]
    · rw [hpending, List.nil_append, hcut]

/-- A payload that holds a terminator and ends in an ESC, cut into single bytes. -/
theorem unwrappedWrites_eq_content_sample :
    ∃ segments : List TmuxSegment,
      segments.flatMap content = [0x61, 0x1B, 0x5C, 0x62, 0x1B] ∧
        TerminalEngine.new.unwrappedWrites .engines
          ((segments.flatMap written).map fun byte ↦ [byte]) = segments.flatMap content :=
  ⟨[.plain [0x61] (by decide), .packet [0x1B, 0x5C, 0x62, 0x1B]], rfl,
    (unwrappedWrites_eq_content rfl rfl (by rw [← List.flatMap_def, List.flatMap_singleton'])).2.2⟩

end TerminalEngine
end Bootty.Terminal
