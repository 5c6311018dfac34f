import Bootty.Terminal.WriteVt

/-!
# Cuts of a stream

A stream that is read write by write: the offsets at which writes end, the clipboard packets of
which the last byte matters, and what becomes of a part of an item
(`crates/bootty-terminal/src/terminal_engine/write_ingress.rs:74–98`).
-/

namespace Bootty.Terminal

open Bootty.Base

/-! ### Packets of the greatest size -/

/-- How many bytes of a clipboard packet of the greatest size are before its last one, where the
terminator has two. -/
def limitOffset : Nat := maxPacket + 8

namespace StreamItem

/-- A clipboard packet of exactly the greatest size, with a terminator of two bytes. -/
def atLimit : StreamItem → Bool
  | .osc payload .st _ =>
    (textBytes "5522;").isPrefixOf payload && payload.length == maxPacket + 5
  | _ => false

end StreamItem

/-- The offsets inside the terminators of such packets. -/
def limits (offset : Nat) : List StreamItem → List Nat
  | [] => []
  | item :: items =>
    (if item.atLimit then [offset + limitOffset] else []) ++
      limits (offset + item.bytes.length) items

/-- The offsets at which writes end. -/
def cutOffsets (offset : Nat) : List (List UInt8) → List Nat
  | [] => []
  | chunk :: chunks => (offset + chunk.length) :: cutOffsets (offset + chunk.length) chunks

variable (base64 : Base64Decoders)

/-- What an item does at an offset, where writes end as `cut` tells. -/
def StreamItem.applyCut (cut : Nat → Bool) (offset : Nat) (s : SideEffects) (item : StreamItem) :
    SideEffects :=
  if item.atLimit && cut (offset + limitOffset) then s.push (.clipboardPacket [])
  else item.apply base64 s

/-- What the items of a stream do one after the other. -/
def applyCutStream (cut : Nat → Bool) : Nat → SideEffects → List StreamItem → SideEffects
  | _, s, [] => s
  | offset, s, item :: items =>
    applyCutStream cut (offset + item.bytes.length) (item.applyCut base64 cut offset s) items

/-! ### Offsets -/

variable {payload : List UInt8} {terminator : OscTerminator}

/-- The one command that reaches the limit. -/
theorem atLimit_osc {hplain : Plain payload}
    (h : (StreamItem.osc payload terminator hplain).atLimit = true) :
    terminator = .st ∧ textBytes "5522;" <+: payload ∧ payload.length = maxPacket + 5 := by
  cases terminator with
  | bel => cases h
  | st =>
    simp only [StreamItem.atLimit, Bool.and_eq_true, beq_iff_eq, List.isPrefixOf_iff_prefix] at h
    exact ⟨rfl, h⟩

variable {item : StreamItem}

theorem length_of_atLimit (h : item.atLimit = true) :
    item.bytes.length = limitOffset + 1 := by
  cases item with
  | byte value _ => cases h
  | escape kind _ => cases h
  | osc payload terminator _ =>
    have ⟨hst, _, hlen⟩ := atLimit_osc h
    simp only [StreamItem.bytes, hst, OscTerminator.bytes, oscStart, List.length_append, hlen,
      limitOffset, List.length_cons, List.length_nil]
    omega

variable {offset limit : Nat}

theorem lt_of_mem_limits {items : List StreamItem} (h : limit ∈ limits offset items) :
    offset < limit := by
  induction items generalizing offset with
  | nil => cases h
  | cons item items ih =>
    cases List.mem_append.mp h with
    | inl hitem =>
      split at hitem
      · have hlimit := List.mem_singleton.mp hitem
        simp only [limitOffset] at hlimit
        omega
      · cases hitem
    | inr hrest =>
      have hlt := ih hrest
      omega

/-- The limits of two parts of a stream. -/
theorem mem_limits_append {done todo : List StreamItem} :
    limit ∈ limits offset (done ++ todo) ↔
      limit ∈ limits offset done ∨ limit ∈ limits (offset + (streamBytes done).length) todo := by
  induction done generalizing offset with
  | nil => simp [limits]
  | cons item done ih =>
    simp only [List.cons_append, limits, List.mem_append, ih, streamBytes_cons, List.length_append,
      Nat.add_assoc, or_assoc]

theorem limits_lt {items : List StreamItem} (h : limit ∈ limits offset items) :
    limit < offset + (streamBytes items).length := by
  induction items generalizing offset with
  | nil => cases h
  | cons item items ih =>
    rw [streamBytes_cons, List.length_append]
    cases List.mem_append.mp h with
    | inl hitem =>
      split at hitem
      next hlimit =>
        have hlen := length_of_atLimit hlimit
        have heq := List.mem_singleton.mp hitem
        omega
      · cases hitem
    | inr hrest =>
      have hlt := ih hrest
      omega

/-- Where no write ends inside the terminators, a stream does what it does uncut. -/
theorem applyCutStream_append {cut : Nat → Bool} {s : SideEffects} {done : List StreamItem}
    (h : ∀ limit ∈ limits offset done, cut limit = false) (todo : List StreamItem) :
    applyCutStream base64 cut offset s (done ++ todo) =
      applyCutStream base64 cut (offset + (streamBytes done).length) (applyStream base64 s done)
        todo := by
  induction done generalizing offset s with
  | nil => rfl
  | cons item done ih =>
    have hitem : item.applyCut base64 cut offset s = item.apply base64 s := by
      unfold StreamItem.applyCut
      by_cases hlimit : item.atLimit = true
      · have hcut := h (offset + limitOffset) (by simp [limits, hlimit])
        simp [hcut]
      · simp [hlimit]
    have hrest : ∀ limit ∈ limits (offset + item.bytes.length) done, cut limit = false :=
      fun limit hmem ↦ h limit (List.mem_append_right _ hmem)
    rw [List.cons_append, applyCutStream, hitem, ih hrest, streamBytes_cons, List.length_append,
      Nat.add_assoc]
    rfl

/-! ### Parts of items -/

/-- What becomes of a part of an item: it is held back, or it is passed on as the start of an OSC
sequence that is not recognized or of a clipboard packet that is too long. -/
inductive PartOf (item : StreamItem) (part missing : List UInt8) : Prop
  | held (hlen : completeStreamingControlPrefixLen part = 0)
      (hlimit : item.atLimit = true → part.length < limitOffset)
  | osc (start finish : List UInt8) (terminator : OscTerminator) (hplain : Plain (start ++ finish))
      (hitem : item = .osc (start ++ finish) terminator hplain)
      (hunrecognized : hasOscPrefix (start ++ finish) oscPrefixes = false)
      (htake : part.take (completeStreamingControlPrefixLen part) = oscStart ++ start)
      (hdrop : part.drop (completeStreamingControlPrefixLen part) ++ missing =
        finish ++ terminator.bytes)
  | clipboard (data payload : List UInt8) (terminator : OscTerminator) (hplain : Plain payload)
      (hitem : item = .osc payload terminator hplain)
      (hpayload : textBytes "5522;" <+: payload)
      (hdata : textBytes "5522;" <+: data)
      (hpart : part = oscStart ++ data)
      (hlen : completeStreamingControlPrefixLen part = part.length)
      (hlong : limitOffset ≤ part.length)
      (hcut : OscCut payload terminator data missing)

variable {data missing : List UInt8}

private theorem length_lt_of_short {hplain : Plain payload}
    (hcut : OscCut payload terminator data missing)
    (hshort : ¬ (clipboardStart.isPrefixOf (oscStart ++ data) = true ∧
      maxPacket + 7 < (oscStart ++ data).length))
    (hlimit : (StreamItem.osc payload terminator hplain).atLimit = true) :
    (oscStart ++ data).length < limitOffset := by
  have ⟨_, hclipboard, hpayload⟩ := atLimit_osc hlimit
  cases hcut with
  | payload rest hdata hmissing =>
    have hsum := congrArg List.length hdata
    simp only [List.length_append, oscStart, List.length_cons, List.length_nil, limitOffset]
      at hsum ⊢
    omega
  | terminator hst hdata hmissing =>
    have hstart : textBytes "5522;" <+: data := hclipboard.trans ⟨[0x1B], hdata.symm⟩
    have hpart : clipboardStart.isPrefixOf (oscStart ++ data) = true :=
      List.isPrefixOf_iff_prefix.mpr ((List.prefix_append_right_inj oscStart).mpr hstart)
    by_contra hlong
    apply hshort
    constructor
    · exact hpart
    · simp only [limitOffset] at hlong
      omega

private theorem partOf_unrecognized (hplain : Plain payload)
    (hcut : OscCut payload terminator data missing)
    (hunrecognized : streamingControlState (oscStart ++ data) = .unrecognized) :
    PartOf (.osc payload terminator hplain) (oscStart ++ data) missing := by
  cases hcut with
  | payload rest hpayload hmissing =>
    subst hpayload
    have hlen := completeStreamingControlPrefixLen_part hplain.of_append_left hunrecognized
    apply PartOf.osc data rest terminator hplain rfl
      (not_hasOscPrefix_of_unrecognized hunrecognized rest)
    · rw [hlen, List.take_length]
    · rw [hlen, List.drop_length, List.nil_append, hmissing]
  | terminator hst hdata hmissing =>
    subst hst
    subst hdata
    have hlen := completeStreamingControlPrefixLen_part_esc hplain hunrecognized
    have hpart : oscStart ++ (payload ++ [0x1B]) = (oscStart ++ payload) ++ [0x1B] := by simp
    have hnot : hasOscPrefix (payload ++ [0x1B] ++ []) oscPrefixes = false :=
      not_hasOscPrefix_of_unrecognized hunrecognized []
    have hesc : ∀ start ∈ oscPrefixes, 0x1B ∉ start :=
      fun start hmem hmemEsc ↦ (plain_of_mem_oscPrefixes start hmem _ hmemEsc).1 rfl
    rw [List.append_nil, hasOscPrefix_append hesc] at hnot
    apply PartOf.osc payload [] .st (by simpa using hplain) (by simp)
    · rw [List.append_nil, hnot]
    · rw [hlen, hpart, List.take_left]
    · rw [hlen, hpart, List.drop_left, hmissing]
      rfl

private theorem partOf_osc (hplain : Plain payload) (hcut : OscCut payload terminator data missing)
    :
    PartOf (.osc payload terminator hplain) (oscStart ++ data) missing := by
  cases streamingControlState_part (hcut.findOscTerminator_eq_none hplain) with
  | inr hunrecognized => exact partOf_unrecognized hplain hcut hunrecognized
  | inl hincomplete =>
    have hlen : completeStreamingControlPrefixLen (oscStart ++ data) =
        if clipboardStart.isPrefixOf (oscStart ++ data) ∧ maxPacket + 7 < (oscStart ++ data).length
        then (oscStart ++ data).length else 0 :=
      completeStreamingControlPrefixLen_of_incomplete hincomplete
    split at hlen
    next hlong =>
      -- The packet is too long already: the collector is given it to discard.
      have hdata : textBytes "5522;" <+: data :=
        (List.prefix_append_right_inj oscStart).mp (List.isPrefixOf_iff_prefix.mp hlong.1)
      have hpayload : textBytes "5522;" <+: payload := by
        cases hcut with
        | payload rest hpayload hmissing =>
          exact hpayload ▸ hdata.trans (List.prefix_append data rest)
        | terminator hst hesc hmissing =>
          exact prefix_of_prefix_append (by decide +kernel) (hesc ▸ hdata)
      apply PartOf.clipboard data payload terminator hplain rfl hpayload hdata rfl hlen _ hcut
      have hlt := hlong.2
      simp only [limitOffset]
      omega
    next hshort => exact .held hlen (length_lt_of_short hcut hshort)

/-- An item that is cut. -/
theorem partOf {part : List UInt8} (h : item.bytes = part ++ missing) (hpart : part ≠ [])
    (hmissing : missing ≠ []) : PartOf item part missing := by
  cases item with
  | byte value hvalue =>
    have hlen := congrArg List.length h
    have hpos := List.length_pos_iff.mpr hpart
    have hpos' := List.length_pos_iff.mpr hmissing
    simp only [StreamItem.bytes, List.length_singleton, List.length_append] at hlen
    omega
  | escape kind hkind =>
    have hesc : part = [0x1B] := by
      cases part with
      | nil => exact absurd rfl hpart
      | cons first part =>
        obtain ⟨hfirst, hrest⟩ := List.cons.inj h
        cases part with
        | nil => rw [← hfirst]
        | cons second part =>
          have hnil : part ++ missing = [] := (List.cons.inj hrest).2.symm
          exact absurd (List.append_eq_nil_iff.mp hnil).2 hmissing
    apply PartOf.held
    · rw [hesc, completeStreamingControlPrefixLen_esc]
    · intro hlimit
      cases hlimit
  | osc payload terminator hplain =>
    cases oscCut_of_part h hpart hmissing with
    | inl hesc =>
      apply PartOf.held
      · rw [hesc, completeStreamingControlPrefixLen_esc]
      · rw [hesc]
        intro _
        decide
    | inr hcut =>
      obtain ⟨data, hdata, hosc⟩ := hcut
      rw [hdata]
      exact partOf_osc hplain hosc

/-- The features of a part of a command. -/
theorem terminalWriteFeatures_osc_part
    (h : Plain data ∨ ∃ payload, Plain payload ∧ data = payload ++ [0x1B]) :
    terminalWriteFeatures (oscStart ++ data) = (controlFeatures (0x5D :: data)).or {} := by
  have hrest : terminalWriteFeatures (0x5D :: data) = {} := by
    rw [terminalWriteFeatures, if_neg (by decide)]
    cases h with
    | inl hplain =>
      have hdata := terminalWriteFeatures_append hplain.ne_esc []
      rwa [List.append_nil] at hdata
    | inr hesc =>
      obtain ⟨payload, hplain, hdata⟩ := hesc
      rw [hdata, terminalWriteFeatures_append hplain.ne_esc]
      rfl
  show terminalWriteFeatures (0x1B :: 0x5D :: data) = _
  rw [terminalWriteFeatures, if_pos rfl, hrest]

/-- What is passed on of a part is nothing for tmux and Kitty's graphics. -/
theorem PartOf.untouched {part : List UInt8} (h : PartOf item part missing) :
    (terminalWriteFeatures (part.take (completeStreamingControlPrefixLen part))).tmuxPassthrough =
        false ∧
      (terminalWriteFeatures (part.take (completeStreamingControlPrefixLen part))).kittyGraphics =
        false := by
  have hosc {data : List UInt8}
      (hdata : Plain data ∨ ∃ payload, Plain payload ∧ data = payload ++ [0x1B]) :
      (terminalWriteFeatures (oscStart ++ data)).tmuxPassthrough = false ∧
        (terminalWriteFeatures (oscStart ++ data)).kittyGraphics = false := by
    have ⟨htmux, hkitty⟩ := controlFeatures_osc_untouched data
    rw [terminalWriteFeatures_osc_part hdata]
    simp [TerminalWriteFeatures.or, htmux, hkitty]
  cases h with
  | held hlen hlimit =>
    rw [hlen]
    exact ⟨rfl, rfl⟩
  | osc start finish terminator hplain hitem hunrecognized htake hdrop =>
    rw [htake]
    exact hosc (.inl hplain.of_append_left)
  | clipboard data payload terminator hplain hitem hpayload hdata hpart hlen hlong hcut =>
    rw [hlen, List.take_length, hpart]
    exact hosc (hcut.plain hplain)

end Bootty.Terminal
