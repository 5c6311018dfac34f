import Bootty.Terminal.Delivery

/-!
# Writes of a stream

What an engine has done of a stream after some writes, wherever the last one ended: it is at the
start of an item or inside one, and the items that are ahead lead from what the collector has
pushed to one result (`crates/bootty-terminal/src/terminal_engine.rs:1509–1641`).
-/

namespace Bootty.Terminal

open Bootty.Base
open TerminalSideEffectCollector

variable {base64 : Base64Decoders}

/-! ### What an engine has done of a stream -/

/-- The items from `offset` on are ahead of what was read, and lead from `s` to `target`. -/
structure Ahead (base64 : Base64Decoders) (cut : Nat → Bool) (target : SideEffects) (read : Nat)
    (unread : List UInt8) (offset : Nat) (items : List StreamItem) (s : SideEffects) : Prop where
  total : read + unread.length = offset + (streamBytes items).length
  limits : ∀ limit ∈ limits offset items, read < limit
  target : applyCutStream base64 cut offset s items = target

/-- The engine is at the start of an item, of which it holds back a part; inside an OSC sequence
that is not recognized, whose start the collector may not have seen; or inside a clipboard packet
that is too long. -/
inductive Follows (base64 : Base64Decoders) (cut : Nat → Bool) (target : SideEffects) (read : Nat)
    (engine : TerminalEngine) (unread : List UInt8) : Prop
  | item (offset : Nat) (items : List StreamItem) (s : SideEffects)
      (hunread : engine.terminalWritePending ++ unread = streamBytes items)
      (hend : unread = [] → items = [])
      (hcollector : engine.sideEffects = ⟨[], false, s⟩)
      (hahead : Ahead base64 cut target read unread offset items s)
  | osc (start finish : List UInt8) (terminator : OscTerminator) (offset : Nat)
      (items : List StreamItem) (s : SideEffects)
      (hunread : engine.terminalWritePending ++ unread =
        finish ++ terminator.bytes ++ streamBytes items)
      (hend : unread ≠ [])
      (hplain : Plain (start ++ finish))
      (hunrecognized : hasOscPrefix (start ++ finish) oscPrefixes = false)
      (hcollector : engine.sideEffects = ⟨oscStart ++ start, false, s⟩ ∨
        engine.sideEffects = ⟨[], false, s⟩ ∧ s.itermCopyCapture = none)
      (hahead : Ahead base64 cut target read unread offset items s)
  | discard (finish : List UInt8) (terminator : OscTerminator) (offset : Nat)
      (items : List StreamItem) (s : SideEffects)
      (hunread : engine.terminalWritePending ++ unread =
        finish ++ terminator.bytes ++ streamBytes items)
      (hend : unread ≠ [])
      (hplain : Plain finish)
      (hcollector : engine.sideEffects = ⟨[], true, s⟩)
      (hahead : Ahead base64 cut target read unread offset items s)
  | discardEscape (offset : Nat) (items : List StreamItem) (s : SideEffects)
      (hpending : engine.terminalWritePending = [])
      (hunread : unread = 0x5C :: streamBytes items)
      (hcollector : engine.sideEffects = ⟨[0x1B], true, s⟩)
      (hahead : Ahead base64 cut target read unread offset items s)

variable {cut : Nat → Bool} {target : SideEffects} {read : Nat} {unread : List UInt8}
  {engine : TerminalEngine}

/-! ### After whole items and a part of the next one -/

variable {offset : Nat} {rest : List StreamItem} {part missing : List UInt8}

private theorem limits_of_part {item : StreamItem} (hbytes : item.bytes = part ++ missing)
    (hread : read = offset + part.length) :
    ∀ limit ∈ limits (offset + item.bytes.length) rest, read < limit := by
  intro limit hmem
  have hlt := lt_of_mem_limits hmem
  rw [hbytes, List.length_append] at hlt
  omega

variable {payload : List UInt8}

private theorem applyCut_of_unrecognized (h : hasOscPrefix payload oscPrefixes = false)
    (terminator : OscTerminator) (hplain : Plain payload) (offset : Nat) (s : SideEffects) :
    (StreamItem.osc payload terminator hplain).applyCut base64 cut offset s = s := by
  have hlimit : (StreamItem.osc payload terminator hplain).atLimit = false := by
    rw [← Bool.not_eq_true]
    intro hlimit
    have hmem : textBytes "5522;" ∈ oscPrefixes := by decide +kernel
    rw [hasOscPrefix_of_mem hmem (atLimit_osc hlimit).2.1] at h
    cases h
  unfold StreamItem.applyCut
  rw [hlimit]
  exact SideEffects.pushOscSideEffect_of_not_hasOscPrefix base64 s (hasOscPrefix_sideEffect h)

variable {terminator : OscTerminator}

private theorem applyCut_of_long {data : List UInt8} {hplain : Plain payload}
    (hpayload : textBytes "5522;" <+: payload) (hlong : limitOffset ≤ (oscStart ++ data).length)
    (hosc : OscCut payload terminator data missing)
    (hread : read = offset + (oscStart ++ data).length)
    (hcut : read ∈ limits offset (.osc payload terminator hplain :: rest) → cut read = true)
    (s : SideEffects) :
    (StreamItem.osc payload terminator hplain).applyCut base64 cut offset s =
      s.push (.clipboardPacket []) := by
  obtain ⟨clipboard, hclipboard⟩ := hpayload
  have hlen := congrArg List.length hclipboard
  have hstart : (textBytes "5522;").length = 5 := by decide +kernel
  simp only [List.length_append, oscStart, List.length_cons, List.length_nil, hstart,
    limitOffset] at hlen hlong hread
  unfold StreamItem.applyCut
  by_cases hlimit : (StreamItem.osc payload terminator hplain).atLimit = true
  · obtain ⟨_, _, hpacket⟩ := atLimit_osc hlimit
    have hoffset : read = offset + limitOffset := by
      cases hosc with
      | payload rest hsplit hmissing =>
        have hsum := congrArg List.length hsplit
        rw [List.length_append] at hsum
        omega
      | terminator hst hdata hmissing =>
        have hsum := congrArg List.length hdata
        simp only [List.length_append, List.length_singleton] at hsum
        simp only [limitOffset]
        omega
    have hmem : read ∈ limits offset (.osc payload terminator hplain :: rest) := by
      simp [limits, hlimit, hoffset]
    rw [hlimit, ← hoffset, hcut hmem]
    rfl
  · have hoversize : ¬ clipboard.length ≤ maxPacket := by
      cases hosc with
      | payload rest hsplit hmissing =>
        have hsum := congrArg List.length hsplit
        rw [List.length_append] at hsum
        omega
      | terminator hst hdata hmissing =>
        have hsum := congrArg List.length hdata
        simp only [List.length_append, List.length_singleton] at hsum
        intro hle
        apply hlimit
        subst hst
        simp only [StreamItem.atLimit, Bool.and_eq_true, beq_iff_eq, List.isPrefixOf_iff_prefix]
        constructor
        · exact ⟨clipboard, hclipboard⟩
        · omega
    simp only [Bool.not_eq_true] at hlimit
    simp only [hlimit, Bool.false_and, Bool.false_eq_true, if_false, StreamItem.apply]
    rw [← hclipboard, SideEffects.pushOscSideEffect_clipboard, if_neg hoversize]

variable {items : List StreamItem} {s : SideEffects}

private theorem follows_item (hunread : part ++ unread = streamBytes items)
    (hend : unread = [] → items = []) (hlen : completeStreamingControlPrefixLen part = 0)
    (hahead : Ahead base64 cut target read unread offset items s)
    (hpending : engine.terminalWritePending =
      part.drop (completeStreamingControlPrefixLen part))
    (hcollector : Delivered base64 s (part.take (completeStreamingControlPrefixLen part))
      engine.sideEffects) :
    Follows base64 cut target read engine unread := by
  rw [hlen] at hpending hcollector
  apply Follows.item offset items s _ hend _ hahead
  · rw [hpending]
    exact hunread
  · cases hcollector with
    | inl hcollect => exact hcollect.trans (collectFrom_nil s)
    | inr hskip => exact hskip.1

variable {finish : List UInt8}

private theorem follows_unrecognized {start : List UInt8} (hplain : Plain (start ++ finish))
    (hunrecognized : hasOscPrefix (start ++ finish) oscPrefixes = false)
    (hrest : unread = missing ++ streamBytes rest) (hmissing : missing ≠ [])
    (hahead : Ahead base64 cut target read unread offset rest s)
    (hpending : engine.terminalWritePending ++ missing = finish ++ terminator.bytes)
    (hcollector : Delivered base64 s (oscStart ++ start) engine.sideEffects) :
    Follows base64 cut target read engine unread := by
  apply Follows.osc start finish terminator offset rest s _ _ hplain hunrecognized _ hahead
  · rw [hrest, ← List.append_assoc, hpending]
  · rw [hrest]
    exact List.append_ne_nil_of_left_ne_nil hmissing _
  · cases hcollector with
    | inl hcollect =>
      exact .inl (hcollect.trans (collectFrom_unrecognized hplain.of_append_left hunrecognized s))
    | inr hskip => exact .inr ⟨hskip.1, hskip.2.1⟩

private theorem follows_clipboard {data : List UInt8} (hplain : Plain payload)
    (hosc : OscCut payload terminator data missing) (hdata : textBytes "5522;" <+: data)
    (hlong : limitOffset ≤ (oscStart ++ data).length) (hrest : unread = missing ++ streamBytes rest)
    (hmissing : missing ≠ [])
    (hahead : Ahead base64 cut target read unread offset rest (s.push (.clipboardPacket [])))
    (hpending : engine.terminalWritePending = [])
    (hcollector : Delivered base64 s (oscStart ++ data) engine.sideEffects) :
    Follows base64 cut target read engine unread := by
  have hdiscard := delivered_clipboard hplain hosc hdata hlong hcollector
  cases hosc with
  | payload finish hsplit htail =>
    subst hsplit
    rw [lastEscape_osc hplain.of_append_left] at hdiscard
    apply Follows.discard finish terminator offset rest _ _ _ hplain.of_append_right hdiscard hahead
    · rw [hpending, hrest, htail, List.nil_append]
    · rw [hrest]
      exact List.append_ne_nil_of_left_ne_nil hmissing _
  | terminator hst hend htail =>
    have hlast : lastEscape (oscStart ++ data) = [0x1B] := by
      rw [hend, ← List.append_assoc, lastEscape_append_esc]
    rw [hlast] at hdiscard
    apply Follows.discardEscape offset rest _ hpending _ hdiscard hahead
    rw [hrest, htail]
    rfl

private theorem follows_part (hunread : part ++ unread = streamBytes items)
    (hpart : part = [] ∨ ∃ item rest missing, items = item :: rest ∧
      item.bytes = part ++ missing ∧ part ≠ [] ∧ missing ≠ []) (hread : read = offset + part.length)
    (hcut : read ∈ limits offset items → cut read = true)
    (htarget : applyCutStream base64 cut offset s items = target)
    (hpending : engine.terminalWritePending =
      part.drop (completeStreamingControlPrefixLen part))
    (hcollector : Delivered base64 s (part.take (completeStreamingControlPrefixLen part))
      engine.sideEffects) :
    Follows base64 cut target read engine unread := by
  have htotal : read + unread.length = offset + (streamBytes items).length := by
    rw [← hunread, List.length_append]
    omega
  cases hpart with
  | inl hempty =>
    subst hempty
    have hahead : Ahead base64 cut target read unread offset items s := by
      constructor
      · exact htotal
      · intro limit hmem
        rw [hread]
        exact lt_of_mem_limits hmem
      · exact htarget
    apply follows_item hunread _ completeStreamingControlPrefixLen_nil hahead hpending hcollector
    intro hend
    rw [hend] at hunread
    exact streamBytes_eq_nil hunread.symm
  | inr hitem =>
    have ⟨item, rest, missing, hitems, hbytes, hne, hmissing⟩ := hitem
    subst hitems
    have hafter : ∀ limit ∈ limits (offset + item.bytes.length) rest, read < limit :=
      limits_of_part hbytes hread
    have hrest : unread = missing ++ streamBytes rest := by
      rw [streamBytes_cons, hbytes, List.append_assoc] at hunread
      exact List.append_cancel_left hunread
    have hlen : read + unread.length =
        offset + item.bytes.length + (streamBytes rest).length := by
      rw [htotal, streamBytes_cons, List.length_append]
      omega
    cases partOf hbytes hne hmissing with
    | held hheld hlimit =>
      have hend : unread ≠ [] := by
        rw [hrest]
        exact List.append_ne_nil_of_left_ne_nil hmissing _
      have hahead : Ahead base64 cut target read unread offset (item :: rest) s := by
        constructor
        · exact htotal
        · intro limit hmem
          cases List.mem_append.mp hmem with
          | inl hfirst =>
            split at hfirst
            next hatLimit =>
              have hshort := hlimit hatLimit
              have heq := List.mem_singleton.mp hfirst
              omega
            · cases hfirst
          | inr hlater => exact hafter limit hlater
        · exact htarget
      exact follows_item hunread (absurd · hend) hheld hahead hpending hcollector
    | osc start finish terminator hplain hosc hunrecognized htake hdrop =>
      subst hosc
      rw [applyCutStream, applyCut_of_unrecognized hunrecognized] at htarget
      rw [htake] at hcollector
      rw [← hpending] at hdrop
      exact follows_unrecognized hplain hunrecognized hrest hmissing ⟨hlen, hafter, htarget⟩ hdrop
        hcollector
    | clipboard data payload terminator hplain hosc hpayload hdata hdataPart hcomplete hlong hcutOsc =>
      subst hosc
      subst hdataPart
      rw [applyCutStream, applyCut_of_long hpayload hlong hcutOsc hread hcut] at htarget
      rw [hcomplete, List.take_length] at hcollector
      rw [hcomplete, List.drop_length] at hpending
      exact follows_clipboard hplain hcutOsc hdata hlong hrest hmissing ⟨hlen, hafter, htarget⟩
        hpending hcollector

/-! ### One write -/

/-- `cut` tells of the offsets that one write reads: of these it ends at the last one. -/
def CutsOnlyAt (cut : Nat → Bool) (read finish : Nat) : Prop :=
  ∀ offset, read < offset → offset ≤ finish → (cut offset = true ↔ offset = finish)

variable {chunk : List UInt8}

private theorem follows_write (tail : List UInt8) {rest : List UInt8}
    (hlen : ∀ rest, completeStreamingControlPrefixLen (tail ++ rest) =
      tail.length + completeStreamingControlPrefixLen rest)
    (hfeatures : ∀ rest, terminalWriteFeatures (tail ++ rest) = terminalWriteFeatures rest)
    (hdeliver : ∀ rest, Delivered base64 s rest (engine.sideEffects.deliver base64 (tail ++ rest)))
    (hnil : engine.sideEffects.deliver base64 [] = engine.sideEffects)
    (hjoined : engine.terminalWritePending ++ chunk = tail ++ rest)
    (hunread : rest ++ unread = streamBytes items)
    (hahead : Ahead base64 cut target read (chunk ++ unread) offset items s)
    (hcut : CutsOnlyAt cut read (read + chunk.length)) :
    Follows base64 cut target (read + chunk.length) (engine.writeVt base64 chunk) unread := by
  have ⟨done, todo, part, hitems, hrest, hpartUnread, hpart⟩ := streamBytes_split hunread
  subst hitems
  subst hrest
  have htotal := hahead.total
  have hsum := congrArg List.length hunread
  have hpartSum := congrArg List.length hpartUnread
  simp only [List.length_append, streamBytes_append] at htotal hsum hpartSum
  -- Of what is joined all is passed on but what is held back of the part.
  have hcomplete : completeStreamingControlPrefixLen (tail ++ (streamBytes done ++ part)) =
      (tail ++ streamBytes done).length + completeStreamingControlPrefixLen part := by
    rw [hlen, completeStreamingControlPrefixLen_stream, List.length_append, Nat.add_assoc]
  have htake : (tail ++ (streamBytes done ++ part)).take
      (completeStreamingControlPrefixLen (tail ++ (streamBytes done ++ part))) =
        tail ++ (streamBytes done ++ part.take (completeStreamingControlPrefixLen part)) := by
    rw [hcomplete, ← List.append_assoc, List.take_length_add_append, List.append_assoc]
  have hdrop : (tail ++ (streamBytes done ++ part)).drop
      (completeStreamingControlPrefixLen (tail ++ (streamBytes done ++ part))) =
        part.drop (completeStreamingControlPrefixLen part) := by
    rw [hcomplete, ← List.append_assoc, List.drop_length_add_append]
  have hstream := terminalWriteFeatures_stream done
    (part.take (completeStreamingControlPrefixLen part))
  have huntouched :
      (terminalWriteFeatures
        (part.take (completeStreamingControlPrefixLen part))).tmuxPassthrough = false ∧
      (terminalWriteFeatures
        (part.take (completeStreamingControlPrefixLen part))).kittyGraphics = false := by
    cases hpart with
    | inl hempty =>
      rw [hempty, List.take_nil]
      exact ⟨rfl, rfl⟩
    | inr hitem =>
      have ⟨item, _, missing, _, hbytes, hne, hmissing⟩ := hitem
      exact (partOf hbytes hne hmissing).untouched
  have ⟨hpending, hcollector⟩ := TerminalEngine.writeVt_eq hjoined.symm htake.symm
    (by rw [hfeatures, hstream.1, huntouched.1]) (by rw [hfeatures, hstream.2.1, huntouched.2]) hnil
  have hdone : ∀ limit ∈ limits offset done, cut limit = false := by
    intro limit hmem
    have hbefore := hahead.limits limit (mem_limits_append.mpr (.inl hmem))
    have hlt := limits_lt hmem
    have hiff := hcut limit hbefore (by omega)
    rw [← Bool.not_eq_true, hiff]
    omega
  have htarget := hahead.target
  rw [applyCutStream_append base64 hdone] at htarget
  apply follows_part hpartUnread hpart (by omega) _ htarget (hpending.trans hdrop)
  · rw [hcollector]
    exact (hdeliver _).stream
  · intro hmem
    have hbefore := hahead.limits _ (mem_limits_append.mpr (.inr hmem))
    exact (hcut _ hbefore (Nat.le_refl _)).mpr rfl

private theorem osc_tail_write {joined : List UInt8} (hplain : Plain finish)
    (h : joined ++ missing = finish ++ terminator.bytes) (hmissing : missing ≠ []) :
    ∃ passed rest, finish = passed ++ rest ∧
      passed = joined.take (completeStreamingControlPrefixLen joined) ∧
      joined.drop (completeStreamingControlPrefixLen joined) ++ missing =
        rest ++ terminator.bytes := by
  cases oscCut_of_append h hmissing with
  | payload rest hfinish hrest =>
    subst hfinish
    have hlen := completeStreamingControlPrefixLen_append hplain.of_append_left.ne_esc []
    rw [List.append_nil, completeStreamingControlPrefixLen_nil, Nat.add_zero] at hlen
    exact ⟨joined, rest, rfl, by rw [hlen, List.take_length],
      by rw [hlen, List.drop_length, hrest, List.nil_append]⟩
  | terminator hst hjoined hrest =>
    subst hst
    subst hjoined
    have hlen : completeStreamingControlPrefixLen (finish ++ [0x1B]) = finish.length := by
      rw [completeStreamingControlPrefixLen_append hplain.ne_esc,
        completeStreamingControlPrefixLen_esc, Nat.add_zero]
    exact ⟨finish, [], (List.append_nil _).symm, by rw [hlen, List.take_left],
      by rw [hlen, List.drop_left, hrest]; rfl⟩

private theorem append_cases {joined unread tail stream : List UInt8}
    (h : joined ++ unread = tail ++ stream) :
    (∃ missing, missing ≠ [] ∧ joined ++ missing = tail ∧ unread = missing ++ stream) ∨
      ∃ rest, joined = tail ++ rest ∧ rest ++ unread = stream := by
  cases List.append_eq_append_iff.mp h with
  | inl hinside =>
    have ⟨missing, htail, hunread⟩ := hinside
    by_cases hmissing : missing = []
    · exact .inr ⟨[], by simp [htail, hmissing], by simp [hunread, hmissing]⟩
    · exact .inl ⟨missing, hmissing, htail.symm, hunread⟩
  | inr hbeyond =>
    have ⟨rest, hjoined, hstream⟩ := hbeyond
    exact .inr ⟨rest, hjoined, hstream.symm⟩

private theorem Ahead.inside (h : Ahead base64 cut target read (chunk ++ unread) offset items s)
    (hunread : unread = missing ++ streamBytes items) :
    Ahead base64 cut target (read + chunk.length) unread offset items s := by
  have htotal := h.total
  have hsum := congrArg List.length hunread
  simp only [List.length_append] at htotal hsum
  constructor
  · omega
  · intro limit hmem
    have hlt := lt_of_mem_limits hmem
    omega
  · exact h.target

private theorem follows_osc {start : List UInt8}
    (hunread : engine.terminalWritePending ++ (chunk ++ unread) =
      finish ++ terminator.bytes ++ streamBytes items) (hplain : Plain (start ++ finish))
    (hunrecognized : hasOscPrefix (start ++ finish) oscPrefixes = false)
    (hcollector : engine.sideEffects = ⟨oscStart ++ start, false, s⟩ ∨
      engine.sideEffects = ⟨[], false, s⟩ ∧ s.itermCopyCapture = none)
    (hahead : Ahead base64 cut target read (chunk ++ unread) offset items s)
    (hcut : CutsOnlyAt cut read (read + chunk.length)) :
    Follows base64 cut target (read + chunk.length) (engine.writeVt base64 chunk) unread := by
  have hnil : engine.sideEffects.deliver base64 [] = engine.sideEffects := by
    cases hcollector with
    | inl hseen =>
      have hdeliver : deliver base64 ⟨oscStart ++ start, false, s⟩ [] =
          ⟨oscStart ++ (start ++ []), false, s⟩ :=
        deliver_unrecognized (by simpa using hplain.of_append_left) (by simpa using hunrecognized) s
      rw [hseen, hdeliver, List.append_nil]
    | inr hunseen => rw [hunseen.1, deliver_ground_nil]
  rw [← List.append_assoc] at hunread
  cases append_cases hunread with
  | inl hinside =>
    have ⟨missing, hmissing, hjoined, hrest⟩ := hinside
    have ⟨passed, rest, hfinish, hpassed, hdrop⟩ :=
      osc_tail_write hplain.of_append_right hjoined hmissing
    subst hfinish
    have hplainPassed := hplain.of_append_right.of_append_left
    have hfeatures := features_of_plain hplainPassed
    have ⟨hpending, hdelivered⟩ := TerminalEngine.writeVt_eq rfl hpassed (by rw [hfeatures])
      (by rw [hfeatures]) hnil
    rw [← List.append_assoc] at hplain hunrecognized
    apply Follows.osc (start ++ passed) rest terminator offset items s _ _ hplain hunrecognized _
      (hahead.inside hrest)
    · rw [hpending, hrest, ← List.append_assoc, hdrop]
    · rw [hrest]
      exact List.append_ne_nil_of_left_ne_nil hmissing _
    · cases hcollector with
      | inl hseen =>
        rw [hdelivered, hseen]
        exact .inl (deliver_unrecognized hplain.of_append_left hunrecognized s)
      | inr hunseen =>
        rw [hdelivered, hunseen.1]
        exact .inr ⟨deliver_unseen hunseen.2 hplainPassed, hunseen.2⟩
  | inr hbeyond =>
    have ⟨rest, hjoined, hrest⟩ := hbeyond
    apply follows_write _
      (completeStreamingControlPrefixLen_osc_tail hplain.of_append_right terminator)
      (terminalWriteFeatures_osc_tail hplain.of_append_right terminator) _ hnil hjoined hrest
      hahead hcut
    intro rest
    cases hcollector with
    | inl hseen =>
      rw [hseen]
      exact .inl (deliver_osc_tail hplain hunrecognized terminator s rest)
    | inr hunseen =>
      rw [hunseen.1, deliver_unseen_tail hunseen.2 hplain.of_append_right]
      exact delivered_ground s rest

private theorem follows_discard (hunread : engine.terminalWritePending ++ (chunk ++ unread) =
      finish ++ terminator.bytes ++ streamBytes items) (hplain : Plain finish)
    (hcollector : engine.sideEffects = ⟨[], true, s⟩)
    (hahead : Ahead base64 cut target read (chunk ++ unread) offset items s)
    (hcut : CutsOnlyAt cut read (read + chunk.length)) :
    Follows base64 cut target (read + chunk.length) (engine.writeVt base64 chunk) unread := by
  have hnil : engine.sideEffects.deliver base64 [] = engine.sideEffects := by
    rw [hcollector, deliver_discard (by decide)]
  rw [← List.append_assoc] at hunread
  cases append_cases hunread with
  | inl hinside =>
    have ⟨missing, hmissing, hjoined, hrest⟩ := hinside
    have ⟨passed, rest, hfinish, hpassed, hdrop⟩ := osc_tail_write hplain hjoined hmissing
    subst hfinish
    have hfeatures := features_of_plain hplain.of_append_left
    have ⟨hpending, hdelivered⟩ := TerminalEngine.writeVt_eq rfl hpassed (by rw [hfeatures])
      (by rw [hfeatures]) hnil
    apply Follows.discard rest terminator offset items s _ _ hplain.of_append_right _
      (hahead.inside hrest)
    · rw [hpending, hrest, ← List.append_assoc, hdrop]
    · rw [hrest]
      exact List.append_ne_nil_of_left_ne_nil hmissing _
    · rw [hdelivered, hcollector, deliver_discard hplain.of_append_left]
  | inr hbeyond =>
    have ⟨rest, hjoined, hrest⟩ := hbeyond
    apply follows_write _ (completeStreamingControlPrefixLen_osc_tail hplain terminator)
      (terminalWriteFeatures_osc_tail hplain terminator) _ hnil hjoined hrest hahead hcut
    intro rest
    rw [hcollector]
    exact .inl (deliver_discard_tail hplain terminator s rest)

/-- What a write does to an engine that follows a stream. -/
theorem follows_step (h : Follows base64 cut target read engine (chunk ++ unread))
    (hcut : CutsOnlyAt cut read (read + chunk.length)) :
    Follows base64 cut target (read + chunk.length) (engine.writeVt base64 chunk) unread := by
  cases h with
  | item offset items s hunread hend hcollector hahead =>
    rw [← List.append_assoc] at hunread
    apply follows_write [] _ _ _ _ rfl hunread hahead hcut
    · intro rest
      simp
    · intro rest
      rfl
    · intro rest
      rw [hcollector]
      exact delivered_ground s rest
    · rw [hcollector, deliver_ground_nil]
  | osc start finish terminator offset items s hunread hend hplain hunrecognized hcollector hahead =>
    exact follows_osc hunread hplain hunrecognized hcollector hahead hcut
  | discard finish terminator offset items s hunread hend hplain hcollector hahead =>
    exact follows_discard hunread hplain hcollector hahead hcut
  | discardEscape offset items s hpending hunread hcollector hahead =>
    have hnil : engine.sideEffects.deliver base64 [] = engine.sideEffects := by
      rw [hcollector, deliver_discardEscape_nil]
    cases chunk with
    | nil =>
      have hpassed : [] = (engine.terminalWritePending ++ []).take
          (completeStreamingControlPrefixLen (engine.terminalWritePending ++ [])) := by
        rw [hpending, List.append_nil, List.take_nil]
      have ⟨hpending', hdelivered⟩ := TerminalEngine.writeVt_eq rfl hpassed rfl rfl hnil
      apply Follows.discardEscape offset items s _ hunread _ hahead
      · rw [hpending', hpending, List.append_nil, List.drop_nil]
      · rw [hdelivered, hcollector]
        rfl
    | cons byte chunk =>
      have ⟨hbyte, hrest⟩ := List.cons.inj hunread
      subst hbyte
      apply follows_write [0x5C] _ _ _ hnil (by rw [hpending]; rfl) hrest hahead hcut
      · intro rest
        exact completeStreamingControlPrefixLen_cons (by decide) rest
      · intro rest
        rfl
      · intro rest
        rw [hcollector]
        exact .inl rfl

/-! ### Successive writes -/

variable {chunks : List (List UInt8)}

private theorem le_of_mem_cutOffsets {finish : Nat} (h : finish ∈ cutOffsets offset chunks) :
    offset ≤ finish := by
  induction chunks generalizing offset with
  | nil => cases h
  | cons chunk chunks ih =>
    cases List.mem_cons.mp h with
    | inl hfirst => omega
    | inr hlater =>
      have hle := ih hlater
      omega

/-- What successive writes do to an engine that follows a stream. -/
theorem follows_writes (h : Follows base64 cut target read engine chunks.flatten)
    (hcut : ∀ offset, read < offset → (cut offset = true ↔ offset ∈ cutOffsets read chunks)) :
    Follows base64 cut target (read + chunks.flatten.length) (engine.writes base64 chunks) [] := by
  induction chunks generalizing read engine with
  | nil => exact h
  | cons chunk chunks ih =>
    have hfirst : CutsOnlyAt cut read (read + chunk.length) := by
      intro offset hlt hle
      rw [hcut offset hlt, cutOffsets, List.mem_cons]
      constructor
      · intro hmem
        cases hmem with
        | inl heq => exact heq
        | inr hlater =>
          have hge := le_of_mem_cutOffsets hlater
          omega
      · exact .inl
    have hlater : ∀ offset, read + chunk.length < offset →
        (cut offset = true ↔ offset ∈ cutOffsets (read + chunk.length) chunks) := by
      intro offset hlt
      have hne : offset ≠ read + chunk.length := by omega
      rw [hcut offset (by omega), cutOffsets, List.mem_cons]
      simp [hne]
    have hrest := ih (follows_step h hfirst) hlater
    rw [Nat.add_assoc] at hrest
    rw [List.flatten_cons, List.length_append]
    exact hrest

/-- Whether one of `chunks` ends at an offset. -/
def cutsAt (chunks : List (List UInt8)) (offset : Nat) : Bool :=
  decide (offset ∈ cutOffsets 0 chunks)

/-- After a whole stream nothing is kept, and its items had their effects. -/
theorem writes_sideEffects (base64 : Base64Decoders) (h : chunks.flatten = streamBytes items) :
    (TerminalEngine.new.writes base64 chunks).sideEffects =
      ⟨[], false, applyCutStream base64 (cutsAt chunks) 0 .new items⟩ := by
  have hstart : Follows base64 (cutsAt chunks)
      (applyCutStream base64 (cutsAt chunks) 0 .new items) 0 .new chunks.flatten := by
    apply Follows.item 0 items .new h _ rfl
    · constructor
      · rw [h]
      · intro limit hmem
        exact lt_of_mem_limits hmem
      · rfl
    · intro hend
      rw [hend] at h
      exact streamBytes_eq_nil h.symm
  have hfollows := follows_writes hstart fun offset _ ↦ by simp [cutsAt]
  cases hfollows with
  | item offset items s hunread hend hcollector hahead =>
    have hitems := hend rfl
    subst hitems
    rw [hcollector, show s = _ from hahead.target]
  | osc start finish terminator offset items s hunread hend => exact absurd rfl hend
  | discard finish terminator offset items s hunread hend => exact absurd rfl hend
  | discardEscape offset items s hpending hunread => cases hunread

end Bootty.Terminal
