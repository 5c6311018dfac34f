import Bootty.Terminal.StreamWrites

/-!
# Read boundaries

What a stream does to the collector of side effects however it is cut into writes
(`crates/bootty-terminal/src/terminal_engine.rs:1509–1641`): the same, except for clipboard
packets of exactly the greatest size where the cut is inside the terminator.
-/

namespace Bootty.Terminal

open Bootty.Base

/-! ### Two ways of cutting -/

private theorem apply_after (base64 : Base64Decoders) (item : StreamItem)
    (s earlier : SideEffects) :
    item.apply base64 (s.after earlier) = (item.apply base64 s).after earlier := by
  cases item with
  | byte value h => exact SideEffects.appendItermCopyText_after s earlier _
  | escape kind h => exact SideEffects.appendItermCopyText_after s earlier _
  | osc payload terminator h => exact SideEffects.pushOscSideEffect_after base64 s earlier payload

/-- A packet of the greatest size is pushed with its data, or without where a write ends inside
its terminator. -/
theorem applyCut_of_atLimit (base64 : Base64Decoders) {item : StreamItem}
    (h : item.atLimit = true) :
    ∃ data, data ≠ [] ∧ ∀ (cut : Nat → Bool) (offset : Nat) (s : SideEffects),
      item.applyCut base64 cut offset s =
        s.push (.clipboardPacket (if cut (offset + limitOffset) then [] else data)) := by
  cases item with
  | byte value _ => cases h
  | escape kind _ => cases h
  | osc payload terminator hplain =>
    have ⟨_, ⟨data, hdata⟩, hlen⟩ := atLimit_osc h
    have hstart : (textBytes "5522;").length = 5 := by decide +kernel
    have hdataLen : data.length = maxPacket := by
      rw [← hdata, List.length_append, hstart] at hlen
      omega
    have hne : data ≠ [] := by
      intro hnil
      rw [hnil] at hdataLen
      cases hdataLen
    refine ⟨data, hne, fun cut offset s ↦ ?_⟩
    unfold StreamItem.applyCut
    rw [h, Bool.true_and]
    by_cases hcut : cut (offset + limitOffset) = true
    · rw [if_pos hcut, if_pos hcut]
    · rw [if_neg hcut, if_neg hcut, StreamItem.apply, ← hdata,
        SideEffects.pushOscSideEffect_clipboard, if_pos (by omega)]

/-- Side effects that agree but for what the effects are. -/
structure Alike (s s' : SideEffects) : Prop where
  length : s.effects.length = s'.effects.length
  actions : s.actions = s'.actions
  capture : s.itermCopyCapture = s'.itermCopyCapture

private theorem apply_eq_after (base64 : Base64Decoders) (item : StreamItem) (s : SideEffects) :
    item.apply base64 s = (item.apply base64 ⟨[], [], s.itermCopyCapture⟩).after s := by
  rw [← apply_after]
  simp [SideEffects.after]

variable {s s' : SideEffects}

private theorem apply_alike (base64 : Base64Decoders) (h : Alike s s') (item : StreamItem) :
    Alike (item.apply base64 s) (item.apply base64 s') ∧
      ((item.apply base64 s).effects = (item.apply base64 s').effects ↔
        s.effects = s'.effects) := by
  rw [apply_eq_after base64 item s, apply_eq_after base64 item s', h.capture]
  constructor
  · constructor
    · simp only [SideEffects.after, List.length_append, h.length]
    · simp only [SideEffects.after, h.actions]
    · rfl
  · exact List.append_left_inj _

private theorem applyCut_alike (base64 : Base64Decoders) (h : Alike s s') (cut cut' : Nat → Bool)
    (offset : Nat) (item : StreamItem) :
    Alike (item.applyCut base64 cut offset s) (item.applyCut base64 cut' offset s') ∧
      ((item.applyCut base64 cut offset s).effects = (item.applyCut base64 cut' offset s').effects ↔
        s.effects = s'.effects ∧
          (item.atLimit = true → cut (offset + limitOffset) = cut' (offset + limitOffset))) := by
  by_cases hlimit : item.atLimit = true
  · have ⟨data, hne, happly⟩ := applyCut_of_atLimit base64 hlimit
    rw [happly, happly]
    constructor
    · constructor
      · simp only [SideEffects.push, List.length_append, h.length, List.length_singleton]
      · exact h.actions
      · exact h.capture
    · simp only [SideEffects.push, hlimit, true_implies]
      rw [List.append_eq_append_iff_of_size_eq_left h.length]
      apply and_congr_right
      intro _
      cases cut (offset + limitOffset) <;> cases cut' (offset + limitOffset) <;> simp [hne]
  · have happly (cut : Nat → Bool) (s : SideEffects) :
        item.applyCut base64 cut offset s = item.apply base64 s := by
      simp [StreamItem.applyCut, hlimit]
    rw [happly, happly]
    simpa [hlimit] using apply_alike base64 h item

/-- Two ways of cutting a stream have the same effects where they agree inside the terminators of
the packets of the greatest size. -/
theorem applyCutStream_alike (base64 : Base64Decoders) (cut cut' : Nat → Bool)
    (items : List StreamItem) (h : Alike s s') (offset : Nat) :
    Alike (applyCutStream base64 cut offset s items) (applyCutStream base64 cut' offset s' items) ∧
      ((applyCutStream base64 cut offset s items).effects =
          (applyCutStream base64 cut' offset s' items).effects ↔
        s.effects = s'.effects ∧ ∀ limit ∈ limits offset items, cut limit = cut' limit) := by
  induction items generalizing s s' offset with
  | nil => exact ⟨h, by simp [applyCutStream, limits]⟩
  | cons item items ih =>
    obtain ⟨hitem, hitemEffects⟩ := applyCut_alike base64 h cut cut' offset item
    obtain ⟨hrest, hrestEffects⟩ := ih hitem (offset + item.bytes.length)
    constructor
    · exact hrest
    · rw [applyCutStream, applyCutStream, hrestEffects, hitemEffects, and_assoc]
      have hlimits : (∀ limit ∈ limits offset (item :: items), cut limit = cut' limit) ↔
          (item.atLimit = true → cut (offset + limitOffset) = cut' (offset + limitOffset)) ∧
            ∀ limit ∈ limits (offset + item.bytes.length) items, cut limit = cut' limit := by
        rw [limits, List.forall_mem_append]
        by_cases hlimit : item.atLimit = true <;> simp [hlimit]
      rw [hlimits]

/-- Two ways of cutting a stream into writes have the same effects and host actions exactly when
they agree, for each clipboard packet of the greatest size, whether a write ends inside its
terminator. -/
theorem writes_effects_eq_iff (base64 : Base64Decoders) {items : List StreamItem}
    {chunks chunks' : List (List UInt8)} (h : chunks.flatten = streamBytes items)
    (h' : chunks'.flatten = streamBytes items) :
    ((TerminalEngine.new.writes base64 chunks).sideEffects.sideEffects.effects =
          (TerminalEngine.new.writes base64 chunks').sideEffects.sideEffects.effects ∧
        (TerminalEngine.new.writes base64 chunks).sideEffects.sideEffects.actions =
          (TerminalEngine.new.writes base64 chunks').sideEffects.sideEffects.actions) ↔
      ∀ limit ∈ limits 0 items, (limit ∈ cutOffsets 0 chunks ↔ limit ∈ cutOffsets 0 chunks') := by
  have hnew : Alike .new .new := ⟨rfl, rfl, rfl⟩
  have ⟨halike, heffects⟩ :=
    applyCutStream_alike base64 (cutsAt chunks) (cutsAt chunks') items hnew 0
  rw [writes_sideEffects base64 h, writes_sideEffects base64 h', heffects]
  constructor
  · intro ⟨⟨_, hcuts⟩, _⟩ limit hmem
    simpa [cutsAt] using hcuts limit hmem
  · intro hcuts
    exact ⟨⟨rfl, fun limit hmem ↦ by simpa [cutsAt] using hcuts limit hmem⟩, halike.actions⟩

/-- A notification is the same whether or not its terminator is cut. -/
theorem writes_effects_eq_iff_notification :
    (TerminalEngine.new.writes .engines [[0x1B, 0x5D, 0x39, 0x3B, 0x68, 0x69, 0x1B, 0x5C]]
        ).sideEffects.sideEffects.effects =
      (TerminalEngine.new.writes .engines [[0x1B, 0x5D, 0x39, 0x3B, 0x68, 0x69, 0x1B], [0x5C]]
        ).sideEffects.sideEffects.effects := by
  have hplain : Plain (textBytes "9;hi") := by decide +kernel
  have hwhole : [[0x1B, 0x5D, 0x39, 0x3B, 0x68, 0x69, 0x1B, 0x5C]].flatten =
      streamBytes [.osc (textBytes "9;hi") .st hplain] := rfl
  have hcut : [[0x1B, 0x5D, 0x39, 0x3B, 0x68, 0x69, 0x1B], [0x5C]].flatten =
      streamBytes [.osc (textBytes "9;hi") .st hplain] := rfl
  apply ((writes_effects_eq_iff .engines hwhole hcut).mpr _).1
  intro limit hmem
  cases hmem

/-- A clipboard packet of exactly the greatest size. -/
def greatestPacket : StreamItem :=
  .osc (textBytes "5522;" ++ List.replicate maxPacket 0x41) .st (by
    have hstart : Plain (textBytes "5522;") := by decide +kernel
    apply hstart.append
    intro byte hmem
    rw [List.eq_of_mem_replicate hmem]
    decide)

/-- The data of the packet is lost where its terminator is cut. -/
theorem writes_effects_ne_of_greatestPacket :
    ¬ ∀ (items : List StreamItem) (chunks chunks' : List (List UInt8)),
      chunks.flatten = streamBytes items → chunks'.flatten = streamBytes items →
        (TerminalEngine.new.writes .engines chunks).sideEffects.sideEffects.effects =
            (TerminalEngine.new.writes .engines chunks').sideEffects.sideEffects.effects ∧
          (TerminalEngine.new.writes .engines chunks).sideEffects.sideEffects.actions =
            (TerminalEngine.new.writes .engines chunks').sideEffects.sideEffects.actions := by
  intro hall
  have hlen : (textBytes "5522;" ++ List.replicate maxPacket 0x41).length = maxPacket + 5 := by
    rw [List.length_append, List.length_replicate]
    rfl
  have hlimit : greatestPacket.atLimit = true := by
    simp only [greatestPacket, StreamItem.atLimit, Bool.and_eq_true, beq_iff_eq,
      List.isPrefixOf_iff_prefix]
    exact ⟨List.prefix_append _ _, hlen⟩
  have hbytes := length_of_atLimit hlimit
  have hwhole : [greatestPacket.bytes].flatten = streamBytes [greatestPacket] := by simp
  have hcut : [oscStart ++ (textBytes "5522;" ++ List.replicate maxPacket 0x41) ++ [0x1B],
      [0x5C]].flatten = streamBytes [greatestPacket] := by
    simp [greatestPacket, StreamItem.bytes, OscTerminator.bytes]
  have heffects := (hall _ _ _ hwhole hcut).1
  rw [writes_sideEffects _ hwhole, writes_sideEffects _ hcut,
    (applyCutStream_alike _ _ _ _ ⟨rfl, rfl, rfl⟩ 0).2] at heffects
  have hcuts := heffects.2 limitOffset (by simp [limits, hlimit])
  have hinside : (oscStart ++ (textBytes "5522;" ++ List.replicate maxPacket 0x41) ++
      [0x1B]).length = limitOffset := by
    rw [List.length_append, List.length_append, hlen]
    rfl
  have hwholeCut : cutsAt [greatestPacket.bytes] limitOffset = false := by
    simp [cutsAt, cutOffsets, hbytes]
  have hinsideCut : cutsAt [oscStart ++ (textBytes "5522;" ++ List.replicate maxPacket 0x41) ++
      [0x1B], [0x5C]] limitOffset = true := by
    simp only [cutsAt, cutOffsets, Nat.zero_add, hinside, decide_eq_true_eq]
    exact List.mem_cons_self
  rw [hwholeCut, hinsideCut] at hcuts
  cases hcuts

end Bootty.Terminal
