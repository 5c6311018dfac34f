import Bootty.Terminal.WriteVt
import Mathlib.Data.List.Infix
import Mathlib.Logic.Relation

/-!
# Bytes that reach the terminal

`TerminalEngine::write_vt` with the bytes it hands to Ghostty's terminal
(`crates/bootty-terminal/src/terminal_engine.rs:1240–1273` and `1509–1641`). Of a stream without
controls that are rewritten, every byte is handed over in order or held back, but for a move of
the cursor to its home that directly follows another.
-/

namespace Bootty.Terminal

open Bootty.Base

/-- An engine and the bytes handed to the terminal. -/
structure IngressEngine extends TerminalEngine where
  written : List UInt8

namespace IngressEngine

/-- An engine that has read nothing. -/
def new : IngressEngine := ⟨.new, []⟩

/-- The library is given bytes. -/
def vtWrite (self : IngressEngine) (bytes : List UInt8) : IngressEngine :=
  { self with written := self.written ++ bytes }

/-- Hand over what is held back of a move of the cursor to its home. -/
def flushCursorHome (self : IngressEngine) : IngressEngine :=
  if 0 < self.cursorHomePendingLen then
    { self.vtWrite (cursorHome.take self.cursorHomePendingLen) with cursorHomePendingLen := 0 }
  else self

/-- `terminal_engine.rs:1540–1560`. -/
def tryWriteRepeatedCursorHome (self : IngressEngine) (bytes : List UInt8) :
    Bool × IngressEngine :=
  match repeatedCursorHomePrefixLen bytes self.cursorHomePendingLen with
  | none => (false, self.flushCursorHome)
  | some (complete, pendingLen) =>
    let self := if 0 < complete then self.vtWrite cursorHome else self
    (true, { self with cursorHomePendingLen := pendingLen })

-- Whether the engine itself answers an OSC sequence with a payload and a terminator, with the
-- colours that Ghostty's terminal has after some bytes.
variable (base64 : Base64Decoders) (answers : List UInt8 → List UInt8 → List UInt8 → Bool)

/-- `terminal_engine.rs:1240–1273`, without the colours: what is handed over of `remaining`. -/
def orderedOscColorWrites (written remaining : List UInt8) : List UInt8 :=
  match _hstart : findBytes oscStart remaining with
  | none => remaining
  | some start =>
    let payload := remaining.drop (start + 2)
    match findOscTerminator payload with
    | none => remaining
    | some (payloadLen, terminatorLen) =>
      let terminator := (payload.drop payloadLen).take terminatorLen
      let consumed := 2 + payloadLen + terminatorLen
      let packet :=
        if answers written (payload.take payloadLen) terminator then []
        else (remaining.drop start).take consumed
      let passed := remaining.take start ++ packet
      passed ++ orderedOscColorWrites (written ++ passed)
        (payload.drop (payloadLen + terminatorLen))
termination_by remaining.length
decreasing_by
  have hpositive : 0 < remaining.length := by
    cases remaining with
    | nil => cases _hstart
    | cons byte rest => exact Nat.zero_lt_succ _
  simp only [List.length_drop]
  omega

/-- `terminal_engine.rs:1562–1641`. -/
def writeVt (self : IngressEngine) (bytes : List UInt8) : IngressEngine :=
  let canFastWrite := self.terminalWritePending.isEmpty && !self.sideEffects.needsInput &&
    !containsTrackedStreamingControl bytes
  let (cursorHome, self) :=
    if canFastWrite then self.tryWriteRepeatedCursorHome bytes else (false, self)
  if cursorHome then self
  else
    let self := self.flushCursorHome
    if canFastWrite then self.vtWrite bytes
    else
      let (writeBytes, engine) := self.completeStreamingTerminalWrite bytes
      let self : IngressEngine := { self with toTerminalEngine := engine }
      if writeBytes.isEmpty then self
      else
        let features := self.writeFeatures writeBytes
        if !features.needsSanitizing then self.vtWrite writeBytes
        else
          let (features, bytes) :=
            if features.tmuxPassthrough then
              let unwrapped := unwrapTmuxPassthroughCommands writeBytes
              (self.writeFeatures unwrapped, unwrapped)
            else (features, writeBytes)
          let sanitized :=
            if features.kittyGraphics then sanitizeKittyGraphicsCommands bytes else bytes
          let self :=
            if features.oscColor then
              self.vtWrite (orderedOscColorWrites answers self.written sanitized)
            else self.vtWrite sanitized
          if features.oscSideEffect then
            -- The actions of this call are those that are new.
            let collected := self.sideEffects.collect base64 sanitized
            let actions := collected.sideEffects.actions.drop
              self.sideEffects.sideEffects.actions.length
            { self with sideEffects := collected }.vtWrite actions.flatten
          else self

/-- Successive writes. -/
def writes (self : IngressEngine) (chunks : List (List UInt8)) : IngressEngine :=
  chunks.foldl (writeVt base64 answers) self

end IngressEngine

/-! ### Moves of the cursor to its home -/

/-- One of two adjacent moves of the cursor to its home is left out. -/
inductive HomeOnce : List UInt8 → List UInt8 → Prop
  | leaveOut (front back : List UInt8) :
      HomeOnce (front ++ cursorHome ++ cursorHome ++ back) (front ++ cursorHome ++ back)

/-- Adjacent moves of the cursor to its home are replaced by one. -/
def HomesOnce : List UInt8 → List UInt8 → Prop := Relation.ReflTransGen HomeOnce

private theorem HomesOnce.refl (bytes : List UInt8) :
    HomesOnce bytes bytes := Relation.ReflTransGen.refl

private theorem HomesOnce.trans {a b c : List UInt8} (h : HomesOnce a b) (h' : HomesOnce b c) :
    HomesOnce a c := Relation.ReflTransGen.trans h h'

variable {bytes : List UInt8}

private theorem HomesOnce.append {bytes' : List UInt8} (h : HomesOnce bytes bytes')
    (more : List UInt8) :
    HomesOnce (bytes ++ more) (bytes' ++ more) := by
  refine Relation.ReflTransGen.lift (p := HomeOnce) (· ++ more) ?_ _ _ h
  rintro _ _ ⟨front, back⟩
  show HomeOnce ((front ++ cursorHome ++ cursorHome ++ back) ++ more)
    ((front ++ cursorHome ++ back) ++ more)
  rw [List.append_assoc _ back, List.append_assoc _ back]
  exact .leaveOut front (back ++ more)

/-- A run of moves is replaced by one. -/
theorem homesOnce_replicate (front back : List UInt8) (count : Nat) :
    HomesOnce (front ++ (List.replicate (count + 1) cursorHome).flatten ++ back)
      (front ++ cursorHome ++ back) := by
  induction count generalizing back with
  | zero =>
    rw [List.replicate_one, List.flatten_singleton]
    exact .refl _
  | succ count ih =>
    rw [List.replicate_succ', List.flatten_append, List.flatten_singleton, ← List.append_assoc,
      List.append_assoc _ cursorHome back]
    refine (ih (cursorHome ++ back)).trans (Relation.ReflTransGen.single ?_)
    rw [← List.append_assoc]
    exact .leaveOut front back

/-- Bytes that only move the cursor to its home are moves of which the last may be cut. -/
theorem repeatedCursorHomePrefixLen_spec {data : List UInt8} {state complete pendingLen : Nat}
    (hstate : state < cursorHome.length)
    (h : repeatedCursorHomePrefixLen data state = some (complete, pendingLen)) :
    cursorHome.take state ++ data =
        (List.replicate complete cursorHome).flatten ++ cursorHome.take pendingLen ∧
      pendingLen < cursorHome.length := by
  induction data generalizing state complete with
  | nil =>
    obtain ⟨rfl, rfl⟩ := Prod.mk.inj (Option.some.inj h)
    exact ⟨by simp, hstate⟩
  | cons byte rest ih =>
    unfold repeatedCursorHomePrefixLen at h
    split at h
    · cases h
    · next hbyte =>
      have hsome : cursorHome[state]? = some byte := (not_not.mp hbyte).symm
      have htake : cursorHome.take state ++ byte :: rest =
          cursorHome.take (state + 1) ++ rest := by
        rw [List.take_add_one, hsome]
        simp
      split at h
      · next hwhole =>
        have ⟨⟨more, last⟩, hmore, heq⟩ := Option.map_eq_some_iff.mp h
        obtain ⟨rfl, rfl⟩ := Prod.mk.inj heq
        have ⟨hrest, hlast⟩ := ih (by decide +kernel) hmore
        refine ⟨?_, hlast⟩
        rw [htake, hwhole, List.take_length, List.replicate_succ, List.flatten_cons,
          List.append_assoc, ← hrest]
        simp
      · next hpart =>
        have ⟨hrest, hlast⟩ := ih (by omega) h
        exact ⟨htake.trans hrest, hlast⟩

/-! ### Streams without controls that are rewritten -/

/-- Bytes without `ESC P` and `ESC _`, and without OSC sequences that set colours or run commands
of iTerm2. -/
def Clean (input : List UInt8) : Prop :=
  ∀ front kind rest, input = front ++ 0x1B :: kind :: rest →
    kind ≠ 0x50 ∧ kind ≠ 0x5F ∧
      (kind = 0x5D → hasOscPrefix rest colorOscPrefixes = false ∧ ¬textBytes "1337;" <+: rest)

/-- Whether bytes begin with a control that is rewritten. -/
def beginsRewritten : List UInt8 → Bool
  | escape :: kind :: rest =>
    escape == 0x1B && (kind == 0x50 || kind == 0x5F ||
      kind == 0x5D && (hasOscPrefix rest colorOscPrefixes || (textBytes "1337;").isPrefixOf rest))
  | _ => false

namespace Clean

variable {input data : List UInt8}

private theorem iff_tails : Clean input ↔ ∀ tail ∈ input.tails, beginsRewritten tail = false := by
  constructor
  · intro h tail htail
    have ⟨front, hinput⟩ := List.mem_tails _ _ |>.mp htail
    match tail with
    | [] => rfl
    | [_] => rfl
    | escape :: kind :: rest =>
      by_cases hescape : escape = 0x1B
      · subst hescape
        have ⟨htmux, hkitty, hosc⟩ := h front kind rest hinput.symm
        by_cases hkind : kind = 0x5D
        · have ⟨hcolor, hcommand⟩ := hosc hkind
          rw [← List.isPrefixOf_iff_prefix, Bool.not_eq_true] at hcommand
          simp [beginsRewritten, hkind, hcolor, hcommand]
        · simp [beginsRewritten, htmux, hkitty, hkind]
      · simp [beginsRewritten, hescape]
  · intro h front kind rest hinput
    have hstart := h (0x1B :: kind :: rest) ((List.mem_tails _ _).mpr ⟨front, hinput.symm⟩)
    simp only [beginsRewritten, beq_self_eq_true, Bool.true_and, Bool.or_eq_false_iff,
      beq_eq_false_iff_ne] at hstart
    have ⟨⟨htmux, hkitty⟩, hosc⟩ := hstart
    refine ⟨htmux, hkitty, fun hkind ↦ ?_⟩
    subst hkind
    simp only [beq_self_eq_true, Bool.true_and, Bool.or_eq_false_iff] at hosc
    rw [← List.isPrefixOf_iff_prefix, Bool.not_eq_true]
    exact hosc

/-- Whether an input is clean is decidable. -/
instance : Decidable (Clean input) := decidable_of_iff _ iff_tails.symm

/-- A stretch of such bytes. -/
theorem of_infix (h : Clean input) (hdata : data <:+: input) : Clean data := by
  intro front kind rest heq
  have ⟨before, after, hinput⟩ := hdata
  have ⟨htmux, hkitty, hosc⟩ := h (before ++ front) kind (rest ++ after) (by
    rw [← hinput, heq]
    simp)
  refine ⟨htmux, hkitty, fun hkind ↦ ⟨?_, ?_⟩⟩
  · rw [← Bool.not_eq_true, hasOscPrefix_eq_true]
    rintro ⟨start, hmem, hstart⟩
    have hlater := hasOscPrefix_of_mem hmem (hstart.trans (List.prefix_append rest after))
    rw [(hosc hkind).1] at hlater
    cases hlater
  · intro hcommand
    exact (hosc hkind).2 (hcommand.trans (List.prefix_append rest after))

/-- They have no features but side effects. -/
theorem features (h : Clean data) :
    (terminalWriteFeatures data).tmuxPassthrough = false ∧
      (terminalWriteFeatures data).kittyGraphics = false ∧
        (terminalWriteFeatures data).oscColor = false := by
  induction data with
  | nil => exact ⟨rfl, rfl, rfl⟩
  | cons byte rest ih =>
    obtain ⟨htmux, hkitty, hcolor⟩ := ih (h.of_infix (List.suffix_cons byte rest).isInfix)
    unfold terminalWriteFeatures
    split
    · next hbyte =>
      subst hbyte
      cases rest with
      | nil => exact ⟨htmux, hkitty, hcolor⟩
      | cons kind rest =>
        obtain ⟨hnotTmux, hnotKitty, hosc⟩ := h [] kind rest rfl
        simp only [TerminalWriteFeatures.or, htmux, hkitty, hcolor, Bool.or_false, controlFeatures,
          if_neg hnotTmux, if_neg hnotKitty]
        split
        · next hkind =>
          rw [(hosc hkind).1]
          exact ⟨rfl, rfl, rfl⟩
        · exact ⟨rfl, rfl, rfl⟩
    · exact ⟨htmux, hkitty, hcolor⟩

end Clean

/-- Where the needle is found. -/
theorem findBytes_eq_some {needle : List UInt8} {start : Nat}
    (h : findBytes needle bytes = some start) :
    bytes = bytes.take start ++ needle ++ bytes.drop (start + needle.length) := by
  induction bytes generalizing start with
  | nil =>
    unfold findBytes at h
    split at h
    · next hempty =>
      obtain rfl := Option.some.inj h
      rw [List.isEmpty_iff.mp hempty]
      rfl
    · cases h
  | cons byte rest ih =>
    unfold findBytes at h
    split at h
    · next hstarts =>
      obtain rfl := Option.some.inj h
      obtain ⟨back, hback⟩ := List.isPrefixOf_iff_prefix.mp hstarts
      rw [← hback]
      simp
    · obtain ⟨found, hfound, heq⟩ := Option.map_eq_some_iff.mp h
      subst heq
      have hrest := ih hfound
      rw [Nat.add_right_comm, List.drop_succ_cons, List.take_succ_cons, List.cons_append,
        List.cons_append, ← hrest]

namespace SideEffects

variable (base64 : Base64Decoders)

private theorem actions_pushConemuSideEffect (s : SideEffects) (data : String) :
    (s.pushConemuSideEffect data).actions = s.actions := by
  unfold pushConemuSideEffect
  split <;> rfl

private theorem actions_pushOsc777SideEffect (s : SideEffects) (payload : List UInt8) :
    (s.pushOsc777SideEffect payload).actions = s.actions := by
  unfold pushOsc777SideEffect
  split <;> rfl

/-- Only the commands of iTerm2 write to the terminal. -/
theorem actions_pushOscSideEffect (s : SideEffects) {payload : List UInt8}
    (h : ¬textBytes "1337;" <+: payload) :
    (s.pushOscSideEffect base64 payload).actions = s.actions := by
  unfold pushOscSideEffect
  split
  · rfl
  · next command rest hsplit =>
    have hcommand : command ≠ textBytes "1337" := by
      intro heq
      apply h
      rw [splitOscPayload_eq_some hsplit, heq]
      exact ⟨rest, rfl⟩
    -- The commands in the order of the source.
    split
    · rfl
    split
    · split
      · split
        · exact actions_pushConemuSideEffect s _
        · rfl
      · rfl
    split
    · rfl
    split
    · rfl
    split
    · rfl
    split
    · rfl
    split
    · rfl
    split
    · exact actions_pushOsc777SideEffect s rest
    rfl

end SideEffects

namespace TerminalSideEffectCollector

variable (base64 : Base64Decoders)

private theorem lastEscape_suffix (bytes : List UInt8) : lastEscape bytes <:+ bytes := by
  unfold lastEscape
  split
  · next hlast =>
    have ⟨front, hbytes⟩ := List.getLast?_eq_some_iff.mp hlast
    exact ⟨front, hbytes.symm⟩
  · exact List.nil_suffix

/-- What the loop keeps is the end of what it reads, and it writes nothing of clean bytes. -/
theorem collectFrom_spec (s : SideEffects) (remaining : List UInt8) :
    (collectFrom base64 s remaining).oscPending <:+ remaining ∧
      (Clean remaining → (collectFrom base64 s remaining).sideEffects.actions = s.actions) := by
  fun_induction collectFrom base64 s remaining with
  | case1 s remaining hstart => exact ⟨List.nil_suffix, fun _ ↦ rfl⟩
  | case2 s remaining start hstart s' packet payload payloadLen terminatorLen hfind ih =>
    have hrest : payload.drop (payloadLen + terminatorLen) <:+ remaining :=
      (List.drop_suffix _ _).trans ((List.drop_suffix _ _).trans (List.drop_suffix _ _))
    refine ⟨ih.1.trans hrest, ?_⟩
    intro hclean
    rw [ih.2 (hclean.of_infix hrest.isInfix), SideEffects.actions_pushOscSideEffect]
    · rfl
    · -- The payload follows the start of an OSC sequence.
      intro hcommand
      have hfound := findBytes_eq_some hstart
      rw [List.append_assoc] at hfound
      have hosc := (hclean (remaining.take start) 0x5D _ hfound).2.2 rfl
      apply hosc.2
      refine (hcommand.trans (List.take_prefix payloadLen payload)).trans ?_
      show (remaining.drop start).drop 2 <+: remaining.drop (start + 2)
      rw [List.drop_drop]
  | case3 s remaining start hstart s' packet payload hfind hlong =>
    exact ⟨(lastEscape_suffix packet).trans (List.drop_suffix start remaining), fun _ ↦ rfl⟩
  | case4 s remaining start hstart s' packet payload hfind hshort =>
    exact ⟨List.drop_suffix start remaining, fun _ ↦ rfl⟩

/-- What the collector keeps is the end of what it has read, and it writes nothing of clean
bytes. -/
theorem collect_spec (collector : TerminalSideEffectCollector) (data : List UInt8) :
    (collector.collect base64 data).oscPending <:+ collector.oscPending ++ data ∧
      (Clean (collector.oscPending ++ data) →
        (collector.collect base64 data).sideEffects.actions = collector.sideEffects.actions) := by
  unfold collect
  dsimp only
  split
  · split
    · exact ⟨lastEscape_suffix _, fun _ ↦ rfl⟩
    · next finish len hfind =>
      obtain ⟨hkept, hactions⟩ := collectFrom_spec base64 collector.sideEffects
        ((collector.oscPending ++ data).drop (finish + len))
      have hsuffix := List.drop_suffix (finish + len) (collector.oscPending ++ data)
      exact ⟨hkept.trans hsuffix, fun hclean ↦ hactions (hclean.of_infix hsuffix.isInfix)⟩
  · exact collectFrom_spec base64 collector.sideEffects _

end TerminalSideEffectCollector

/-! ### What is handed over and what is held back -/

namespace IngressEngine

/-- The bytes that are held back: the beginning of a move of the cursor to its home, or of a
control. -/
def heldBack (self : IngressEngine) : List UInt8 :=
  cursorHome.take self.cursorHomePendingLen ++ self.terminalWritePending

/-- The engine has handed over what it has read, but for what it holds back. -/
structure Conserves (engine : IngressEngine) (input : List UInt8) : Prop where
  bytes : HomesOnce input (engine.written ++ engine.heldBack)
  one : engine.cursorHomePendingLen = 0 ∨ engine.terminalWritePending = []
  home : engine.cursorHomePendingLen < cursorHome.length
  /-- The collector has read to the same place and keeps the end of it. -/
  collector : engine.sideEffects.oscPending ++ engine.terminalWritePending <:+ input

private theorem conserves_new : new.Conserves [] :=
  ⟨.refl _, .inl rfl, by decide +kernel, List.suffix_rfl⟩

private theorem flushCursorHome_eq (self : IngressEngine) :
    self.flushCursorHome =
      { self with
        written := self.written ++ cursorHome.take self.cursorHomePendingLen
        cursorHomePendingLen := 0 } := by
  unfold flushCursorHome
  split
  · rfl
  · next hzero =>
    obtain ⟨⟨pending, homeLen, sideEffects⟩, written⟩ := self
    have hlen : homeLen = 0 := by
      simp only at hzero
      omega
    subst hlen
    simp

variable {self : IngressEngine}

/-- Bytes that only move the cursor to its home. -/
theorem Conserves.repeatedHome {input : List UInt8} (h : self.Conserves input)
    {complete pendingLen : Nat} (hpending : self.terminalWritePending = [])
    (hneeds : self.sideEffects.oscPending = [])
    (hhome : repeatedCursorHomePrefixLen bytes self.cursorHomePendingLen =
      some (complete, pendingLen)) :
    Conserves { (if 0 < complete then self.vtWrite cursorHome else self) with
      cursorHomePendingLen := pendingLen } (input ++ bytes) := by
  have ⟨hbytes, hlast⟩ := repeatedCursorHomePrefixLen_spec h.home hhome
  have hread := h.bytes.append bytes
  rw [heldBack, hpending, List.append_nil, List.append_assoc, hbytes, ← List.append_assoc] at hread
  cases complete with
  | zero =>
    refine ⟨?_, .inr hpending, hlast, ?_⟩
    · show HomesOnce (input ++ bytes) (self.written ++ (cursorHome.take pendingLen ++
        self.terminalWritePending))
      rw [hpending, List.append_nil]
      simpa using hread
    · show self.sideEffects.oscPending ++ self.terminalWritePending <:+ input ++ bytes
      rw [hneeds, hpending]
      exact List.nil_suffix
  | succ complete =>
    refine ⟨?_, .inr hpending, hlast, ?_⟩
    · show HomesOnce (input ++ bytes) (self.written ++ cursorHome ++ (cursorHome.take pendingLen ++
        self.terminalWritePending))
      rw [hpending, List.append_nil]
      exact hread.trans (homesOnce_replicate self.written (cursorHome.take pendingLen) complete)
    · show self.sideEffects.oscPending ++ self.terminalWritePending <:+ input ++ bytes
      rw [hneeds, hpending]
      exact List.nil_suffix

/-- Bytes that are handed over or held back behind those that were held back. -/
theorem Conserves.passOn {self self' : IngressEngine} {input bytes passed : List UInt8}
    (h : self.Conserves input)
    (hwritten : self'.written =
      self.written ++ cursorHome.take self.cursorHomePendingLen ++ passed)
    (hjoined : passed ++ self'.terminalWritePending = self.terminalWritePending ++ bytes)
    (hhome : self'.cursorHomePendingLen = 0)
    (hcollector : self'.sideEffects.oscPending <:+ self.sideEffects.oscPending ++ passed) :
    self'.Conserves (input ++ bytes) := by
  have hread := h.bytes.append bytes
  refine ⟨?_, .inl hhome, ?_, ?_⟩
  · rw [heldBack, hhome, hwritten, List.take_zero, List.nil_append, List.append_assoc, hjoined]
    rw [heldBack] at hread
    simpa using hread
  · rw [hhome]
    decide +kernel
  · have ⟨front, hfront⟩ := hcollector
    have ⟨before, hbefore⟩ := h.collector
    refine ⟨before ++ front, ?_⟩
    calc before ++ front ++ (self'.sideEffects.oscPending ++ self'.terminalWritePending)
        = before ++ (front ++ self'.sideEffects.oscPending) ++ self'.terminalWritePending := by simp
      _ = before ++ (self.sideEffects.oscPending ++ self.terminalWritePending) ++ bytes := by
        rw [hfront, List.append_assoc, List.append_assoc, hjoined]
        simp
      _ = input ++ bytes := by rw [hbefore]

variable {base64 : Base64Decoders} {answers : List UInt8 → List UInt8 → List UInt8 → Bool}

private theorem oscPending_of_not_needsInput {collector : TerminalSideEffectCollector}
    (h : collector.needsInput = false) : collector.oscPending = [] := by
  simp only [TerminalSideEffectCollector.needsInput, Bool.or_eq_false_iff] at h
  simpa using h.1.2

private theorem writeFeatures_of_clean (engine : TerminalEngine) {passed : List UInt8}
    (hclean : Clean passed) :
    engine.writeFeatures passed =
      { oscSideEffect :=
          engine.sideEffects.needsInput || (terminalWriteFeatures passed).oscSideEffect } := by
  have ⟨htmux, hkitty, hcolor⟩ := hclean.features
  unfold TerminalEngine.writeFeatures
  cases hfeatures : terminalWriteFeatures passed with
  | mk tmux kitty side color =>
    simp only [hfeatures] at htmux hkitty hcolor
    subst htmux hkitty hcolor
    cases engine.sideEffects.needsInput <;> rfl

private theorem Conserves.writeVt_of_not_fast {input : List UInt8} (h : self.Conserves input)
    (hclean : Clean (input ++ bytes))
    (hfast : (self.terminalWritePending.isEmpty && !self.sideEffects.needsInput &&
      !containsTrackedStreamingControl bytes) = false) :
    (self.writeVt base64 answers bytes).Conserves (input ++ bytes) := by
  have hjoined := List.take_append_drop
    (completeStreamingControlPrefixLen (self.terminalWritePending ++ bytes))
    (self.terminalWritePending ++ bytes)
  unfold IngressEngine.writeVt
  simp only [hfast, Bool.false_eq_true, if_false, flushCursorHome_eq,
    TerminalEngine.completeStreamingTerminalWrite_eq]
  generalize List.take (completeStreamingControlPrefixLen (self.terminalWritePending ++ bytes))
    (self.terminalWritePending ++ bytes) = passed at hjoined ⊢
  generalize List.drop (completeStreamingControlPrefixLen (self.terminalWritePending ++ bytes))
    (self.terminalWritePending ++ bytes) = pending at hjoined ⊢
  -- What the collector holds and what is passed on lie together in the input.
  have hread : Clean (self.sideEffects.oscPending ++ passed) := by
    obtain ⟨before, hbefore⟩ := h.collector
    apply hclean.of_infix
    refine ⟨before, pending, ?_⟩
    rw [← hbefore]
    simp [hjoined]
  have hpassed : Clean passed := hread.of_infix (List.suffix_append _ passed).isInfix
  split
  · next hempty =>
    obtain rfl := List.isEmpty_iff.mp hempty
    apply h.passOn (List.append_nil _).symm hjoined rfl
    rw [List.append_nil]
  · simp only [writeFeatures_of_clean _ hpassed, TerminalWriteFeatures.needsSanitizing,
      Bool.false_eq_true, if_false, Bool.false_or, Bool.or_false]
    cases hside :
        (self.sideEffects.needsInput || (terminalWriteFeatures passed).oscSideEffect) with
    | false =>
      simp only [Bool.not_false, if_true]
      apply h.passOn rfl hjoined rfl
      show self.sideEffects.oscPending <:+ _
      rw [oscPending_of_not_needsInput (Bool.or_eq_false_iff.mp hside).1]
      exact List.nil_suffix
    | true =>
      obtain ⟨hkept, hactions⟩ :=
        TerminalSideEffectCollector.collect_spec base64 self.sideEffects passed
      simp only [Bool.not_true, Bool.false_eq_true, if_false, if_true]
      apply h.passOn _ hjoined rfl hkept
      show self.written ++ _ ++ passed ++ (List.drop self.sideEffects.sideEffects.actions.length
        (self.sideEffects.collect base64 passed).sideEffects.actions).flatten = _
      rw [hactions hread, List.drop_length, List.flatten_nil, List.append_nil]

/-- A write of clean bytes. -/
theorem Conserves.writeVt {input : List UInt8} (h : self.Conserves input)
    (hclean : Clean (input ++ bytes)) :
    (self.writeVt base64 answers bytes).Conserves (input ++ bytes) := by
  cases hfast : (self.terminalWritePending.isEmpty && !self.sideEffects.needsInput &&
    !containsTrackedStreamingControl bytes) with
  | false => exact h.writeVt_of_not_fast hclean hfast
  | true =>
    unfold IngressEngine.writeVt
    simp only [hfast, if_true, IngressEngine.tryWriteRepeatedCursorHome]
    simp only [Bool.and_eq_true, Bool.not_eq_true', List.isEmpty_iff] at hfast
    have ⟨⟨hpending, hneeds⟩, _⟩ := hfast
    have hkept : self.sideEffects.oscPending = [] := oscPending_of_not_needsInput hneeds
    cases hhome : repeatedCursorHomePrefixLen bytes self.cursorHomePendingLen with
    | some lens => exact h.repeatedHome hpending hkept hhome
    | none =>
      simp only [flushCursorHome_eq, Bool.false_eq_true, if_false]
      apply @passOn _ _ _ _ bytes h
      · simp [vtWrite]
      · show bytes ++ self.terminalWritePending = self.terminalWritePending ++ bytes
        rw [hpending, List.append_nil, List.nil_append]
      · rfl
      · show self.sideEffects.oscPending <:+ self.sideEffects.oscPending ++ bytes
        rw [hkept]
        exact List.nil_suffix

/-- Writes of clean bytes. -/
theorem Conserves.writes {input : List UInt8} {chunks : List (List UInt8)}
    (h : self.Conserves input) (hclean : Clean (input ++ chunks.flatten)) :
    (self.writes base64 answers chunks).Conserves (input ++ chunks.flatten) := by
  induction chunks generalizing self input with
  | nil =>
    rw [List.flatten_nil, List.append_nil]
    exact h
  | cons bytes chunks ih =>
    rw [List.flatten_cons, ← List.append_assoc] at hclean ⊢
    exact ih (h.writeVt (hclean.of_infix (List.prefix_append _ _).isInfix)) hclean

/-- The engine with the bytes it hands over refines the one without. -/
theorem toTerminalEngine_writeVt (self : IngressEngine) (bytes : List UInt8) :
    (self.writeVt base64 answers bytes).toTerminalEngine =
      self.toTerminalEngine.writeVt base64 bytes := by
  cases hfast : (self.terminalWritePending.isEmpty && !self.sideEffects.needsInput &&
    !containsTrackedStreamingControl bytes) with
  | true =>
    unfold IngressEngine.writeVt TerminalEngine.writeVt
    simp only [hfast, if_true, IngressEngine.tryWriteRepeatedCursorHome,
      TerminalEngine.tryWriteRepeatedCursorHome]
    cases repeatedCursorHomePrefixLen bytes self.cursorHomePendingLen with
    | none => simp only [flushCursorHome_eq, Bool.false_eq_true, if_false, vtWrite]
    | some lens =>
      show TerminalEngine.mk _ lens.2 _ = TerminalEngine.mk _ lens.2 _
      by_cases hcomplete : 0 < lens.1
      · rw [if_pos hcomplete]
        rfl
      · rw [if_neg hcomplete]
  | false =>
    unfold IngressEngine.writeVt TerminalEngine.writeVt
    simp only [hfast, Bool.false_eq_true, if_false, flushCursorHome_eq,
      TerminalEngine.completeStreamingTerminalWrite_eq, vtWrite]
    split
    · rfl
    split
    · rfl
    split
    · split <;> split <;> rfl
    · split <;> split <;> rfl

/-- Of a stream without controls that are rewritten, what has been handed over after any of its
writes, together with what is held back, is what was written but for repeated moves of the cursor
to its home. What passes the test for the shortcut would be handed over as a whole anyway. -/
theorem writes_conserves_bytes (base64 : Base64Decoders)
    (answers : List UInt8 → List UInt8 → List UInt8 → Bool) (done more : List (List UInt8))
    (h : Clean (done ++ more).flatten) :
    HomesOnce done.flatten
        ((new.writes base64 answers done).written ++
          cursorHome.take (new.writes base64 answers done).cursorHomePendingLen ++
            (new.writes base64 answers done).terminalWritePending) ∧
      ((new.writes base64 answers done).cursorHomePendingLen = 0 ∨
        (new.writes base64 answers done).terminalWritePending = []) ∧
      ∀ data, containsTrackedStreamingControl data = false →
        completeStreamingControlPrefixLen data = data.length ∧ terminalWriteFeatures data = {} := by
  have hdone : Clean done.flatten := by
    rw [List.flatten_append] at h
    exact h.of_infix (List.prefix_append _ _).isInfix
  have hconserves : (new.writes base64 answers done).Conserves done.flatten :=
    Conserves.writes conserves_new hdone
  refine ⟨?_, hconserves.one, fun data ↦ complete_of_not_containsTracked⟩
  rw [List.append_assoc]
  exact hconserves.bytes

/-- Homes that are cut and joined. -/
theorem writes_conserves_bytes_sample :
    let engine := new.writes ⟨fun _ ↦ none, fun _ ↦ none⟩ (fun _ _ _ ↦ false)
      [textBytes "\x1b[H\x1b[H\x1b[", textBytes "HA"]
    engine.written = textBytes "\x1b[H\x1b[HA" ∧
      HomesOnce (textBytes "\x1b[H\x1b[H\x1b[HA")
        (engine.written ++ cursorHome.take engine.cursorHomePendingLen ++
          engine.terminalWritePending) := by
  refine ⟨?_, ?_⟩
  · decide +kernel
  · exact (writes_conserves_bytes ⟨fun _ ↦ none, fun _ ↦ none⟩ (fun _ _ _ ↦ false)
      [textBytes "\x1b[H\x1b[H\x1b[", textBytes "HA"] [textBytes "\x1b]0;t\x07"]
      (by decide +kernel)).1

end IngressEngine
end Bootty.Terminal
