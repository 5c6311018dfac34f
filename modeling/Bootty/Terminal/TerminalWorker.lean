import Bootty.Base.Machine
import Bootty.Terminal.OutputQueue

/-!
# The terminal worker and its reader

Model of the PTY reader thread (`crates/bootty-terminal/src/terminal_session.rs:528–542`) and of
the worker loop (`terminal_session.rs:1152–1210`, `terminal_session.rs:1710–1817`) as a machine
whose steps are the operations on what they share: the channel of read chunks, the wakeup flag
and the queue of commands.

The clock and the engine are oracles of a worker step: which time checks of a drain are late,
whether a frame is due, whether one gets published and whether a cursor move is held back. A
command that only concerns the engine and the frames says what it leaves of these flags.
-/

namespace Bootty.Terminal

open Bootty.Base

/-- `INPUT_FAST_PATH_DRAIN_BYTES`. -/
def inputFastPathDrainBytes : Nat := 64 * 1024

/-- `INPUT_FAST_PATH_DRAIN_CHUNKS`. -/
def inputFastPathDrainChunks : Nat := 8

/-- `MAX_DRAIN_BYTES`. -/
def maxDrainBytes : Nat := 4 * 1024 * 1024

/-- `MAX_DRAIN_CHUNKS`. -/
def maxDrainChunks : Nat := 32

/-- `PTY_READ_BYTES`. -/
def ptyReadBytes : Nat := 8 * 1024

/-- `MAX_PENDING_PTY_BYTES`. -/
def maxPendingPtyBytes : Nat := 512 * 1024

/-- `MAX_COLLECT_CHUNKS_PER_TICK`. -/
def maxCollectChunksPerTick : Nat := 256

/-- `MAX_READER_QUEUE_CHUNKS`. -/
def maxReaderQueueChunks : Nat := maxPendingPtyBytes / ptyReadBytes

/-- `TerminalCommand`, as far as the loop tells them apart. -/
inductive TerminalCommand where
  | ptyReady
  | stop
  | discardPendingOutput
  | prompt
  | other (changed unpublished cursor force : Bool)
  deriving DecidableEq, Repr

/-- The reader thread: `sent` and `notifying` stand between the send of a chunk and the end
of its notification. -/
inductive Reader where
  | reading
  | sent
  | notifying
  | closing
  | done
  deriving DecidableEq, Repr

/-- What an iteration of the loop has done so far. -/
structure Work where
  did : Bool
  changed : Bool
  deriving DecidableEq, Repr

/-- Where the worker stands. `prompt` marks the collection and the drain inside a `Prompt`
command. -/
inductive Phase where
  | top
  | commands (work : Work)
  | discarding (work : Work)
  | clearing (work : Work) (prompt : Bool)
  | collecting (work : Work) (prompt : Bool) (chunks : Nat)
  | draining (work : Work) (prompt : Bool)
  | publishing (work : Work)
  | deciding
  | blocked
  | waiting
  | stopped
  deriving DecidableEq, Repr

/-- Reader and worker with what they share. -/
structure TerminalWorker where
  reader : Reader
  channel : List (List UInt8)
  closed : Bool
  wakeupPending : Bool
  commandQueue : List TerminalCommand
  sessionAlive : Bool
  phase : Phase
  pendingCommand : Option TerminalCommand
  pendingPty : OutputQueue
  hasUnpublishedFrame : Bool
  cursorPending : Bool
  forceNextFramePublish : Bool
  commandDisconnected : Bool
  ptyDisconnected : Bool

namespace TerminalWorker

/-- What the clock and the engine say during a worker step. -/
structure Oracle where
  late : Nat → Bool
  published : Bool
  due : Bool
  cursor : Bool

/-- What the program, the window and both threads do. -/
inductive Event where
  | send (chunk : List UInt8)
  | swap
  | notify
  | eof
  | eofNotify
  | request (command : TerminalCommand)
  | hangup
  | worker (oracle : Oracle)

/-- Both threads have just been started. -/
def new : TerminalWorker where
  reader := .reading
  channel := []
  closed := false
  wakeupPending := false
  commandQueue := []
  sessionAlive := true
  phase := .top
  pendingCommand := none
  pendingPty := .empty
  hasUnpublishedFrame := false
  cursorPending := false
  forceNextFramePublish := false
  commandDisconnected := false
  ptyDisconnected := false

/-- No sender of commands is left. -/
def disconnected (s : TerminalWorker) : Bool := !s.sessionAlive && s.reader == .done

/-- `process_command`, `terminal_session.rs:1315–1410`. -/
def processCommand (s : TerminalWorker) (work : Work) : TerminalCommand → TerminalWorker
  | .ptyReady => { s with phase := .commands work }
  | .stop => { s with phase := .commands work, commandDisconnected := true }
  | .discardPendingOutput => { s with phase := .discarding work, pendingPty := .empty }
  | .prompt => { s with phase := .clearing work true }
  | .other changed unpublished cursor force =>
    { s with
      phase := .commands { work with changed }
      hasUnpublishedFrame := unpublished
      cursorPending := cursor
      forceNextFramePublish := force }

/-- A turn of `process_commands`, `terminal_session.rs:1284–1300`. -/
def processCommands (s : TerminalWorker) (work : Work) : TerminalWorker :=
  match s.pendingCommand, s.commandQueue with
  | some command, _ => { s with pendingCommand := none }.processCommand { work with did := true } command
  | none, command :: rest =>
    { s with commandQueue := rest }.processCommand { work with did := true } command
  | none, [] =>
    { s with
      phase := .clearing work false
      commandDisconnected := s.commandDisconnected || s.disconnected }

/-- A turn of `discard_pending_output_queue`, `terminal_session.rs:1692–1707`. -/
def discard (s : TerminalWorker) (work : Work) : TerminalWorker :=
  match s.channel with
  | _ :: rest => { s with channel := rest }
  | [] =>
    { s with
      phase := .commands work
      ptyDisconnected := s.ptyDisconnected || s.closed
      hasUnpublishedFrame := false
      cursorPending := false }

/-- A turn of `collect_pty`, `terminal_session.rs:1717–1745`. -/
def collect (s : TerminalWorker) (work : Work) (prompt : Bool) (chunks : Nat) : TerminalWorker :=
  if chunks < maxCollectChunksPerTick ∧ s.pendingPty.len < maxPendingPtyBytes then
    match s.channel with
    | chunk :: rest =>
      { s with
        channel := rest
        pendingPty := s.pendingPty.pushBack chunk
        phase := .collecting { work with did := true } prompt (chunks + 1) }
    | [] =>
      { s with
        phase := .draining work prompt
        ptyDisconnected := s.ptyDisconnected || s.closed }
  else { s with phase := .draining work prompt }

/-- The bytes and the chunks that a drain may move. -/
def drainLimits (s : TerminalWorker) : Nat × Nat :=
  if s.forceNextFramePublish then (inputFastPathDrainBytes, inputFastPathDrainChunks)
  else (maxDrainBytes, maxDrainChunks)

/-- `drain_pty`, `terminal_session.rs:1766–1817`. -/
def drain (s : TerminalWorker) (late : Nat → Bool) (work : Work) (prompt : Bool) : TerminalWorker :=
  let maxBytes := s.drainLimits.1
  let maxChunks := s.drainLimits.2
  let drained := s.pendingPty.drain late maxChunks maxChunks maxBytes 0
  let moved := decide (0 < drained.bytes)
  let work : Work := ⟨work.did || moved, work.changed || moved⟩
  { s with
    pendingPty := drained.queue
    phase := if prompt then .commands work else .publishing work }

/-- `terminal_session.rs:1165–1181`. -/
def publish (s : TerminalWorker) (oracle : Oracle) (work : Work) : TerminalWorker :=
  { s with
    hasUnpublishedFrame := (s.hasUnpublishedFrame || work.changed) && !oracle.published
    forceNextFramePublish := s.forceNextFramePublish && !oracle.published
    cursorPending := oracle.cursor
    phase := if work.did || oracle.due then .top else .deciding }

/-- `terminal_session.rs:1183–1201`. -/
def decideWait (s : TerminalWorker) : TerminalWorker :=
  { s with
    phase :=
      if s.commandDisconnected && s.ptyDisconnected && s.pendingPty.isEmpty then .stopped
      else if s.hasUnpublishedFrame || s.cursorPending then .waiting
      else .blocked }

/-- `recv` takes the next command, or finds that there will be none. -/
def receive (s : TerminalWorker) : Option TerminalWorker :=
  match s.commandQueue with
  | command :: rest =>
    some { s with commandQueue := rest, pendingCommand := some command, phase := .top }
  | [] => if s.disconnected then some { s with commandDisconnected := true, phase := .top } else none

/-- The worker's next step; `none` while it is blocked or has stopped. -/
def work (s : TerminalWorker) (oracle : Oracle) : Option TerminalWorker :=
  match s.phase with
  | .top =>
    some { s with phase := if s.commandDisconnected then .stopped else .commands ⟨false, false⟩ }
  | .commands work => some (s.processCommands work)
  | .discarding work => some (s.discard work)
  | .clearing work prompt =>
    some { s with wakeupPending := false, phase := .collecting work prompt 0 }
  | .collecting work prompt chunks => some (s.collect work prompt chunks)
  | .draining work prompt => some (s.drain oracle.late work prompt)
  | .publishing work => some (s.publish oracle work)
  | .deciding => some s.decideWait
  | .blocked => s.receive
  | .waiting => some (s.receive.getD { s with phase := .top })
  | .stopped => none

/-- One atomic step of a party. -/
def step (s : TerminalWorker) : Event → Option TerminalWorker
  | .send chunk =>
    if s.reader = .reading ∧ chunk ≠ [] ∧ chunk.length ≤ ptyReadBytes ∧
        s.channel.length < maxReaderQueueChunks then
      some { s with channel := s.channel ++ [chunk], reader := .sent }
    else none
  | .swap =>
    if s.reader = .sent then
      some { s with
        wakeupPending := true
        reader := if s.wakeupPending then .reading else .notifying }
    else none
  | .notify =>
    if s.reader = .notifying then
      some { s with commandQueue := s.commandQueue ++ [.ptyReady], reader := .reading }
    else none
  | .eof => if s.reader = .reading then some { s with closed := true, reader := .closing } else none
  | .eofNotify =>
    if s.reader = .closing then
      some { s with commandQueue := s.commandQueue ++ [.ptyReady], reader := .done }
    else none
  | .request command =>
    if s.sessionAlive then some { s with commandQueue := s.commandQueue ++ [command] } else none
  | .hangup =>
    if s.sessionAlive then
      some { s with commandQueue := s.commandQueue ++ [.stop], sessionAlive := false }
    else none
  | .worker oracle => s.work oracle

/-- The worker does not sleep on output: blocked with no command to come, it has drained
everything, and a chunk in the channel is one the reader is about to notify. -/
def SleepsOnNothing (s : TerminalWorker) : Prop :=
  s.phase = .blocked → s.commandQueue = [] → s.pendingPty.isEmpty = true ∧
    (s.channel = [] ∨ s.channel.length = 1 ∧ (s.reader = .sent ∨ s.reader = .notifying))

/-- A drain of pending output that ends an otherwise idle iteration gets past its first two
looks at the clock. -/
def Unstalled (s : TerminalWorker) : Event → Prop
  | .worker oracle => ∀ work, s.phase = .draining work false → work.did = false →
    s.pendingPty.isEmpty = false → oracle.late 0 = false ∧ oracle.late 1 = false
  | _ => True

/-! ### The invariant -/

/-- The flag is set only while a notification is on its way. -/
private def Armed (s : TerminalWorker) : Prop :=
  s.wakeupPending = true → .ptyReady ∈ s.commandQueue ∨ s.reader = .notifying

/-- The channel was seen empty after the flag was cleared: what has come since is announced,
or about to be. -/
private def Announced (s : TerminalWorker) : Prop :=
  (s.wakeupPending = false → s.channel = [] ∨ s.channel.length = 1 ∧ s.reader = .sent) ∧
    (s.wakeupPending = true →
      .ptyReady ∈ s.commandQueue ∨ s.channel.length ≤ 1 ∧ s.reader = .notifying)

/-- What is known where the worker stands, in an iteration that has done nothing yet. -/
private def Idle (s : TerminalWorker) : Prop :=
  match s.phase with
  | .collecting work false chunks => s.Armed ∧ (work.did = false → chunks = 0)
  | .draining work false => work.did = false → s.Announced ∨ maxPendingPtyBytes ≤ s.pendingPty.len
  | .publishing work => work.did = false → s.Announced ∧ s.pendingPty.isEmpty = true
  | .deciding | .blocked => s.Announced ∧ s.pendingPty.isEmpty = true
  | _ => True

private structure Kept (s : TerminalWorker) : Prop where
  channel : ∀ chunk ∈ s.channel, chunk ≠ []
  queue : s.pendingPty.Ok
  idle : s.Idle

variable {s : TerminalWorker}

private theorem idle_of_phase (h : s.Idle) (s' : TerminalWorker) (hphase : s'.phase = s.phase)
    (hqueue : s'.pendingPty = s.pendingPty) (harmed : s.Armed → s'.Armed)
    (hannounced : s.Announced → s'.Announced) : s'.Idle := by
  unfold Idle at h ⊢
  rw [hphase, hqueue]
  split at h
  · exact ⟨harmed h.1, h.2⟩
  · exact fun hdid ↦ (h hdid).imp_left hannounced
  · exact fun hdid ↦ ⟨hannounced (h hdid).1, (h hdid).2⟩
  · exact ⟨hannounced h.1, h.2⟩
  · exact ⟨hannounced h.1, h.2⟩
  · trivial

variable {s' : TerminalWorker}

private theorem idle_enqueue (h : s.Idle) (hphase : s'.phase = s.phase)
    (hqueue : s'.pendingPty = s.pendingPty) (hchannel : s'.channel = s.channel)
    (hflag : s'.wakeupPending = s.wakeupPending) (hreader : s'.reader = s.reader)
    (hcommands : s.commandQueue ⊆ s'.commandQueue) : s'.Idle := by
  apply idle_of_phase h s' hphase hqueue
  · intro harmed hpending
    rw [hreader]
    exact (harmed (hflag ▸ hpending)).imp_left fun hmem ↦ hcommands hmem
  · intro ⟨hclear, hset⟩
    unfold Announced
    rw [hflag, hchannel, hreader]
    exact ⟨hclear, fun hpending ↦ (hset hpending).imp_left fun hmem ↦ hcommands hmem⟩

private theorem kept_new : new.Kept :=
  ⟨by simp [new], OutputQueue.ok_empty, trivial⟩

/-! ### Steps of the reader -/

private theorem idle_send (h : s.Idle) (hreader : s.reader = .reading) (chunk : List UInt8) :
    Idle { s with channel := s.channel ++ [chunk], reader := .sent } := by
  apply idle_of_phase h
  · rfl
  · rfl
  · intro harmed hpending
    have hnotified := harmed hpending
    simp only [hreader, reduceCtorEq, or_false] at hnotified
    exact .inl hnotified
  · rintro ⟨hclear, hset⟩
    simp only [hreader, reduceCtorEq, and_false, or_false] at hclear hset
    constructor
    · intro hpending
      exact .inr ⟨by simp [hclear hpending], rfl⟩
    · exact fun hpending ↦ .inl (hset hpending)

private theorem idle_swap (h : s.Idle) (hreader : s.reader = .sent) :
    Idle { s with
      wakeupPending := true
      reader := if s.wakeupPending then .reading else .notifying } := by
  cases hpending : s.wakeupPending with
  | true =>
    apply idle_of_phase h
    · rfl
    · rfl
    · intro harmed _
      have hnotified := harmed hpending
      simp only [hreader, reduceCtorEq, or_false] at hnotified
      exact .inl hnotified
    · rintro ⟨-, hset⟩
      have hnotified := hset hpending
      simp only [hreader, reduceCtorEq, and_false, or_false] at hnotified
      exact ⟨fun hclear ↦ (by cases hclear), fun _ ↦ .inl hnotified⟩
  | false =>
    apply idle_of_phase h
    · rfl
    · rfl
    · exact fun _ _ ↦ .inr rfl
    · rintro ⟨hclear, -⟩
      refine ⟨fun hclear ↦ (by cases hclear), fun _ ↦ .inr ⟨?_, rfl⟩⟩
      obtain hnil | ⟨hone, -⟩ := hclear hpending
      · simp [hnil]
      · exact Nat.le_of_eq hone

private theorem idle_reader (h : s.Idle) (hsent : s.reader ≠ .sent)
    (hnotifying : s.reader ≠ .notifying) (closed : Bool) (reader : Reader) :
    Idle { s with closed, reader } := by
  apply idle_of_phase h
  · rfl
  · rfl
  · intro harmed hpending
    exact .inl ((harmed hpending).resolve_right hnotifying)
  · rintro ⟨hclear, hset⟩
    constructor
    · exact fun hpending ↦ .inl ((hclear hpending).resolve_right fun h ↦ hsent h.2)
    · exact fun hpending ↦ .inl ((hset hpending).resolve_right fun h ↦ hnotifying h.2)

private theorem idle_notify (h : s.Idle) (hsent : s.reader ≠ .sent) (reader : Reader) :
    Idle { s with commandQueue := s.commandQueue ++ [.ptyReady], reader } := by
  apply idle_of_phase h
  · rfl
  · rfl
  · exact fun _ _ ↦ .inl (by simp)
  · rintro ⟨hclear, -⟩
    constructor
    · exact fun hpending ↦ .inl ((hclear hpending).resolve_right fun h ↦ hsent h.2)
    · exact fun _ ↦ .inl (by simp)

/-! ### Steps of the worker -/

private theorem kept_processCommand (h : s.Kept) (work : Work) (command : TerminalCommand) :
    (s.processCommand work command).Kept := by
  cases command with
  | discardPendingOutput => exact ⟨h.channel, OutputQueue.ok_empty, trivial⟩
  | _ => exact ⟨h.channel, h.queue, trivial⟩

private theorem kept_processCommands (h : s.Kept) (work : Work) (hphase : s.phase = .commands work)
    : (s.processCommands work).Kept := by
  unfold processCommands
  split
  · apply kept_processCommand
    exact ⟨h.channel, h.queue, by simp only [Idle, hphase]⟩
  · apply kept_processCommand
    exact ⟨h.channel, h.queue, by simp only [Idle, hphase]⟩
  · exact ⟨h.channel, h.queue, trivial⟩

private theorem kept_discard (h : s.Kept) (work : Work) (hphase : s.phase = .discarding work) :
    (s.discard work).Kept := by
  unfold discard
  split
  · next chunk rest hchannel =>
    refine ⟨fun other hother ↦ ?_, h.queue, by simp only [Idle, hphase]⟩
    exact h.channel other (by rw [hchannel]; exact List.mem_cons_of_mem _ hother)
  · exact ⟨h.channel, h.queue, trivial⟩

private theorem kept_collect (h : s.Kept) {work : Work} {prompt : Bool} {chunks : Nat}
    (hphase : s.phase = .collecting work prompt chunks) :
    (s.collect work prompt chunks).Kept := by
  have hidle := h.idle
  simp only [Idle, hphase] at hidle
  unfold collect
  split
  · split
    · next chunk rest hchannel =>
      have hchunk : chunk ≠ [] := h.channel chunk (by rw [hchannel]; exact List.mem_cons_self)
      refine ⟨fun other hother ↦ ?_, h.queue.pushBack hchunk, ?_⟩
      · exact h.channel other (by rw [hchannel]; exact List.mem_cons_of_mem _ hother)
      · cases prompt with
        | true => trivial
        | false => exact ⟨hidle.1, fun hdid ↦ by cases hdid⟩
    · next hchannel =>
      refine ⟨h.channel, h.queue, ?_⟩
      cases prompt with
      | true => trivial
      | false =>
        intro _
        refine .inl ⟨fun _ ↦ .inl hchannel, fun hpending ↦ ?_⟩
        exact (hidle.1 hpending).imp_right fun hreader ↦ ⟨by simp [hchannel], hreader⟩
  · next hlimit =>
    refine ⟨h.channel, h.queue, ?_⟩
    cases prompt with
    | true => trivial
    | false =>
      intro hdid
      have hzero := hidle.2 hdid
      have hchunks : chunks < maxCollectChunksPerTick := by
        rw [hzero]
        decide
      exact .inr (Nat.le_of_not_lt fun hlt ↦ hlimit ⟨hchunks, hlt⟩)

private theorem drainLimits_pos (s : TerminalWorker) :
    0 < s.drainLimits.1 ∧ 0 < s.drainLimits.2 := by
  unfold drainLimits
  split <;> decide

private theorem kept_drain (h : s.Kept) {late : Nat → Bool} {work : Work} {prompt : Bool}
    (hphase : s.phase = .draining work prompt)
    (htime : prompt = false → work.did = false → s.pendingPty.isEmpty = false →
      late 0 = false ∧ late 1 = false) : (s.drain late work prompt).Kept := by
  have hidle := h.idle
  simp only [Idle, hphase] at hidle
  refine ⟨h.channel, h.queue.drain, ?_⟩
  cases prompt with
  | true => trivial
  | false =>
    intro hdid
    simp only [Bool.or_eq_false_iff, decide_eq_false_iff_not] at hdid
    obtain ⟨hdid, hmoved⟩ := hdid
    cases hempty : s.pendingPty.isEmpty with
    | false =>
      -- The drain got past its first checks, so it has moved something.
      obtain ⟨hqueue, hbacklog⟩ := htime rfl hdid hempty
      obtain ⟨hbytes, hchunks⟩ := s.drainLimits_pos
      exact absurd (h.queue.drain_pos hempty hbytes hchunks hchunks hqueue hbacklog) hmoved
    | true =>
      have hannounced : s.Announced := by
        apply (hidle hdid).resolve_right
        rw [h.queue.len_of_isEmpty hempty]
        decide
      refine ⟨hannounced, ?_⟩
      show (OutputQueue.drain _ _ _ _ _ _).queue.isEmpty = true
      rw [OutputQueue.drain_of_isEmpty hempty]
      exact hempty

private theorem kept_publish (h : s.Kept) {oracle : Oracle} {work : Work}
    (hphase : s.phase = .publishing work) : (s.publish oracle work).Kept := by
  have hidle := h.idle
  simp only [Idle, hphase] at hidle
  refine ⟨h.channel, h.queue, ?_⟩
  cases hdid : work.did with
  | true =>
    simp only [publish, Idle, hdid, Bool.true_or, if_true]
  | false =>
    cases hdue : oracle.due with
    | true => simp only [publish, Idle, hdid, hdue, Bool.or_true, if_true]
    | false =>
      simp only [publish, Idle, hdid, hdue, Bool.or_self, Bool.false_eq_true, if_false]
      exact hidle hdid

private theorem kept_decideWait (h : s.Kept) (hphase : s.phase = .deciding) :
    s.decideWait.Kept := by
  have hidle := h.idle
  simp only [Idle, hphase] at hidle
  refine ⟨h.channel, h.queue, ?_⟩
  unfold decideWait
  split
  · trivial
  · split
    · trivial
    · exact hidle

private theorem kept_receive (h : s.Kept) (hs : s.receive = some s') :
    s'.Kept := by
  unfold receive at hs
  split at hs
  · obtain rfl := Option.some.inj hs
    exact ⟨h.channel, h.queue, trivial⟩
  · obtain ⟨-, ⟨⟩⟩ := Option.ite_none_right_eq_some.mp hs
    exact ⟨h.channel, h.queue, trivial⟩

private theorem kept_work (h : s.Kept) {oracle : Oracle} (hok : Unstalled s (.worker oracle))
    (hs : s.work oracle = some s') : s'.Kept := by
  unfold work at hs
  split at hs
  · obtain rfl := Option.some.inj hs
    refine ⟨h.channel, h.queue, ?_⟩
    unfold Idle
    cases s.commandDisconnected <;> trivial
  · next work hphase =>
    obtain rfl := Option.some.inj hs
    exact kept_processCommands h work hphase
  · next work hphase =>
    obtain rfl := Option.some.inj hs
    exact kept_discard h work hphase
  · next work prompt hphase =>
    obtain rfl := Option.some.inj hs
    refine ⟨h.channel, h.queue, ?_⟩
    cases prompt with
    | true => trivial
    | false => exact ⟨fun hpending ↦ (by cases hpending), fun _ ↦ rfl⟩
  · next work prompt chunks hphase =>
    obtain rfl := Option.some.inj hs
    exact kept_collect h hphase
  · next work prompt hphase =>
    obtain rfl := Option.some.inj hs
    apply kept_drain h hphase
    rintro rfl hdid hempty
    exact hok work hphase hdid hempty
  · next work hphase =>
    obtain rfl := Option.some.inj hs
    exact kept_publish h hphase
  · next hphase =>
    obtain rfl := Option.some.inj hs
    exact kept_decideWait h hphase
  · exact kept_receive h hs
  · obtain rfl := Option.some.inj hs
    cases hreceive : s.receive with
    | none => exact ⟨h.channel, h.queue, trivial⟩
    | some next => exact kept_receive h hreceive
  · cases hs

private theorem kept_step (s : TerminalWorker) (e : Event) (s' : TerminalWorker) (h : s.Kept)
    (hok : Unstalled s e) (hs : s.step e = some s') : s'.Kept := by
  cases e with
  | send chunk =>
    obtain ⟨⟨hreader, hchunk, -⟩, ⟨⟩⟩ := Option.ite_none_right_eq_some.mp hs
    refine ⟨fun other hother ↦ ?_, h.queue, idle_send h.idle hreader chunk⟩
    obtain hother | hother := List.mem_append.mp hother
    · exact h.channel other hother
    · rw [List.mem_singleton.mp hother]
      exact hchunk
  | swap =>
    obtain ⟨hreader, ⟨⟩⟩ := Option.ite_none_right_eq_some.mp hs
    exact ⟨h.channel, h.queue, idle_swap h.idle hreader⟩
  | notify =>
    obtain ⟨hreader, ⟨⟩⟩ := Option.ite_none_right_eq_some.mp hs
    exact ⟨h.channel, h.queue, idle_notify h.idle (by simp [hreader]) _⟩
  | eof =>
    obtain ⟨hreader, ⟨⟩⟩ := Option.ite_none_right_eq_some.mp hs
    exact ⟨h.channel, h.queue, idle_reader h.idle (by simp [hreader]) (by simp [hreader]) _ _⟩
  | eofNotify =>
    obtain ⟨hreader, ⟨⟩⟩ := Option.ite_none_right_eq_some.mp hs
    exact ⟨h.channel, h.queue, idle_notify h.idle (by simp [hreader]) _⟩
  | request command =>
    obtain ⟨-, ⟨⟩⟩ := Option.ite_none_right_eq_some.mp hs
    refine ⟨h.channel, h.queue, ?_⟩
    exact idle_enqueue h.idle rfl rfl rfl rfl rfl (List.subset_append_left _ _)
  | hangup =>
    obtain ⟨-, ⟨⟩⟩ := Option.ite_none_right_eq_some.mp hs
    refine ⟨h.channel, h.queue, ?_⟩
    exact idle_enqueue h.idle rfl rfl rfl rfl rfl (List.subset_append_left _ _)
  | worker oracle => exact kept_work h hok hs

private theorem sleepsOnNothing_of_kept (h : s.Kept) :
    s.SleepsOnNothing := by
  intro hphase hqueue
  have hidle := h.idle
  simp only [Idle, hphase] at hidle
  obtain ⟨⟨hclear, hset⟩, hempty⟩ := hidle
  refine ⟨hempty, ?_⟩
  cases hpending : s.wakeupPending with
  | false =>
    apply (hclear hpending).imp_right
    exact fun ⟨hone, hreader⟩ ↦ ⟨hone, .inl hreader⟩
  | true =>
    have hnotifying := hset hpending
    simp only [hqueue, List.not_mem_nil, false_or] at hnotifying
    obtain ⟨hle, hreader⟩ := hnotifying
    cases hchannel : s.channel with
    | nil => exact .inl rfl
    | cons chunk rest =>
      refine .inr ⟨?_, .inr hreader⟩
      simp only [hchannel, List.length_cons] at hle ⊢
      omega

/-! ### The result -/

/-- While no idle iteration is stalled in its drain, the worker never sleeps on output. -/
theorem worker_never_sleeps_on_output {s : TerminalWorker} (h : Reaches step Unstalled new s) :
    s.SleepsOnNothing :=
  sleepsOnNothing_of_kept (h.invariant kept_new kept_step)

/-- The clock passes no limit and no frame is held back. -/
private def onTime : Oracle := ⟨fun _ ↦ false, false, false, false⟩

private def stalled : Oracle := ⟨fun _ ↦ true, false, false, false⟩

private def unstalledTest (s : TerminalWorker) : Event → Bool
  | .worker oracle =>
    match s.phase with
    | .draining work false =>
      work.did || s.pendingPty.isEmpty || (!oracle.late 0 && !oracle.late 1)
    | _ => true
  | _ => true

private theorem unstalled_of_test (s : TerminalWorker) (e : Event)
    (h : unstalledTest s e = true) : Unstalled s e := by
  cases e with
  | worker oracle =>
    intro work hphase hdid hempty
    simpa [unstalledTest, hphase, hdid, hempty] using h
  | _ => trivial

/-- A chunk is read and announced; the worker drains it, publishes the frame and sleeps. -/
private def delivered : List Event :=
  [.send [65], .swap, .notify] ++ List.replicate 7 (.worker onTime) ++
    [.worker { onTime with published := true }] ++ List.replicate 7 (.worker onTime)

/-- The worker does go to sleep, with the chunk drained. -/
theorem worker_never_sleeps_on_output_delivered :
    ∃ s, Reaches step Unstalled new s ∧ (s.phase = .blocked ∧ s.commandQueue = []) ∧
      s.SleepsOnNothing := by
  have hrun : ((runEvents step unstalledTest new delivered).map fun s ↦
      decide (s.phase = .blocked ∧ s.commandQueue = [])) = some true := by decide +kernel
  obtain ⟨s, hs, hgoal⟩ := exists_reaches_of_runEvents unstalled_of_test hrun
  exact ⟨s, hs, of_decide_eq_true hgoal, worker_never_sleeps_on_output hs⟩

/-- The clock passes the limit of a drain that has to move the chunk, and of the next one,
which ends an iteration without commands or chunks to collect. -/
private def stalledTwice : List Event :=
  [.send [65], .swap, .notify] ++ List.replicate 15 (.worker stalled)

/-- A worker whose drains are stalled twice sleeps on the chunk it has collected. -/
theorem not_worker_never_sleeps_on_output :
    ¬ ∀ s, Reaches step anyStep new s → s.SleepsOnNothing := by
  intro hall
  have hrun : ((runEvents step anyTest new stalledTwice).map fun s ↦
      decide (s.phase = .blocked ∧ s.commandQueue = []) && !s.pendingPty.isEmpty) =
      some true := by decide +kernel
  obtain ⟨s, hs, hgoal⟩ := exists_reaches_anyStep hrun
  simp only [Bool.and_eq_true, decide_eq_true_eq, Bool.not_eq_true'] at hgoal
  have hsleeps := (hall s hs hgoal.1.1 hgoal.1.2).1
  rw [hgoal.2] at hsleeps
  cases hsleeps

end TerminalWorker
end Bootty.Terminal
