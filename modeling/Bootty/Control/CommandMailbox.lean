import Bootty.Base.BatchQueue
import Bootty.Control.ControlTasks

/-!
# The command mailbox

Model of the channel that carries commands to the application
(`crates/bootty-control/src/command/mailbox.rs:80–167`) and of the loop that takes them out of it
(`CommandRuntime::drain_app_commands`, `crates/bootty-ui/src/commands/runtime.rs:393–455`). A sender
holds the lock of `open` while its request goes in, so that is one step; it calls the wake callback,
which asks for a frame, later. A frame takes at most 32 requests and asks for another frame if it
took as many.
-/

namespace Bootty.Control

open Bootty.Base

/-- Who a command comes from. -/
inductive Caller where
  | commandPalette
  | keybinding
  | builtinKeybinding
  | cli
  | socket
  | luau
  | internal
  deriving DecidableEq, Repr

/-- A request, with the number of its cell. The content is what the mailbox does not look at: the
command with its arguments, target and confirmation, and the channels for the answers. -/
structure AppCommandRequest (R : Type) where
  caller : Caller
  content : R
  deadline : Nat
  cancellation : Nat
  deriving DecidableEq, Repr

/-- `AppCommandSendError`. -/
inductive AppCommandSendError where
  | overloaded
  | shutdown
  deriving DecidableEq, Repr

/-- `CommandOutcome::Failed`. -/
structure CommandFailure where
  code : String
  message : String
  deriving DecidableEq, Repr

namespace CommandFailure

/-- The answer to a cancelled request. -/
def cancelled : CommandFailure := ⟨"cancelled", "command was cancelled"⟩

/-- The answer to a request past its deadline. -/
def deadlineExceeded : CommandFailure := ⟨"deadline_exceeded", "command deadline expired"⟩

/-- The answer of a mailbox that is shut down. -/
def shutdown : CommandFailure := ⟨"shutdown", "application command channel shut down"⟩

end CommandFailure

/-- What became of a request that came out of the mailbox. -/
inductive CommandFate where
  | answered (failure : CommandFailure)
  | dispatched
  deriving DecidableEq, Repr

/-- The receiver is in use, its `drop` has taken the lock, or its `drop` has ended. -/
inductive MailboxPhase where
  | opened
  | closed
  | gone
  deriving DecidableEq, Repr

/-- The queue with the notifications of its senders, and the cells of the requests. The last three
fields are not in the code: the requests that were accepted, what became of those that came out, and
how often the wake callback was called. -/
structure CommandMailbox (R : Type) where
  mail : BatchQueue (AppCommandRequest R)
  phase : MailboxPhase
  cells : Nat → CommandCancellation
  accepted : List (AppCommandRequest R)
  fates : List (AppCommandRequest R × CommandFate)
  wakes : Nat

/-- What clients, window and clock do. -/
inductive MailboxEvent (R : Type) where
  | submit (caller : Caller) (request : AppCommandRequest R)
  | wake
  | beginFrame
  | receive (now : Nat)
  | endFrame
  /-- The receiver's `drop` closes the mailbox, answers the requests in it, and ends. -/
  | close
  | drain
  | retire
  /-- Another party of a command cancels it or starts it. -/
  | cancelCell (cell : Nat)
  | tryStart (cell : Nat)

variable {R : Type}

namespace CommandMailbox

/-- The capacity that `CommandRuntime::new` asks for. -/
def capacity : Nat := 64

/-- The most that one frame takes. -/
def batch : Nat := 32

/-- An empty mailbox. -/
def new : CommandMailbox R := ⟨.new, .opened, fun _ ↦ .pending, [], [], 0⟩

/-- `BoundAppCommandSender::try_send`, up to the call of the wake callback. -/
def trySend (m : CommandMailbox R) (caller : Caller) (request : AppCommandRequest R) :
    Except AppCommandSendError Unit × CommandMailbox R :=
  if m.phase ≠ .opened then (.error .shutdown, m)
  else
    match m.mail.step capacity batch (.push { request with caller }) with
    | none => (.error .overloaded, m)
    | some mail =>
      (.ok (), { m with mail, accepted := m.accepted ++ [{ request with caller }] })

/-- What the loop does with a request: `runtime.rs:415–437`. A command that is dispatched may be
started by the parties that go on with it. -/
def dispatch (cells : Nat → CommandCancellation) (request : AppCommandRequest R) (now : Nat) :
    CommandFate × (Nat → CommandCancellation) :=
  if cells request.cancellation = .cancelled then (.answered .cancelled, cells)
  else if request.deadline ≤ now then
    (.answered .deadlineExceeded,
      Function.update cells request.cancellation (cells request.cancellation).cancel.2)
  else (.dispatched, cells)

/-- The request at the front of the queue comes out. -/
def settle (m : CommandMailbox R) (mail : BatchQueue (AppCommandRequest R)) (fate : CommandFate) :
    CommandMailbox R :=
  { m with mail, fates := m.fates ++ (m.mail.queue.take 1).map (·, fate) }

/-- One event, where it can happen. -/
def step (m : CommandMailbox R) : MailboxEvent R → Option (CommandMailbox R)
  | .submit caller request => some (m.trySend caller request).2
  | .wake =>
    (m.mail.step capacity batch .notify).map fun mail ↦ { m with mail, wakes := m.wakes + 1 }
  | .beginFrame =>
    if m.phase = .opened then
      (m.mail.step capacity batch .begin).map fun mail ↦ { m with mail }
    else none
  | .receive now =>
    match m.mail.queue, m.mail.step capacity batch .receive with
    | request :: _, some mail =>
      let (fate, cells) := dispatch m.cells request now
      some { m.settle mail fate with cells }
    | _, _ => none
  | .endFrame => (m.mail.step capacity batch .finish).map fun mail ↦ { m with mail }
  | .close =>
    if m.phase = .opened ∧ m.mail.handler = none then some { m with phase := .closed } else none
  | .drain =>
    if m.phase = .closed ∧ m.mail.queue ≠ [] then
      some (m.settle { m.mail with queue := m.mail.queue.tail } (.answered .shutdown))
    else none
  | .retire =>
    if m.phase = .closed ∧ m.mail.queue = [] then some { m with phase := .gone } else none
  | .cancelCell cell =>
    some { m with cells := Function.update m.cells cell (m.cells cell).cancel.2 }
  | .tryStart cell =>
    some { m with cells := Function.update m.cells cell (m.cells cell).tryStart.2 }

/-! ### Every run -/

/-- The requests come out in the order in which they went in, and none is lost or comes out twice. A
request that is answered as cancelled or as too late does not start any more; only the `drop` of the
receiver answers that the application shuts down, and that answer leaves the cell as it is. -/
structure Sound (m : CommandMailbox R) : Prop where
  mail : m.phase = .opened → m.mail.Sound capacity batch
  idle : m.phase ≠ .opened → m.mail.handler = none
  bounded : m.mail.queue.length ≤ capacity
  fifo : m.accepted = m.fates.map Prod.fst ++ m.mail.queue
  woken : m.wakes + m.mail.notifying = m.accepted.length
  gone : m.phase = .gone → m.mail.queue = []
  shutdown : ∀ request, (request, .answered .shutdown) ∈ m.fates → m.phase ≠ .opened
  settled : ∀ request fate, (request, fate) ∈ m.fates →
    fate = .answered .cancelled ∨ fate = .answered .deadlineExceeded →
    m.cells request.cancellation ≠ .pending

variable {m m' : CommandMailbox R}

private theorem sound_new : (new : CommandMailbox R).Sound := by
  constructor
  · exact fun _ ↦ BatchQueue.sound_new
  · exact fun _ ↦ rfl
  · exact Nat.zero_le _
  · rfl
  · rfl
  · exact fun _ ↦ rfl
  · exact fun _ h ↦ by cases h
  · exact fun _ _ h ↦ by cases h

/-- What `try_send` answers and does. -/
theorem trySend_cases (m : CommandMailbox R) (caller : Caller) (request : AppCommandRequest R) :
    m.phase ≠ .opened ∧ m.trySend caller request = (.error .shutdown, m) ∨
    m.phase = .opened ∧ capacity ≤ m.mail.queue.length ∧
      m.trySend caller request = (.error .overloaded, m) ∨
    m.phase = .opened ∧ ∃ mail,
      m.mail.step capacity batch (.push { request with caller }) = some mail ∧
      m.trySend caller request =
        (.ok (), { m with mail, accepted := m.accepted ++ [{ request with caller }] }) := by
  by_cases hopened : m.phase = .opened
  · rw [trySend, if_neg (not_not_intro hopened)]
    cases hpush : m.mail.step capacity batch (.push { request with caller }) with
    | none =>
      have hfull : ¬m.mail.queue.length < capacity := by
        intro hroom
        rw [BatchQueue.step, if_pos hroom] at hpush
        cases hpush
      exact .inr (.inl ⟨hopened, Nat.le_of_not_lt hfull, rfl⟩)
    | some mail => exact .inr (.inr ⟨hopened, mail, rfl, rfl⟩)
  · exact .inl ⟨hopened, if_pos hopened⟩

variable {request : AppCommandRequest R}

private theorem sound_submit {caller : Caller} (h : m.Sound) :
    (m.trySend caller request).2.Sound := by
  rcases m.trySend_cases caller request with ⟨-, heq⟩ | ⟨-, -, heq⟩ | ⟨hopened, mail, hpush, heq⟩
  · rwa [heq]
  · rwa [heq]
  rw [heq]
  have hmail := BatchQueue.sound_step (h.mail hopened) hpush
  obtain ⟨-, rfl⟩ := BatchQueue.push_eq_some hpush
  constructor
  · exact fun _ ↦ hmail
  · exact h.idle
  · exact hmail.bounded
  · rw [h.fifo, List.append_assoc]
  · rw [List.length_append, ← h.woken]
    rfl
  · intro hgone
    rw [hopened] at hgone
    cases hgone
  · exact h.shutdown
  · exact h.settled

/-- A step of the queue that takes nothing out and puts nothing in. -/
theorem sound_quiet {e : BatchQueue.Event (AppCommandRequest R)}
    {mail : BatchQueue (AppCommandRequest R)} {wakes : Nat} (h : m.Sound)
    (hstep : m.mail.step capacity batch e = some mail) (hqueue : mail.queue = m.mail.queue)
    (hidle : m.phase ≠ .opened → mail.handler = none)
    (hwakes : wakes + mail.notifying = m.wakes + m.mail.notifying) :
    Sound { m with mail, wakes } := by
  constructor
  · exact fun hopened ↦ BatchQueue.sound_step (h.mail hopened) hstep
  · exact hidle
  · exact hqueue ▸ h.bounded
  · exact hqueue ▸ h.fifo
  · exact hwakes.trans h.woken
  · exact fun hgone ↦ hqueue.trans (h.gone hgone)
  · exact h.shutdown
  · exact h.settled

private theorem dispatch_cases (cells : Nat → CommandCancellation) (request : AppCommandRequest R)
    (now : Nat) :
    cells request.cancellation = .cancelled ∧
      dispatch cells request now = (.answered .cancelled, cells) ∨
    cells request.cancellation ≠ .cancelled ∧ request.deadline ≤ now ∧
      dispatch cells request now = (.answered .deadlineExceeded,
        Function.update cells request.cancellation (cells request.cancellation).cancel.2) ∨
    cells request.cancellation ≠ .cancelled ∧ now < request.deadline ∧
      dispatch cells request now = (.dispatched, cells) := by
  rw [dispatch]
  by_cases hcancelled : cells request.cancellation = .cancelled
  · exact .inl ⟨hcancelled, if_pos hcancelled⟩
  · rw [if_neg hcancelled]
    by_cases hdeadline : request.deadline ≤ now
    · exact .inr (.inl ⟨hcancelled, hdeadline, if_pos hdeadline⟩)
    · exact .inr (.inr ⟨hcancelled, Nat.lt_of_not_le hdeadline, if_neg hdeadline⟩)

private theorem answered_ne_shutdown {fate : CommandFate}
    (h : fate = .answered .cancelled ∨ fate = .answered .deadlineExceeded) :
    fate ≠ .answered .shutdown := by
  rcases h with rfl | rfl <;> decide

/-- What is settled stays so, a dispatch does not shut down, and a request that it answers does not
start any more. -/
theorem dispatch_spec (cells : Nat → CommandCancellation) (request : AppCommandRequest R)
    (now : Nat) :
    (∀ cell, cells cell ≠ .pending → (dispatch cells request now).2 cell = cells cell) ∧
    (dispatch cells request now).1 ≠ .answered .shutdown ∧
    ((dispatch cells request now).1 ≠ .dispatched →
      (dispatch cells request now).2 request.cancellation ≠ .pending) := by
  rcases dispatch_cases cells request now with ⟨hcancelled, heq⟩ | ⟨-, -, heq⟩ | ⟨-, -, heq⟩ <;>
    rw [heq]
  · refine ⟨fun _ _ ↦ rfl, answered_ne_shutdown (.inl rfl), fun _ ↦ ?_⟩
    simp [hcancelled]
  · refine ⟨fun cell ↦ TaskServer.update_of_settled TaskServer.cancel_of_ne cell,
      answered_ne_shutdown (.inr rfl), fun _ ↦ ?_⟩
    simp only [Function.update_self]
    exact TaskServer.cancel_settled _
  · exact ⟨fun _ _ ↦ rfl, CommandFate.noConfusion, fun h ↦ absurd rfl h⟩

private theorem settle_eq {rest : List (AppCommandRequest R)}
    (hqueue : m.mail.queue = request :: rest)
    (mail : BatchQueue (AppCommandRequest R)) (fate : CommandFate) :
    m.settle mail fate = { m with mail, fates := m.fates ++ [(request, fate)] } := by
  rw [settle, hqueue]
  rfl

/-- The front of the queue comes out with a fate. -/
theorem Sound.settle {mail : BatchQueue (AppCommandRequest R)} {fate : CommandFate}
    {cells : Nat → CommandCancellation} (h : m.Sound)
    (hqueue : m.mail.queue = request :: mail.queue) (hnotifying : mail.notifying = m.mail.notifying)
    (hmail : m.phase = .opened → mail.Sound capacity batch)
    (hidle : m.phase ≠ .opened → mail.handler = none)
    (hcells : ∀ cell, m.cells cell ≠ .pending → cells cell = m.cells cell)
    (hshutdown : fate = .answered .shutdown → m.phase ≠ .opened)
    (hsettled : fate = .answered .cancelled ∨ fate = .answered .deadlineExceeded →
      cells request.cancellation ≠ .pending) :
    Sound { m.settle mail fate with cells } := by
  have hgone : m.phase ≠ .gone := by
    intro hgone
    rw [h.gone hgone] at hqueue
    cases hqueue
  rw [settle_eq hqueue]
  constructor
  · exact hmail
  · exact hidle
  · have hbounded := h.bounded
    rw [hqueue, List.length_cons] at hbounded
    exact Nat.le_of_succ_le hbounded
  · simp [h.fifo, hqueue]
  · exact hnotifying ▸ h.woken
  · exact fun hphase ↦ absurd hphase hgone
  · intro other hother
    rw [List.mem_append, List.mem_singleton, Prod.mk.injEq] at hother
    exact hother.elim (h.shutdown other) fun heq ↦ hshutdown heq.2.symm
  · intro other otherFate hother hanswered
    rw [List.mem_append, List.mem_singleton, Prod.mk.injEq] at hother
    rcases hother with hbefore | ⟨rfl, rfl⟩
    · have hkept := h.settled other otherFate hbefore hanswered
      exact fun hpending ↦ hkept (hcells _ hkept ▸ hpending)
    · exact hsettled hanswered

private theorem sound_receive {now : Nat} (h : m.Sound) (hstep : m.step (.receive now) = some m') :
    m'.Sound := by
  simp only [step] at hstep
  split at hstep
  · next request rest mail hqueue hreceive =>
    obtain rfl := Option.some.inj hstep
    obtain ⟨received, item, rest', hhandler, hqueue', -, hmail⟩ :=
      BatchQueue.receive_eq_some hreceive
    have hopened : m.phase = .opened := by
      by_contra hclosed
      rw [h.idle hclosed] at hhandler
      cases hhandler
    have hrest : m.mail.queue = request :: mail.queue := by
      rw [hqueue] at hqueue' ⊢
      rw [hmail, (List.cons.inj hqueue').2]
    obtain ⟨hkept, hnot, hanswered⟩ := dispatch_spec m.cells request now
    refine h.settle hrest (by rw [hmail])
      (fun _ ↦ BatchQueue.sound_step (h.mail hopened) hreceive)
      (fun hclosed ↦ absurd hopened hclosed) hkept (fun hshutdown ↦ absurd hshutdown hnot)
      fun hfate ↦ hanswered ?_
    rcases hfate with hfate | hfate <;> simp [hfate]
  · cases hstep

private theorem sound_drain (h : m.Sound) (hstep : m.step .drain = some m') : m'.Sound := by
  obtain ⟨⟨hclosed, hqueue⟩, heq⟩ := Option.ite_none_right_eq_some.mp hstep
  obtain rfl := Option.some.inj heq
  have hshut : m.phase ≠ .opened := by simp [hclosed]
  exact h.settle (List.cons_head_tail hqueue).symm rfl (fun hopened ↦ absurd hopened hshut)
    h.idle (fun _ _ ↦ rfl) (fun _ ↦ hshut)
    fun hfate ↦ absurd rfl (answered_ne_shutdown hfate)

private theorem sound_cells {cells : Nat → CommandCancellation} (h : m.Sound)
    (hcells : ∀ cell, m.cells cell ≠ .pending → cells cell = m.cells cell) :
    Sound { m with cells } := by
  refine ⟨h.mail, h.idle, h.bounded, h.fifo, h.woken, h.gone, h.shutdown, ?_⟩
  intro request fate hmem hfate hpending
  have hkept := h.settled request fate hmem hfate
  exact hkept (hcells _ hkept ▸ hpending)

/-- The receiver's `drop` goes on. -/
theorem sound_phase {phase : MailboxPhase} (h : m.Sound) (hclosed : phase ≠ .opened)
    (hidle : m.mail.handler = none) (hgone : phase = .gone → m.mail.queue = []) :
    Sound { m with phase } := by
  constructor
  · exact fun hopened ↦ absurd hopened hclosed
  · exact fun _ ↦ hidle
  · exact h.bounded
  · exact h.fifo
  · exact h.woken
  · exact hgone
  · exact fun _ _ ↦ hclosed
  · exact h.settled

variable {e : MailboxEvent R}

private theorem sound_step (h : m.Sound) (hstep : m.step e = some m') : m'.Sound := by
  cases e with
  | submit caller request =>
    obtain rfl := Option.some.inj hstep
    exact sound_submit h
  | wake =>
    obtain ⟨mail, hnotify, rfl⟩ := Option.map_eq_some_iff.mp hstep
    obtain ⟨hpos, hmail⟩ := BatchQueue.notify_eq_some hnotify
    refine sound_quiet h hnotify (by rw [hmail]) (fun hclosed ↦ ?_) ?_
    · rw [hmail]
      exact h.idle hclosed
    · simp only [hmail]
      omega
  | beginFrame =>
    obtain ⟨hopened, heq⟩ := Option.ite_none_right_eq_some.mp hstep
    obtain ⟨mail, hbegin, rfl⟩ := Option.map_eq_some_iff.mp heq
    obtain ⟨-, hmail⟩ := BatchQueue.begin_eq_some hbegin
    exact sound_quiet h hbegin (by rw [hmail]) (fun hclosed ↦ absurd hopened hclosed)
      (by rw [hmail])
  | receive now => exact sound_receive h hstep
  | endFrame =>
    obtain ⟨mail, hfinish, rfl⟩ := Option.map_eq_some_iff.mp hstep
    obtain ⟨received, hhandler, ⟨-, hmail⟩ | ⟨-, -, hmail⟩⟩ := BatchQueue.finish_eq_some hfinish <;>
      exact sound_quiet h hfinish (by rw [hmail]) (fun _ ↦ by rw [hmail]) (by rw [hmail])
  | close =>
    obtain ⟨⟨-, hidle⟩, heq⟩ := Option.ite_none_right_eq_some.mp hstep
    obtain rfl := Option.some.inj heq
    exact sound_phase h MailboxPhase.noConfusion hidle MailboxPhase.noConfusion
  | drain => exact sound_drain h hstep
  | retire =>
    obtain ⟨⟨hclosed, hempty⟩, heq⟩ := Option.ite_none_right_eq_some.mp hstep
    obtain rfl := Option.some.inj heq
    exact sound_phase h MailboxPhase.noConfusion (h.idle (by simp [hclosed])) fun _ ↦ hempty
  | cancelCell cell =>
    obtain rfl := Option.some.inj hstep
    exact sound_cells h (TaskServer.update_of_settled TaskServer.cancel_of_ne)
  | tryStart cell =>
    obtain rfl := Option.some.inj hstep
    exact sound_cells h (TaskServer.update_of_settled TaskServer.tryStart_of_ne)

/-! ### The mailbox is emptied -/

/-- The steps of senders that wake, and of frames that were asked for. -/
def Handles (m : CommandMailbox R) : MailboxEvent R → Prop
  | .wake | .receive _ | .endFrame => True
  | .beginFrame => m.mail.permit = true
  | .submit .. | .close | .drain | .retire | .cancelCell _ | .tryStart _ => False

/-- What these steps do to the queue. -/
theorem exists_internal (hhandles : m.Handles e) (h : m.step e = some m') :
    m'.phase = m.phase ∧ m'.accepted = m.accepted ∧ ∃ e', m.mail.Internal e' ∧
      m.mail.step capacity batch e' = some m'.mail := by
  cases e with
  | wake =>
    obtain ⟨mail, hnotify, rfl⟩ := Option.map_eq_some_iff.mp h
    exact ⟨rfl, rfl, .notify, trivial, hnotify⟩
  | beginFrame =>
    obtain ⟨-, heq⟩ := Option.ite_none_right_eq_some.mp h
    obtain ⟨mail, hbegin, rfl⟩ := Option.map_eq_some_iff.mp heq
    exact ⟨rfl, rfl, .begin, hhandles, hbegin⟩
  | receive now =>
    simp only [step] at h
    split at h
    · next request rest mail hqueue hreceive =>
      obtain rfl := Option.some.inj h
      exact ⟨rfl, rfl, .receive, trivial, hreceive⟩
    · cases h
  | endFrame =>
    obtain ⟨mail, hfinish, rfl⟩ := Option.map_eq_some_iff.mp h
    exact ⟨rfl, rfl, .finish, trivial, hfinish⟩
  | submit | close | drain | retire | cancelCell | tryStart => exact absurd hhandles id

private theorem exists_handles (hs : m.Sound) (hopened : m.phase = .opened)
    (hqueue : m.mail.queue ≠ []) : ∃ e, m.Handles e ∧ (m.step e).isSome := by
  obtain ⟨e, hinternal, henabled⟩ := BatchQueue.exists_step (hs.mail hopened) hqueue
  cases e with
  | push request => exact absurd hinternal id
  | notify => exact ⟨.wake, trivial, by rwa [step, Option.isSome_map]⟩
  | begin =>
    refine ⟨.beginFrame, hinternal, ?_⟩
    rwa [step, if_pos hopened, Option.isSome_map]
  | receive =>
    obtain ⟨mail, hreceive⟩ := Option.isSome_iff_exists.mp henabled
    obtain ⟨received, request, rest, -, hitems, -⟩ := BatchQueue.receive_eq_some hreceive
    refine ⟨.receive 0, trivial, ?_⟩
    simp only [step, hitems, hreceive]
    rfl
  | finish => exact ⟨.endFrame, trivial, by rwa [step, Option.isSome_map]⟩

private theorem cost_handles (hhandles : m.Handles e) (h : m.step e = some m') :
    m'.mail.cost batch < m.mail.cost batch := by
  obtain ⟨-, -, e', hinternal, hstep⟩ := exists_internal hhandles h
  exact BatchQueue.cost_step (by decide) hinternal hstep

/-- What holds while an open mailbox is emptied. -/
structure Emptying (accepted : List (AppCommandRequest R)) (m : CommandMailbox R) : Prop where
  sound : m.Sound
  opened : m.phase = .opened
  accepted : m.accepted = accepted

/-- An open mailbox can be emptied without new requests. -/
theorem exists_emptied (hs : m.Sound) (hopened : m.phase = .opened) :
    ∃ m', Reaches step Handles m m' ∧ m'.accepted = m.accepted ∧
      m'.fates.map Prod.fst = m.accepted := by
  have hstep : ∀ (n : CommandMailbox R) e n', Emptying m.accepted n → Handles n e →
      n.step e = some n' → Emptying m.accepted n' ∧
        ∃ e', n.mail.Internal e' ∧ n.mail.step capacity batch e' = some n'.mail := by
    intro n e n' hn hhandles h
    obtain ⟨hphase, haccepted, hinternal⟩ := exists_internal hhandles h
    exact ⟨⟨sound_step hn.sound h, hphase.trans hn.opened, haccepted.trans hn.accepted⟩, hinternal⟩
  obtain ⟨m', hreaches, hdone, hempty⟩ := BatchQueue.exists_reaches_empty (by decide) hstep
    (fun n hn ↦ exists_handles hn.sound hn.opened) ⟨hs, hopened, rfl⟩
  refine ⟨m', hreaches, hdone.accepted, ?_⟩
  rw [← hdone.accepted, hdone.sound.fifo, hempty, List.append_nil]

/-- A mailbox that is no longer open takes no request and stays so. -/
theorem closed_step (hclosed : m.phase ≠ .opened) (h : m.step e = some m') :
    m'.phase ≠ .opened ∧ m'.accepted = m.accepted := by
  cases e with
  | submit caller request =>
    obtain rfl := Option.some.inj h
    rw [trySend, if_pos hclosed]
    exact ⟨hclosed, rfl⟩
  | wake =>
    obtain ⟨mail, -, rfl⟩ := Option.map_eq_some_iff.mp h
    exact ⟨hclosed, rfl⟩
  | beginFrame =>
    obtain ⟨hopened, -⟩ := Option.ite_none_right_eq_some.mp h
    exact absurd hopened hclosed
  | receive now =>
    obtain ⟨hphase, haccepted, -⟩ := exists_internal (e := .receive now) trivial h
    exact ⟨hphase ▸ hclosed, haccepted⟩
  | endFrame =>
    obtain ⟨mail, -, rfl⟩ := Option.map_eq_some_iff.mp h
    exact ⟨hclosed, rfl⟩
  | close =>
    obtain ⟨⟨hopened, -⟩, -⟩ := Option.ite_none_right_eq_some.mp h
    exact absurd hopened hclosed
  | drain =>
    obtain ⟨-, heq⟩ := Option.ite_none_right_eq_some.mp h
    obtain rfl := Option.some.inj heq
    exact ⟨hclosed, rfl⟩
  | retire =>
    obtain ⟨-, heq⟩ := Option.ite_none_right_eq_some.mp h
    obtain rfl := Option.some.inj heq
    exact ⟨MailboxPhase.noConfusion, rfl⟩
  | cancelCell cell | tryStart cell =>
    obtain rfl := Option.some.inj h
    exact ⟨hclosed, rfl⟩

/-- In every run the requests keep their order and get one fate each; a mailbox that is closed takes
no more, and has given every request its fate once its receiver is gone; and an open one is emptied
by the wakes of its senders and the frames they ask for. -/
theorem mailbox_sound (h : Reaches step anyStep new m) :
    m.Sound ∧ (m.phase = .gone → m.fates.map Prod.fst = m.accepted) ∧
    (m.phase ≠ .opened → ∀ m', Reaches step anyStep m m' →
      m'.phase ≠ .opened ∧ m'.accepted = m.accepted) ∧
    (m.phase = .opened → ∃ m', Reaches step Handles m m' ∧ m'.accepted = m.accepted ∧
      m'.fates.map Prod.fst = m.accepted) ∧
    ∀ e m', m.Handles e → m.step e = some m' → m'.mail.cost batch < m.mail.cost batch := by
  have hsound : m.Sound := h.invariant sound_new fun _ _ _ hs _ next ↦ sound_step hs next
  refine ⟨hsound, fun hgone ↦ ?_, fun hclosed m' hlater ↦ ?_, exists_emptied hsound,
    fun e m' ↦ cost_handles⟩
  · rw [hsound.fifo, hsound.gone hgone, List.append_nil]
  · have hkeep : ∀ (n : CommandMailbox R) e n', n.phase ≠ .opened ∧ n.accepted = m.accepted →
        anyStep n e → n.step e = some n' → n'.phase ≠ .opened ∧ n'.accepted = m.accepted := by
      intro n e n' hn _ next
      obtain ⟨hphase, haccepted⟩ := closed_step hn.1 next
      exact ⟨hphase, haccepted.trans hn.2⟩
    exact hlater.invariant ⟨hclosed, rfl⟩ hkeep

/-- One request is dispatched by a frame, and the receiver goes with another in the mailbox. -/
def sampleEvents : List (MailboxEvent Nat) :=
  [.submit .socket ⟨.cli, 7, 100, 0⟩, .wake, .beginFrame, .receive 5, .endFrame,
    .submit .luau ⟨.cli, 8, 100, 1⟩, .close, .submit .cli ⟨.cli, 9, 100, 2⟩, .wake, .drain, .retire]

/-- A command that is dispatched, and one that is shut down. -/
theorem mailbox_sound_sample : ∃ m : CommandMailbox Nat,
    m.fates = [(⟨.socket, 7, 100, 0⟩, .dispatched), (⟨.luau, 8, 100, 1⟩, .answered .shutdown)] ∧
      m.Sound ∧ m.fates.map Prod.fst = m.accepted := by
  have hrun : (runEvents step anyTest new sampleEvents).map
      (fun m ↦ m.phase == .gone && m.fates ==
        [(⟨.socket, 7, 100, 0⟩, .dispatched), (⟨.luau, 8, 100, 1⟩, .answered .shutdown)]) =
      some true := by
    decide +kernel
  obtain ⟨m, hreaches, hgoal⟩ := exists_reaches_anyStep hrun
  rw [Bool.and_eq_true, beq_iff_eq, beq_iff_eq] at hgoal
  obtain ⟨hsound, hgone, -⟩ := mailbox_sound hreaches
  exact ⟨m, hgoal.2, hsound, hgone hgoal.1⟩

end CommandMailbox
end Bootty.Control
