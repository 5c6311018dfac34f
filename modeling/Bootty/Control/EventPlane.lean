import Mathlib.Data.List.Nodup
import Bootty.Base.BatchQueue
import Bootty.Control.ControlTasks

/-!
# Events of the control plane

Model of the queue that carries events to the control server
(`crates/bootty-control/src/events.rs:42–121`), of the loop that publishes them
(`ControlPlane::process_events`, `crates/bootty-control/src/plane.rs:51–98`) and of the check that
the module of an event is active (`CommandCatalog::with_active_topic`,
`crates/bootty-ui/src/commands.rs:770–791`). A publisher waits on its own thread for the answer, and
gives up when it is cancelled or its deadline passes. The receiver's `drop` holds no lock, so a
request can still come in while it answers the others.
-/

namespace Bootty.Control

open Bootty.Base

/-- A request, with the number of its response channel and the number of its cell. -/
structure ControlEventRequest (V : Type) where
  number : Nat
  identity : String
  generation : Nat
  topic : String
  payload : V
  deadline : Nat
  cancellation : Nat
  deriving DecidableEq

/-- A publisher whose request is in the queue, or one that has returned. -/
inductive Publisher where
  | waiting
  | returned (result : Except String Unit)

/-- The receiver is in use, its `drop` answers what is in the queue, or it is gone. -/
inductive PlanePhase where
  | live
  | dropping
  | gone
  deriving DecidableEq, Repr

/-- The queue, the scope of the instance, the generation of the job registry while it is active, the
cells, the publishers, of which `next` have begun, and those that have not notified the server yet.
The last four fields are not in the code: the requests that were accepted, the answers that were
given, the requests that went with the receiver, and the events that were published. -/
structure EventPlane (V : Type) where
  bus : BatchQueue (ControlEventRequest V)
  phase : PlanePhase
  scope : Option String
  owner : Option Nat
  cells : Nat → CommandCancellation
  next : Nat
  publishers : Nat → Option Publisher
  sending : List Nat
  accepted : List (ControlEventRequest V)
  answers : List (ControlEventRequest V × Except String Unit)
  lost : List (ControlEventRequest V)
  published : List (ControlEventRequest V)

/-- What modules, window and clock do. -/
inductive PlaneEvent (V : Type) where
  | publish (identity : String) (generation : Nat) (topic : String) (payload : V)
    (deadline cancellation : Nat)
  | notify (number : Nat)
  /-- The loop of a publisher: it is cancelled, its time is up, or its channel has something. -/
  | cancelled (number : Nat)
  | expired (number : Nat)
  | receive (number : Nat)
  /-- The server's batch. -/
  | ready
  | process (now : Nat)
  | finish
  | drop
  | drain
  | retire
  | bind (scope : String)
  | setOwner (owner : Option Nat)
  | cancelCell (cell : Nat)

variable {V : Type}

namespace EventPlane

/-- `EVENT_QUEUE_LIMIT`. -/
def eventQueueLimit : Nat := 64

/-- The most that one call of `process_events` takes. -/
def batch : Nat := 32

/-- A plane on which nothing was published. -/
def new : EventPlane V :=
  ⟨.new, .live, none, none, fun _ ↦ .pending, 0, fun _ ↦ none, [], [], [], [], []⟩

/-- `CommandCatalog::with_active_topic`, without the call of `publish`. -/
def withActiveTopic (owner : Option Nat) (module : String) (generation : Nat) (topic : String) :
    Except String Unit :=
  if module ≠ "bootty.jobs" ∨ topic ≠ "jobs.changed" then
    .error ("event topic \x60" ++ topic ++ "\x60 is not registered by \x60" ++ module ++ "\x60")
  else if owner = some generation then .ok ()
  else .error "job owner has retired"

/-- `publish_scoped`, `plane.rs:73–98`. -/
def publishScoped (s : EventPlane V) (request : ControlEventRequest V) : Except String Unit :=
  match s.scope with
  | none => .error "control plane is not bound to an instance"
  | some _ => withActiveTopic s.owner request.identity request.generation request.topic

/-- The result for one request of `process_events`. -/
def processEvent (s : EventPlane V) (request : ControlEventRequest V) (now : Nat) :
    Except String Unit :=
  if s.cells request.cancellation = .cancelled then .error "control event was cancelled"
  else if request.deadline ≤ now then .error "control event deadline expired"
  else s.publishScoped request

/-- One publisher gets into another state. -/
def setPublisher (s : EventPlane V) (number : Nat) (publisher : Publisher) : EventPlane V :=
  { s with publishers := Function.update s.publishers number (some publisher) }

/-- The request at the front of the queue is answered, and published if the answer is `Ok`. -/
def answer (s : EventPlane V) (bus : BatchQueue (ControlEventRequest V))
    (result : Except String Unit) : EventPlane V :=
  { s with
    bus
    answers := s.answers ++ (s.bus.queue.take 1).map (·, result)
    published := s.published ++ if result.isOk then s.bus.queue.take 1 else [] }

/-- `ControlEventSender::publish` up to its loop, `events.rs:55–84`. -/
def publish (s : EventPlane V) (request : ControlEventRequest V) : EventPlane V :=
  let begun := { s with next := s.next + 1 }
  if s.cells request.cancellation = .cancelled then
    begun.setPublisher s.next (.returned (.error "control event was cancelled"))
  else if s.phase = .gone then
    begun.setPublisher s.next (.returned (.error "control event queue is shut down"))
  else
    match s.bus.step eventQueueLimit batch (.push request) with
    | none => begun.setPublisher s.next (.returned (.error "control event queue is full"))
    | some bus =>
      { begun with bus, sending := s.sending ++ [s.next], accepted := s.accepted ++ [request] }
        |>.setPublisher s.next .waiting

/-- The publisher is in its loop. -/
def Waits (s : EventPlane V) (number : Nat) : Prop :=
  s.publishers number = some .waiting ∧ number ∉ s.sending

/-- Whether a publisher waits is decidable. -/
instance (s : EventPlane V) (number : Nat) : Decidable (s.Waits number) :=
  match h : s.publishers number with
  | some .waiting =>
    if hmem : number ∈ s.sending then isFalse fun hw ↦ hw.2 hmem else isTrue ⟨h, hmem⟩
  | some (.returned _) | none => isFalse (by rintro ⟨hw, -⟩; rw [h] at hw; cases hw)

/-- One event, where it can happen. -/
def step (s : EventPlane V) : PlaneEvent V → Option (EventPlane V)
  | .publish identity generation topic payload deadline cancellation =>
    some (s.publish ⟨s.next, identity, generation, topic, payload, deadline, cancellation⟩)
  | .notify number =>
    if number ∈ s.sending then
      (s.bus.step eventQueueLimit batch .notify).map fun bus ↦
        { s with bus, sending := s.sending.erase number }
    else none
  | .cancelled number =>
    if s.Waits number ∧ ∃ request ∈ s.accepted, request.number = number ∧
        s.cells request.cancellation = .cancelled then
      some (s.setPublisher number (.returned (.error "control event was cancelled")))
    else none
  | .expired number =>
    if s.Waits number then
      some (s.setPublisher number (.returned (.error "control event deadline expired")))
    else none
  | .receive number =>
    if s.Waits number then
      match s.answers.find? fun entry ↦ entry.1.number == number with
      | some entry => some (s.setPublisher number (.returned entry.2))
      | none =>
        if ∃ request ∈ s.lost, request.number = number then
          some (s.setPublisher number (.returned (.error "control event response closed")))
        else none
    else none
  | .ready =>
    if s.phase = .live ∧ s.bus.permit = true then
      (s.bus.step eventQueueLimit batch .begin).map fun bus ↦ { s with bus }
    else none
  | .process now =>
    match s.bus.queue, s.bus.step eventQueueLimit batch .receive with
    | request :: _, some bus => some (s.answer bus (s.processEvent request now))
    | _, _ => none
  | .finish => (s.bus.step eventQueueLimit batch .finish).map fun bus ↦ { s with bus }
  | .drop =>
    if s.phase = .live ∧ s.bus.handler = none then some { s with phase := .dropping } else none
  | .drain =>
    if s.phase = .dropping ∧ s.bus.queue ≠ [] then
      some (s.answer { s.bus with queue := s.bus.queue.tail }
        (.error "control event queue shut down"))
    else none
  | .retire =>
    if s.phase = .dropping then
      some { s with phase := .gone, bus := { s.bus with queue := [] }, lost := s.bus.queue }
    else none
  | .bind scope => some { s with scope := some scope }
  | .setOwner owner => some { s with owner }
  | .cancelCell cell =>
    some { s with cells := Function.update s.cells cell (s.cells cell).cancel.2 }

private theorem publishers_setPublisher_self (s : EventPlane V) (number : Nat)
    (publisher : Publisher) :
    (s.setPublisher number publisher).publishers number = some publisher :=
  Function.update_self ..

variable {number : Nat}

private theorem publishers_setPublisher_ne (s : EventPlane V) {other : Nat} (publisher : Publisher)
    (h : other ≠ number) :
    (s.setPublisher number publisher).publishers other = s.publishers other :=
  Function.update_of_ne h ..

/-! ### The queue -/

/-- The answers that `publish` gives itself to a request that does not get in the queue. -/
def refusals : List (Except String Unit) :=
  [.error "control event queue is full", .error "control event queue is shut down"]

/-- The errors with which a publisher gives up without knowing what becomes of its event. -/
def givenUp : List String := ["control event was cancelled", "control event deadline expired"]

/-- The event of a publisher is not published any more: it was refused, answered with an error, or
lost with the receiver. -/
def Failed (s : EventPlane V) (number : Nat) : Prop :=
  (∀ request ∈ s.accepted, request.number ≠ number) ∨
    (∃ entry ∈ s.answers, entry.1.number = number ∧ entry.2.isOk = false) ∨
    ∃ request ∈ s.lost, request.number = number

/-- The requests come out in order, those that are published are those whose answer is `Ok`, and
only the module of the jobs publishes. -/
structure Carried (s : EventPlane V) : Prop where
  bus : s.phase = .live → s.bus.Sound eventQueueLimit batch
  idle : s.phase ≠ .live → s.bus.handler = none
  bounded : s.bus.queue.length ≤ eventQueueLimit
  fifo : s.accepted = s.answers.map Prod.fst ++ (s.lost ++ s.bus.queue)
  lost : s.phase ≠ .gone → s.lost = []
  gone : s.phase = .gone → s.bus.queue = []
  published : s.published = (s.answers.filter (·.2.isOk)).map Prod.fst
  active : ∀ request ∈ s.published, request.identity = "bootty.jobs" ∧
    request.topic = "jobs.changed"
  sending : s.bus.notifying = s.sending.length
  honest : ∀ entry ∈ s.answers, entry.2 ∉ refusals

/-- Every request that was accepted is of a publisher of its own, and a publisher that returned and
did not give up knows what happened: its event was published if it was told so, was never in the
queue if it was refused, and is not published any more if it was told of another error. -/
structure Served (s : EventPlane V) : Prop where
  below : ∀ request ∈ s.accepted, request.number < s.next
  nodup : (s.accepted.map ControlEventRequest.number).Nodup
  unborn : ∀ number, s.next ≤ number → s.publishers number = none
  told : ∀ number, s.publishers number = some (.returned (.ok ())) →
    ∃ request ∈ s.published, request.number = number
  refused : ∀ number result, s.publishers number = some (.returned result) → result ∈ refusals →
    ∀ request ∈ s.accepted, request.number ≠ number
  failed : ∀ number message, s.publishers number = some (.returned (.error message)) →
    message ∉ givenUp → s.Failed number

variable {s s' : EventPlane V}

/-- What `publish` does with a request. -/
theorem publish_cases (s : EventPlane V) (request : ControlEventRequest V) :
    (∃ message, s.publish request =
      { s with next := s.next + 1 }.setPublisher s.next (.returned (.error message))) ∨
    s.phase ≠ .gone ∧ ∃ bus, s.bus.step eventQueueLimit batch (.push request) = some bus ∧
      s.publish request =
        { s with
          next := s.next + 1, bus, sending := s.sending ++ [s.next]
          accepted := s.accepted ++ [request] }.setPublisher s.next .waiting := by
  by_cases hcancelled : s.cells request.cancellation = .cancelled
  · exact .inl ⟨_, if_pos hcancelled⟩
  by_cases hgone : s.phase = .gone
  · exact .inl ⟨_, (if_neg hcancelled).trans (if_pos hgone)⟩
  simp only [publish, if_neg hcancelled, if_neg hgone]
  cases hpush : s.bus.step eventQueueLimit batch (.push request) with
  | none => exact .inl ⟨_, rfl⟩
  | some bus => exact .inr ⟨hgone, bus, rfl, rfl⟩

variable {request : ControlEventRequest V}

private theorem answer_eq {rest : List (ControlEventRequest V)}
    (hqueue : s.bus.queue = request :: rest)
    (bus : BatchQueue (ControlEventRequest V)) (result : Except String Unit) :
    s.answer bus result =
      { s with
        bus, answers := s.answers ++ [(request, result)]
        published := s.published ++ if result.isOk then [request] else [] } := by
  rw [answer, hqueue]
  rfl

variable {bus : BatchQueue (ControlEventRequest V)} {result : Except String Unit}

/-- The front of the queue is answered. -/
theorem Carried.answer (h : s.Carried) (hqueue : s.bus.queue = request :: bus.queue)
    (hnotifying : bus.notifying = s.bus.notifying)
    (hbus : s.phase = .live → bus.Sound eventQueueLimit batch)
    (hidle : s.phase ≠ .live → bus.handler = none)
    (hactive : result.isOk = true → request.identity = "bootty.jobs" ∧
      request.topic = "jobs.changed") (hhonest : result ∉ refusals) :
    (s.answer bus result).Carried := by
  have hgone : s.phase ≠ .gone := by
    intro hgone
    rw [h.gone hgone] at hqueue
    cases hqueue
  rw [answer_eq hqueue]
  constructor
  · exact hbus
  · exact hidle
  · have hbounded := h.bounded
    rw [hqueue, List.length_cons] at hbounded
    exact Nat.le_of_succ_le hbounded
  · simp [h.fifo, hqueue, h.lost hgone]
  · exact h.lost
  · exact fun hphase ↦ absurd hphase hgone
  · simp only [h.published, List.filter_append, List.map_append, List.append_cancel_left_eq]
    cases hok : result.isOk <;> simp [hok]
  · intro other hother
    rcases List.mem_append.mp hother with hbefore | hnow
    · exact h.active other hbefore
    · split at hnow
      · next hok => exact List.mem_singleton.mp hnow ▸ hactive hok
      · cases hnow
  · exact hnotifying.trans h.sending
  · intro entry hentry
    rcases List.mem_append.mp hentry with hbefore | hnow
    · exact h.honest entry hbefore
    · rwa [List.mem_singleton.mp hnow]

private theorem Served.answer {rest : List (ControlEventRequest V)} (h : s.Served)
    (hqueue : s.bus.queue = request :: rest) : (s.answer bus result).Served := by
  rw [answer_eq hqueue]
  constructor
  · exact h.below
  · exact h.nodup
  · exact h.unborn
  · intro number htold
    obtain ⟨found, hfound, hnumber⟩ := h.told number htold
    exact ⟨found, List.mem_append_left _ hfound, hnumber⟩
  · exact h.refused
  · intro number message hvalue hknown
    rcases h.failed number message hvalue hknown with hnone | ⟨entry, hentry, hfailed⟩ | hlost
    · exact .inl hnone
    · exact .inr (.inl ⟨entry, List.mem_append_left _ hentry, hfailed⟩)
    · exact .inr (.inr hlost)

/-- A publisher changes, and nothing else. -/
theorem Carried.setPublisher (h : s.Carried) (number : Nat) (publisher : Publisher) :
    (s.setPublisher number publisher).Carried where
  bus := h.bus
  idle := h.idle
  bounded := h.bounded
  fifo := h.fifo
  lost := h.lost
  gone := h.gone
  published := h.published
  active := h.active
  sending := h.sending
  honest := h.honest

/-- A publisher returns from its loop. -/
theorem Served.returned (h : s.Served) (hborn : number < s.next)
    (htold : result = .ok () → ∃ request ∈ s.published, request.number = number)
    (hrefused : result ∉ refusals)
    (hfailed : ∀ message, result = .error message → message ∉ givenUp → s.Failed number) :
    (s.setPublisher number (.returned result)).Served := by
  have hself : ∀ other value, other = number →
      (s.setPublisher number (.returned result)).publishers other = some (.returned value) →
      result = value := by
    rintro other value rfl hvalue
    rw [publishers_setPublisher_self] at hvalue
    exact Publisher.returned.inj (Option.some.inj hvalue)
  have hother : ∀ other, other ≠ number →
      (s.setPublisher number (.returned result)).publishers other = s.publishers other :=
    fun other hne ↦ publishers_setPublisher_ne s _ hne
  constructor
  · exact h.below
  · exact h.nodup
  · intro other hunborn
    have hunborn' : s.next ≤ other := hunborn
    rw [hother other (by omega)]
    exact h.unborn other hunborn
  · intro other hvalue
    by_cases hsame : other = number
    · exact hsame ▸ htold (hself other _ hsame hvalue)
    · rw [hother other hsame] at hvalue
      exact h.told other hvalue
  · intro other value hvalue hmem
    by_cases hsame : other = number
    · exact absurd (hself other value hsame hvalue ▸ hmem) hrefused
    · rw [hother other hsame] at hvalue
      exact h.refused other value hvalue hmem
  · intro other message hvalue hknown
    by_cases hsame : other = number
    · exact hsame ▸ hfailed message (hself other _ hsame hvalue) hknown
    · rw [hother other hsame] at hvalue
      exact h.failed other message hvalue hknown

/-- What publishers know does not depend on the other fields. -/
theorem Served.frame (h : s.Served) (haccepted : s'.accepted = s.accepted)
    (hnext : s'.next = s.next) (hpublishers : s'.publishers = s.publishers)
    (hpublished : s'.published = s.published) (hanswers : s'.answers = s.answers)
    (hlost : s.lost ⊆ s'.lost) : s'.Served := by
  constructor
  · rw [haccepted, hnext]
    exact h.below
  · rw [haccepted]
    exact h.nodup
  · rw [hnext, hpublishers]
    exact h.unborn
  · rw [hpublishers, hpublished]
    exact h.told
  · rw [hpublishers, haccepted]
    exact h.refused
  · rw [hpublishers]
    intro number message hvalue hknown
    rw [Failed, haccepted, hanswers]
    refine (h.failed number message hvalue hknown).imp_right (Or.imp_right fun hmem ↦ ?_)
    obtain ⟨request, hrequest, hnumber⟩ := hmem
    exact ⟨request, hlost hrequest, hnumber⟩

private theorem Served.born (h : s.Served) (hwaits : s.Waits number) : number < s.next := by
  by_contra hunborn
  have hnone := h.unborn number (Nat.le_of_not_lt hunborn)
  rw [hwaits.1] at hnone
  cases hnone

/-! ### The answers -/

variable {owner : Option Nat}

private theorem withActiveTopic_isOk {module topic : String} {generation : Nat}
    (h : (withActiveTopic owner module generation topic).isOk = true) :
    module = "bootty.jobs" ∧ topic = "jobs.changed" ∧ owner = some generation := by
  rw [withActiveTopic] at h
  split at h
  · cases h
  · next hregistered =>
    rw [not_or, not_not, not_not] at hregistered
    split at h
    · next howner => exact ⟨hregistered.1, hregistered.2, howner⟩
    · cases h

/-- What is published is neither cancelled nor too late, and its module is active. -/
theorem processEvent_isOk {now : Nat} (h : (s.processEvent request now).isOk = true) :
    s.cells request.cancellation ≠ .cancelled ∧ now < request.deadline ∧ s.scope.isSome ∧
      request.identity = "bootty.jobs" ∧ request.topic = "jobs.changed" ∧
      s.owner = some request.generation := by
  rw [processEvent] at h
  split at h
  · cases h
  · next hcancelled =>
    split at h
    · cases h
    · next hdeadline =>
      rw [publishScoped] at h
      split at h
      · cases h
      · next scope hscope =>
        exact ⟨hcancelled, Nat.lt_of_not_le hdeadline, hscope ▸ rfl, withActiveTopic_isOk h⟩

private theorem error_notMem_refusals {message : String}
    (h : message.toList.head? ≠ some 'c') :
    (Except.error message : Except String Unit) ∉ refusals := by
  intro hmem
  rcases List.mem_cons.mp hmem with heq | hmem
  · rw [Except.error.inj heq] at h
    exact h (by decide +kernel)
  · rw [Except.error.inj (List.mem_singleton.mp hmem)] at h
    exact h (by decide +kernel)

private theorem withActiveTopic_notMem {module topic : String} {generation : Nat} :
    withActiveTopic owner module generation topic ∉ refusals := by
  rw [withActiveTopic]
  split
  · apply error_notMem_refusals
    simp
  · split
    · simp [refusals]
    · exact error_notMem_refusals (by decide +kernel)

private theorem processEvent_notMem (s : EventPlane V) (request : ControlEventRequest V)
    (now : Nat) :
    s.processEvent request now ∉ refusals := by
  rw [processEvent]
  split
  · simp [refusals]
  · split
    · simp [refusals]
    · rw [publishScoped]
      split
      · simp [refusals]
      · exact withActiveTopic_notMem

/-! ### The steps -/

/-- Both halves of the invariant. -/
structure Sound (s : EventPlane V) : Prop where
  carried : s.Carried
  served : s.Served

/-- A step of the queue that takes nothing out and puts nothing in. -/
theorem sound_quiet {e : BatchQueue.Event (ControlEventRequest V)} {sending : List Nat}
    (h : s.Sound) (hstep : s.bus.step eventQueueLimit batch e = some bus)
    (hqueue : bus.queue = s.bus.queue) (hidle : s.phase ≠ .live → bus.handler = none)
    (hsending : bus.notifying = sending.length) :
    Sound { s with bus, sending } := by
  obtain ⟨hc, hs⟩ := h
  constructor
  · constructor
    · exact fun hlive ↦ BatchQueue.sound_step (hc.bus hlive) hstep
    · exact hidle
    · exact hqueue ▸ hc.bounded
    · exact hqueue ▸ hc.fifo
    · exact hc.lost
    · exact fun hgone ↦ hqueue.trans (hc.gone hgone)
    · exact hc.published
    · exact hc.active
    · exact hsending
    · exact hc.honest
  · exact hs.frame rfl rfl rfl rfl rfl fun _ hmem ↦ hmem

/-- A step that does not touch the queue or the publishers. -/
theorem sound_fields {scope : Option String} {cells : Nat → CommandCancellation} (h : s.Sound) :
    Sound { s with scope, owner, cells } := by
  constructor
  · constructor
    · exact h.carried.bus
    · exact h.carried.idle
    · exact h.carried.bounded
    · exact h.carried.fifo
    · exact h.carried.lost
    · exact h.carried.gone
    · exact h.carried.published
    · exact h.carried.active
    · exact h.carried.sending
    · exact h.carried.honest
  · exact h.served.frame rfl rfl rfl rfl rfl fun _ hmem ↦ hmem

/-- A publisher begins. -/
theorem Served.begin (h : s.Served) {publisher : Publisher}
    (hpublisher : ∀ result, publisher = .returned result → result.isOk = false) :
    ({ s with next := s.next + 1 }.setPublisher s.next publisher).Served := by
  have hself : ({ s with next := s.next + 1 }.setPublisher s.next publisher).publishers s.next =
      some publisher := publishers_setPublisher_self ..
  have hother : ∀ other, other ≠ s.next →
      ({ s with next := s.next + 1 }.setPublisher s.next publisher).publishers other =
        s.publishers other := fun other hne ↦ publishers_setPublisher_ne _ _ hne
  constructor
  · exact fun request hmem ↦ Nat.lt_succ_of_lt (h.below request hmem)
  · exact h.nodup
  · intro other hunborn
    have hlater : s.next + 1 ≤ other := hunborn
    rw [hother other (by omega)]
    exact h.unborn other (by omega)
  · intro other hvalue
    by_cases hsame : other = s.next
    · rw [hsame, hself] at hvalue
      cases hpublisher _ (Option.some.inj hvalue)
    · rw [hother other hsame] at hvalue
      exact h.told other hvalue
  · intro other value hvalue hmem request hrequest
    by_cases hsame : other = s.next
    · rw [hsame]
      exact Nat.ne_of_lt (h.below request hrequest)
    · rw [hother other hsame] at hvalue
      exact h.refused other value hvalue hmem request hrequest
  · intro other message hvalue hknown
    by_cases hsame : other = s.next
    · rw [hsame]
      exact .inl fun request hrequest ↦ Nat.ne_of_lt (h.below request hrequest)
    · rw [hother other hsame] at hvalue
      exact h.failed other message hvalue hknown

/-- The request of a publisher that begins gets in the queue. -/
theorem Served.accept (h : s.Served) (hnumber : request.number = s.next) {sending : List Nat} :
    ({ s with
      next := s.next + 1, bus, sending
      accepted := s.accepted ++ [request] }.setPublisher s.next .waiting).Served := by
  have hbegun : ({ s with next := s.next + 1 }.setPublisher s.next .waiting).Served :=
    h.begin (by simp)
  have hnew : ∀ number value,
      ({ s with next := s.next + 1 }.setPublisher s.next .waiting).publishers number =
        some (.returned value) → request.number ≠ number := by
    rintro number value hvalue rfl
    rw [hnumber, publishers_setPublisher_self] at hvalue
    cases hvalue
  constructor
  · intro other hmem
    rcases List.mem_append.mp hmem with hbefore | hnow
    · exact Nat.lt_succ_of_lt (h.below other hbefore)
    · rw [List.mem_singleton.mp hnow, hnumber]
      exact Nat.lt_succ_self s.next
  · show ((s.accepted ++ [request]).map ControlEventRequest.number).Nodup
    rw [List.map_append, List.nodup_append]
    refine ⟨h.nodup, by simp, fun number hmem other hother hsame ↦ ?_⟩
    obtain ⟨found, hfound, rfl⟩ := List.mem_map.mp hmem
    have hless := h.below found hfound
    rw [List.map_singleton, List.mem_singleton] at hother
    omega
  · exact hbegun.unborn
  · exact hbegun.told
  · intro number value hvalue hmem other hother
    rcases List.mem_append.mp hother with hbefore | hnow
    · exact hbegun.refused number value hvalue hmem other hbefore
    · exact List.mem_singleton.mp hnow ▸ hnew number value hvalue
  · intro number message hvalue hknown
    refine (hbegun.failed number message hvalue hknown).imp_left fun hnone other hother ↦ ?_
    rcases List.mem_append.mp hother with hbefore | hnow
    · exact hnone other hbefore
    · exact List.mem_singleton.mp hnow ▸ hnew number _ hvalue

private theorem sound_publish (h : s.Sound) (hnumber : request.number = s.next) :
    (s.publish request).Sound := by
  obtain ⟨hc, hs⟩ := h
  rcases s.publish_cases request with ⟨message, heq⟩ | ⟨hphase, bus, hpush, heq⟩
  · rw [heq]
    have hbegun : Carried { s with next := s.next + 1 } := by
      constructor
      · exact hc.bus
      · exact hc.idle
      · exact hc.bounded
      · exact hc.fifo
      · exact hc.lost
      · exact hc.gone
      · exact hc.published
      · exact hc.active
      · exact hc.sending
      · exact hc.honest
    refine ⟨hbegun.setPublisher _ _, hs.begin fun result hresult ↦ ?_⟩
    rw [← Publisher.returned.inj hresult]
    rfl
  · rw [heq]
    refine ⟨Carried.setPublisher ?_ _ _, hs.accept hnumber⟩
    obtain ⟨hroom, hbus⟩ := BatchQueue.push_eq_some hpush
    constructor
    · exact fun hlive ↦ BatchQueue.sound_step (hc.bus hlive) hpush
    · intro hdead
      rw [hbus]
      exact hc.idle hdead
    · rw [hbus, List.length_append]
      exact hroom
    · simp [hbus, hc.fifo]
    · exact hc.lost
    · exact fun hgone ↦ absurd hgone hphase
    · exact hc.published
    · exact hc.active
    · simp [hbus, hc.sending]
    · exact hc.honest

private theorem sound_returned (h : s.Sound) (hwaits : s.Waits number)
    (htold : result = .ok () → ∃ request ∈ s.published, request.number = number)
    (hrefused : result ∉ refusals)
    (hfailed : ∀ message, result = .error message → message ∉ givenUp → s.Failed number) :
    (s.setPublisher number (.returned result)).Sound :=
  ⟨h.carried.setPublisher _ _, h.served.returned (h.served.born hwaits) htold hrefused hfailed⟩

private theorem sound_receive (h : s.Sound) (hstep : s.step (.receive number) = some s') :
    s'.Sound := by
  obtain ⟨hwaits, heq⟩ := Option.ite_none_right_eq_some.mp hstep
  split at heq
  · next entry hfind =>
    obtain rfl := Option.some.inj heq
    have hmem := List.mem_of_find?_eq_some hfind
    have hnumber : entry.1.number = number := by simpa using List.find?_some hfind
    refine sound_returned h hwaits (fun hok ↦ ⟨entry.1, ?_, hnumber⟩)
      (h.carried.honest entry hmem) fun message herror _ ↦ .inr (.inl ⟨entry, hmem, hnumber, ?_⟩)
    · rw [h.carried.published]
      exact List.mem_map_of_mem (List.mem_filter.mpr ⟨hmem, by rw [hok]; rfl⟩)
    · rw [herror]
      rfl
  · obtain ⟨hlost, heq'⟩ := Option.ite_none_right_eq_some.mp heq
    obtain rfl := Option.some.inj heq'
    exact sound_returned h hwaits (by simp) (by simp [refusals]) fun _ _ _ ↦ .inr (.inr hlost)

private theorem sound_answer (h : s.Sound) (hqueue : s.bus.queue = request :: bus.queue)
    (hnotifying : bus.notifying = s.bus.notifying)
    (hbus : s.phase = .live → bus.Sound eventQueueLimit batch)
    (hidle : s.phase ≠ .live → bus.handler = none)
    (hactive : result.isOk = true → request.identity = "bootty.jobs" ∧
      request.topic = "jobs.changed") (hhonest : result ∉ refusals) : (s.answer bus result).Sound :=
  ⟨h.carried.answer hqueue hnotifying hbus hidle hactive hhonest, h.served.answer hqueue⟩

private theorem sound_process {now : Nat} (h : s.Sound) (hstep : s.step (.process now) = some s') :
    s'.Sound := by
  simp only [step] at hstep
  split at hstep
  · next request rest bus hqueue hreceive =>
    obtain rfl := Option.some.inj hstep
    obtain ⟨received, item, rest', hhandler, hqueue', -, hbus⟩ :=
      BatchQueue.receive_eq_some hreceive
    have hlive : s.phase = .live := by
      by_contra hdead
      rw [h.carried.idle hdead] at hhandler
      cases hhandler
    have hrest : s.bus.queue = request :: bus.queue := by
      rw [hqueue] at hqueue' ⊢
      rw [hbus, (List.cons.inj hqueue').2]
    refine sound_answer h hrest (by rw [hbus])
      (fun _ ↦ BatchQueue.sound_step (h.carried.bus hlive) hreceive)
      (fun hdead ↦ absurd hlive hdead) (fun hok ↦ ?_) (processEvent_notMem _ _ _)
    obtain ⟨-, -, -, hidentity, htopic, -⟩ := processEvent_isOk hok
    exact ⟨hidentity, htopic⟩
  · cases hstep

/-- The receiver's `drop` begins, where the server handles no batch. -/
theorem carried_drop (h : s.Carried) (hlive : s.phase = .live) (hidle : s.bus.handler = none) :
    Carried { s with phase := .dropping } := by
  constructor
  · simp
  · exact fun _ ↦ hidle
  · exact h.bounded
  · exact h.fifo
  · exact fun _ ↦ h.lost (by simp [hlive])
  · simp
  · exact h.published
  · exact h.active
  · exact h.sending
  · exact h.honest

/-- The receiver is gone, and what is in the queue goes with it. -/
theorem carried_retire (h : s.Carried) (hdropping : s.phase = .dropping) :
    Carried { s with phase := .gone, bus := { s.bus with queue := [] }, lost := s.bus.queue } := by
  constructor
  · simp
  · exact fun _ ↦ h.idle (by simp [hdropping])
  · exact Nat.zero_le _
  · simp [h.fifo, h.lost (by simp [hdropping])]
  · simp
  · exact fun _ ↦ rfl
  · exact h.published
  · exact h.active
  · exact h.sending
  · exact h.honest

variable {e : PlaneEvent V}

private theorem sound_step (h : s.Sound) (hstep : s.step e = some s') : s'.Sound := by
  cases e with
  | publish =>
    obtain rfl := Option.some.inj hstep
    exact sound_publish h rfl
  | notify number =>
    obtain ⟨hmem, heq⟩ := Option.ite_none_right_eq_some.mp hstep
    obtain ⟨bus, hnotify, rfl⟩ := Option.map_eq_some_iff.mp heq
    obtain ⟨-, hbus⟩ := BatchQueue.notify_eq_some hnotify
    refine sound_quiet h hnotify (by rw [hbus]) (fun hdead ↦ ?_) ?_
    · rw [hbus]
      exact h.carried.idle hdead
    · rw [List.length_erase_of_mem hmem, ← h.carried.sending, hbus]
  | cancelled number =>
    obtain ⟨⟨hwaits, -⟩, heq⟩ := Option.ite_none_right_eq_some.mp hstep
    obtain rfl := Option.some.inj heq
    exact sound_returned h hwaits (by simp) (by simp [refusals]) fun message herror hknown ↦
      absurd (by rw [← Except.error.inj herror]; simp [givenUp]) hknown
  | expired number =>
    obtain ⟨hwaits, heq⟩ := Option.ite_none_right_eq_some.mp hstep
    obtain rfl := Option.some.inj heq
    exact sound_returned h hwaits (by simp) (by simp [refusals]) fun message herror hknown ↦
      absurd (by rw [← Except.error.inj herror]; simp [givenUp]) hknown
  | receive number => exact sound_receive h hstep
  | ready =>
    obtain ⟨⟨hlive, -⟩, heq⟩ := Option.ite_none_right_eq_some.mp hstep
    obtain ⟨bus, hbegin, rfl⟩ := Option.map_eq_some_iff.mp heq
    obtain ⟨-, hbus⟩ := BatchQueue.begin_eq_some hbegin
    refine sound_quiet h hbegin (by rw [hbus]) (fun hdead ↦ absurd hlive hdead) ?_
    rw [hbus]
    exact h.carried.sending
  | process now => exact sound_process h hstep
  | finish =>
    obtain ⟨bus, hfinish, rfl⟩ := Option.map_eq_some_iff.mp hstep
    obtain ⟨received, -, ⟨-, hbus⟩ | ⟨-, -, hbus⟩⟩ := BatchQueue.finish_eq_some hfinish
    · exact sound_quiet h hfinish (by rw [hbus]) (fun _ ↦ by rw [hbus])
        (by rw [hbus]; exact h.carried.sending)
    · exact sound_quiet h hfinish (by rw [hbus]) (fun _ ↦ by rw [hbus])
        (by rw [hbus]; exact h.carried.sending)
  | drop =>
    obtain ⟨⟨hlive, hidle⟩, heq⟩ := Option.ite_none_right_eq_some.mp hstep
    obtain rfl := Option.some.inj heq
    exact ⟨carried_drop h.carried hlive hidle, h.served.frame rfl rfl rfl rfl rfl fun _ hmem ↦ hmem⟩
  | drain =>
    obtain ⟨⟨hdropping, hqueue⟩, heq⟩ := Option.ite_none_right_eq_some.mp hstep
    obtain rfl := Option.some.inj heq
    have hdead : s.phase ≠ .live := by simp [hdropping]
    exact sound_answer h (List.cons_head_tail hqueue).symm rfl (fun hlive ↦ absurd hlive hdead)
      h.carried.idle (by simp [Except.isOk, Except.toBool]) (by simp [refusals])
  | retire =>
    obtain ⟨hdropping, heq⟩ := Option.ite_none_right_eq_some.mp hstep
    obtain rfl := Option.some.inj heq
    have hlost : s.lost = [] := h.carried.lost (by simp [hdropping])
    exact ⟨carried_retire h.carried hdropping,
      h.served.frame rfl rfl rfl rfl rfl (by simp [hlost])⟩
  | bind scope =>
    obtain rfl := Option.some.inj hstep
    exact sound_fields h
  | setOwner owner =>
    obtain rfl := Option.some.inj hstep
    exact sound_fields h
  | cancelCell cell =>
    obtain rfl := Option.some.inj hstep
    exact sound_fields h

/-! ### The queue is emptied -/

/-- The steps of publishers that notify, and of the server. -/
def Handles (_ : EventPlane V) : PlaneEvent V → Prop
  | .notify _ | .ready | .process _ | .finish => True
  | _ => False

/-- What these steps do to the queue. -/
theorem exists_internal (hhandles : s.Handles e) (h : s.step e = some s') :
    s'.phase = s.phase ∧ s'.accepted = s.accepted ∧ ∃ e', s.bus.Internal e' ∧
      s.bus.step eventQueueLimit batch e' = some s'.bus := by
  cases e with
  | notify number =>
    obtain ⟨-, heq⟩ := Option.ite_none_right_eq_some.mp h
    obtain ⟨bus, hnotify, rfl⟩ := Option.map_eq_some_iff.mp heq
    exact ⟨rfl, rfl, .notify, trivial, hnotify⟩
  | ready =>
    obtain ⟨⟨-, hpermit⟩, heq⟩ := Option.ite_none_right_eq_some.mp h
    obtain ⟨bus, hbegin, rfl⟩ := Option.map_eq_some_iff.mp heq
    exact ⟨rfl, rfl, .begin, hpermit, hbegin⟩
  | process now =>
    simp only [step] at h
    split at h
    · next request rest bus hqueue hreceive =>
      obtain rfl := Option.some.inj h
      exact ⟨rfl, rfl, .receive, trivial, hreceive⟩
    · cases h
  | finish =>
    obtain ⟨bus, hfinish, rfl⟩ := Option.map_eq_some_iff.mp h
    exact ⟨rfl, rfl, .finish, trivial, hfinish⟩
  | publish | cancelled | expired | receive | drop | drain | retire | bind | setOwner |
    cancelCell => exact absurd hhandles id

private theorem exists_handles (hs : s.Sound) (hlive : s.phase = .live)
    (hqueue : s.bus.queue ≠ []) :
    ∃ e, s.Handles e ∧ (s.step e).isSome := by
  obtain ⟨e, hinternal, henabled⟩ := BatchQueue.exists_step (hs.carried.bus hlive) hqueue
  cases e with
  | push request => exact absurd hinternal id
  | notify =>
    obtain ⟨bus, hnotify⟩ := Option.isSome_iff_exists.mp henabled
    have hpos := (BatchQueue.notify_eq_some hnotify).1
    rw [hs.carried.sending] at hpos
    obtain ⟨number, hmem⟩ := List.exists_mem_of_length_pos hpos
    refine ⟨.notify number, trivial, ?_⟩
    rwa [step, if_pos hmem, Option.isSome_map]
  | begin =>
    refine ⟨.ready, trivial, ?_⟩
    rwa [step, if_pos ⟨hlive, hinternal⟩, Option.isSome_map]
  | receive =>
    obtain ⟨bus, hreceive⟩ := Option.isSome_iff_exists.mp henabled
    obtain ⟨received, request, rest, -, hitems, -⟩ := BatchQueue.receive_eq_some hreceive
    refine ⟨.process 0, trivial, ?_⟩
    simp only [step, hitems, hreceive]
    rfl
  | finish => exact ⟨.finish, trivial, by rwa [step, Option.isSome_map]⟩

private theorem cost_handles (hhandles : s.Handles e) (h : s.step e = some s') :
    s'.bus.cost batch < s.bus.cost batch := by
  obtain ⟨-, -, e', hinternal, hstep⟩ := exists_internal hhandles h
  exact BatchQueue.cost_step (by decide) hinternal hstep

/-- What holds while the queue is emptied. -/
structure Emptying (accepted : List (ControlEventRequest V)) (s : EventPlane V) : Prop where
  sound : s.Sound
  live : s.phase = .live
  accepted : s.accepted = accepted

/-- Without new events every request in the queue is answered. -/
theorem exists_emptied (hs : s.Sound) (hlive : s.phase = .live) :
    ∃ s', Reaches step Handles s s' ∧ s'.accepted = s.accepted ∧
      s'.answers.map Prod.fst = s.accepted := by
  have hstep : ∀ (n : EventPlane V) e n', Emptying s.accepted n → Handles n e →
      n.step e = some n' → Emptying s.accepted n' ∧
        ∃ e', n.bus.Internal e' ∧ n.bus.step eventQueueLimit batch e' = some n'.bus := by
    intro n e n' hn hhandles h
    obtain ⟨hphase, haccepted, hinternal⟩ := exists_internal hhandles h
    exact ⟨⟨sound_step hn.sound h, hphase.trans hn.live, haccepted.trans hn.accepted⟩, hinternal⟩
  obtain ⟨s', hreaches, hdone, hempty⟩ := BatchQueue.exists_reaches_empty (by decide) hstep
    (fun n hn ↦ exists_handles hn.sound hn.live) ⟨hs, hlive, rfl⟩
  have hlost : s'.lost = [] := hdone.sound.carried.lost (by simp [hdone.live])
  refine ⟨s', hreaches, hdone.accepted, ?_⟩
  rw [← hdone.accepted, hdone.sound.carried.fifo, hempty, hlost, List.append_nil, List.append_nil]

/-- One event is published and one comes too late. -/
def sampleEvents : List (PlaneEvent Nat) :=
  [.bind "scope", .setOwner (some 3), .publish "bootty.jobs" 3 "jobs.changed" 7 10 0, .notify 0,
    .publish "bootty.jobs" 3 "jobs.changed" 8 4 1, .ready, .process 5, .process 5, .finish,
    .receive 0]

end EventPlane
end Bootty.Control
