import Bootty.Base.Machine

/-!
# Queues emptied in batches

Many senders put items in a bounded queue, and each of them notifies the handler after its item is
in the queue. The handler takes the notification, then receives items one at a time. It stops when
the queue is empty, and when it has received as many as a batch may have it notifies itself, since
more items may be waiting. Notifications do not add up: there is one, or there is none.
-/

namespace Bootty.Base

variable {α : Type}

/-- The queue, whether a notification is there for the handler, how many senders have an item in the
queue and have not notified yet, and how many items the handler has received in its batch. -/
structure BatchQueue (α : Type) where
  queue : List α
  permit : Bool
  notifying : Nat
  handler : Option Nat
  deriving DecidableEq

namespace BatchQueue

/-- What the parties do. -/
inductive Event (α : Type) where
  | push (item : α)
  | notify
  | begin
  | receive
  | finish

/-- An empty queue. -/
def new : BatchQueue α := ⟨[], false, 0, none⟩

/-- One step of a sender or of the handler, for a queue that holds `capacity` items and batches of
`batch` items. -/
def step (capacity batch : Nat) (q : BatchQueue α) : Event α → Option (BatchQueue α)
  | .push item =>
    if q.queue.length < capacity then
      some { q with queue := q.queue ++ [item], notifying := q.notifying + 1 }
    else none
  | .notify =>
    if 0 < q.notifying then some { q with notifying := q.notifying - 1, permit := true } else none
  | .begin =>
    if q.handler = none then some { q with permit := false, handler := some 0 } else none
  | .receive =>
    match q.handler, q.queue with
    | some received, _ :: rest =>
      if received < batch then some { q with queue := rest, handler := some (received + 1) }
      else none
    | _, _ => none
  | .finish =>
    match q.handler with
    | some received =>
      if received = batch then some { q with handler := none, permit := true }
      else if q.queue = [] then some { q with handler := none }
      else none
    | none => none

/-- The handler looks at the queue again before it rests. -/
def Ringing (q : BatchQueue α) : Prop := q.permit = true ∨ 0 < q.notifying ∨ q.handler ≠ none

/-- Whether a wakeup is on its way is decidable. -/
instance (q : BatchQueue α) : Decidable q.Ringing :=
  inferInstanceAs (Decidable (_ ∨ _ ∨ _))

/-- What holds of every queue: it is bounded, a batch is bounded, and items in the queue are going
to be looked at. -/
structure Sound (capacity batch : Nat) (q : BatchQueue α) : Prop where
  bounded : q.queue.length ≤ capacity
  batched : ∀ received, q.handler = some received → received ≤ batch
  ringing : q.queue ≠ [] → q.Ringing

variable {capacity batch : Nat} {q q' : BatchQueue α}

/-! ### The steps -/

/-- What a push does. -/
theorem push_eq_some {item : α} (h : q.step capacity batch (.push item) = some q') :
    q.queue.length < capacity ∧
      q' = { q with queue := q.queue ++ [item], notifying := q.notifying + 1 } := by
  obtain ⟨hroom, heq⟩ := Option.ite_none_right_eq_some.mp h
  exact ⟨hroom, (Option.some.inj heq).symm⟩

/-- What a notification does. -/
theorem notify_eq_some (h : q.step capacity batch .notify = some q') :
    0 < q.notifying ∧ q' = { q with notifying := q.notifying - 1, permit := true } := by
  obtain ⟨hpos, heq⟩ := Option.ite_none_right_eq_some.mp h
  exact ⟨hpos, (Option.some.inj heq).symm⟩

/-- How the handler begins. -/
theorem begin_eq_some (h : q.step capacity batch .begin = some q') :
    q.handler = none ∧ q' = { q with permit := false, handler := some 0 } := by
  obtain ⟨hidle, heq⟩ := Option.ite_none_right_eq_some.mp h
  exact ⟨hidle, (Option.some.inj heq).symm⟩

/-- How the handler takes an item. -/
theorem receive_eq_some (h : q.step capacity batch .receive = some q') :
    ∃ received item rest, q.handler = some received ∧ q.queue = item :: rest ∧ received < batch ∧
      q' = { q with queue := rest, handler := some (received + 1) } := by
  simp only [step] at h
  split at h
  · next received item rest hhandler hqueue =>
    obtain ⟨hless, heq⟩ := Option.ite_none_right_eq_some.mp h
    exact ⟨received, item, rest, hhandler, hqueue, hless, (Option.some.inj heq).symm⟩
  · cases h

/-- How the handler ends. -/
theorem finish_eq_some (h : q.step capacity batch .finish = some q') :
    ∃ received, q.handler = some received ∧
      (received = batch ∧ q' = { q with handler := none, permit := true } ∨
        received ≠ batch ∧ q.queue = [] ∧ q' = { q with handler := none }) := by
  simp only [step] at h
  split at h
  · next received hhandler =>
    refine ⟨received, hhandler, ?_⟩
    split at h
    · next hfull => exact .inl ⟨hfull, (Option.some.inj h).symm⟩
    · next hfull =>
      obtain ⟨hempty, heq⟩ := Option.ite_none_right_eq_some.mp h
      exact .inr ⟨hfull, hempty, (Option.some.inj heq).symm⟩
  · cases h

theorem sound_new : (new : BatchQueue α).Sound capacity batch :=
  ⟨Nat.zero_le _, fun _ h ↦ (by cases h), fun h ↦ absurd rfl h⟩

/-- Every event keeps the queue sound. -/
theorem sound_step {e : Event α} (hs : q.Sound capacity batch)
    (h : q.step capacity batch e = some q') : q'.Sound capacity batch := by
  cases e with
  | push item =>
    obtain ⟨hroom, rfl⟩ := push_eq_some h
    refine ⟨?_, hs.batched, fun _ ↦ .inr (.inl (Nat.succ_pos _))⟩
    rw [List.length_append]
    exact hroom
  | notify =>
    obtain ⟨-, rfl⟩ := notify_eq_some h
    exact ⟨hs.bounded, hs.batched, fun _ ↦ .inl rfl⟩
  | begin =>
    obtain ⟨-, rfl⟩ := begin_eq_some h
    refine ⟨hs.bounded, fun received hreceived ↦ ?_, fun _ ↦ .inr (.inr (Option.some_ne_none 0))⟩
    rw [← Option.some.inj hreceived]
    exact Nat.zero_le batch
  | receive =>
    obtain ⟨received, item, rest, hhandler, hqueue, hless, rfl⟩ := receive_eq_some h
    refine ⟨?_, fun other hother ↦ ?_, fun _ ↦ .inr (.inr (Option.some_ne_none _))⟩
    · have hbounded := hs.bounded
      rw [hqueue] at hbounded
      exact Nat.le_of_succ_le hbounded
    · rw [← Option.some.inj hother]
      exact hless
  | finish =>
    obtain ⟨received, hhandler, ⟨-, rfl⟩ | ⟨-, hempty, rfl⟩⟩ := finish_eq_some h
    · exact ⟨hs.bounded, fun _ h ↦ (by cases h), fun _ ↦ .inl rfl⟩
    · exact ⟨hs.bounded, fun _ h ↦ (by cases h), fun h ↦ absurd hempty h⟩

/-! ### The queue is emptied -/

/-- The steps that are not a new item, and not a batch that nobody asked for. -/
def Internal (q : BatchQueue α) : Event α → Prop
  | .push _ => False
  | .begin => q.permit = true
  | .notify | .receive | .finish => True

/-- What a position of the handler still costs. -/
def handlerCost (batch : Nat) : Option Nat → Nat
  | none => 0
  | some received => if received = batch then 3 else 1

private theorem handlerCost_none (batch : Nat) : handlerCost batch none = 0 := rfl

/-- An upper bound on the number of steps without a new item. -/
def cost (batch : Nat) (q : BatchQueue α) : Nat :=
  3 * q.queue.length + 3 * q.notifying + (if q.permit then 2 else 0) + handlerCost batch q.handler

/-- Without new items every step brings the end nearer. -/
theorem cost_step {e : Event α} (hbatch : 0 < batch) (hinternal : q.Internal e)
    (h : q.step capacity batch e = some q') : q'.cost batch < q.cost batch := by
  cases e with
  | push item => exact absurd hinternal id
  | notify =>
    obtain ⟨hpos, rfl⟩ := notify_eq_some h
    simp only [cost, if_true]
    split <;> omega
  | begin =>
    obtain ⟨hhandler, rfl⟩ := begin_eq_some h
    have hpermit : q.permit = true := hinternal
    have hzero : handlerCost batch (some 0) = 1 := if_neg (Nat.ne_of_lt hbatch)
    simp only [cost, hpermit, hhandler, hzero, handlerCost_none, Bool.false_eq_true, if_false,
      if_true]
    omega
  | receive =>
    obtain ⟨received, item, rest, hhandler, hqueue, hless, rfl⟩ := receive_eq_some h
    have hbefore : handlerCost batch (some received) = 1 := if_neg (Nat.ne_of_lt hless)
    have hafter : handlerCost batch (some (received + 1)) ≤ 3 := by
      rw [handlerCost]
      split <;> omega
    simp only [cost, hhandler, hqueue, hbefore, List.length_cons]
    split <;> omega
  | finish =>
    obtain ⟨received, hhandler, ⟨hfull, rfl⟩ | ⟨hfull, -, rfl⟩⟩ := finish_eq_some h
    · have hbefore : handlerCost batch (some received) = 3 := if_pos hfull
      simp only [cost, hhandler, hbefore, handlerCost_none, if_true]
      split <;> omega
    · have hbefore : handlerCost batch (some received) = 1 := if_neg hfull
      simp only [cost, hhandler, hbefore, handlerCost_none]
      omega

/-- As long as there are items, the handler or a sender can go on. -/
theorem exists_step (hs : q.Sound capacity batch) (hqueue : q.queue ≠ []) :
    ∃ e : Event α, q.Internal e ∧ (q.step capacity batch e).isSome := by
  cases hhandler : q.handler with
  | some received =>
    by_cases hfull : received = batch
    · refine ⟨.finish, trivial, ?_⟩
      simp only [step, hhandler, if_pos hfull]
      rfl
    · refine ⟨.receive, trivial, ?_⟩
      cases hitems : q.queue with
      | nil => exact absurd hitems hqueue
      | cons item rest =>
        have hless := Nat.lt_of_le_of_ne (hs.batched received hhandler) hfull
        simp only [step, hhandler, hitems, if_pos hless]
        rfl
  | none =>
    rcases hs.ringing hqueue with hpermit | hnotifying | hnot
    · refine ⟨.begin, hpermit, ?_⟩
      rw [step, if_pos hhandler]
      rfl
    · refine ⟨.notify, trivial, ?_⟩
      rw [step, if_pos hnotifying]
      rfl
    · exact absurd hhandler hnot

/-- A machine that carries a queue empties it, if its handling steps are steps of the queue and one
of them is enabled as long as there are items. -/
theorem exists_reaches_empty {σ ε : Type} {machineStep : σ → ε → Option σ} {handles : σ → ε → Prop}
    {queueOf : σ → BatchQueue α} {I : σ → Prop} (hbatch : 0 < batch)
    (hstep : ∀ s e s', I s → handles s e → machineStep s e = some s' → I s' ∧
      ∃ e', (queueOf s).Internal e' ∧ (queueOf s).step capacity batch e' = some (queueOf s'))
    (hprogress : ∀ s, I s → (queueOf s).queue ≠ [] → ∃ e, handles s e ∧ (machineStep s e).isSome)
    {s : σ} (hs : I s) :
    ∃ s', Reaches machineStep handles s s' ∧ I s' ∧ (queueOf s').queue = [] := by
  have hcost : ∀ s e s', I s → handles s e → machineStep s e = some s' →
      I s' ∧ (queueOf s').cost batch < (queueOf s).cost batch := by
    intro s e s' hs hhandles h
    obtain ⟨hs', e', hinternal, hqueue⟩ := hstep s e s' hs hhandles h
    exact ⟨hs', cost_step hbatch hinternal hqueue⟩
  exact exists_reaches_goal hcost hprogress hs

end BatchQueue
end Bootty.Base
