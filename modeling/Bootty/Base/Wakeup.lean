import Mathlib.Logic.Function.Basic
import Mathlib.Tactic.Common

/-!
# Coalesced wakeups

Many notifiers tell one handler that shared state has changed. A notifier writes, then swaps
a flag to `true`, and enqueues a wakeup only if the flag was `false`. The handler dequeues a
wakeup, clears the flag, and only then reads the state. The order of the clear and the read
is what keeps a write from being lost.
-/

namespace Bootty.Base

/-- Where a notifier stands between a write and the end of its notification. -/
inductive Notifier where
  | idle
  | wrote
  | notifying
  deriving DecidableEq, Repr

/-- Where the handler stands between a dequeue and the end of its read. -/
inductive Handler where
  | idle
  | dequeued
  | cleared
  deriving DecidableEq, Repr

/-- The flag, the number of queued wakeups and the positions of the parties. -/
structure Wakeup (ι : Type) where
  pending : Bool
  queued : Nat
  handler : Handler
  notifier : ι → Notifier

namespace Wakeup

variable {ι : Type} [DecidableEq ι]

/-- What the parties do. -/
inductive Event (ι : Type) where
  | write (i : ι)
  | swap (i : ι)
  | enqueue (i : ι)
  | dequeue
  | clear
  | read

/-- No one has written. -/
def new : Wakeup ι := ⟨false, 0, .idle, fun _ ↦ .idle⟩

/-- One notifier gets into another state. -/
def setNotifier (w : Wakeup ι) (i : ι) (x : Notifier) : Wakeup ι :=
  { w with notifier := Function.update w.notifier i x }

/-- One atomic step of a party; `none` when the party is elsewhere. -/
def step (w : Wakeup ι) : Event ι → Option (Wakeup ι)
  | .write i => if w.notifier i = .idle then some (w.setNotifier i .wrote) else none
  | .swap i =>
    if w.notifier i = .wrote then
      some ({ w with pending := true }.setNotifier i (if w.pending then .idle else .notifying))
    else none
  | .enqueue i =>
    if w.notifier i = .notifying then
      some ({ w with queued := w.queued + 1 }.setNotifier i .idle)
    else none
  | .dequeue =>
    if w.handler = .idle ∧ 0 < w.queued then
      some { w with queued := w.queued - 1, handler := .dequeued }
    else none
  | .clear =>
    if w.handler = .dequeued then some { w with pending := false, handler := .cleared } else none
  | .read => if w.handler = .cleared then some { w with handler := .idle } else none

/-- Nothing is queued or half handled and no notifier is between its write and the end of
its notification. -/
def Settled (w : Wakeup ι) : Prop :=
  w.queued = 0 ∧ w.handler = .idle ∧ ∀ i, w.notifier i = .idle

/-- A wakeup is on its way that will clear the flag. -/
def Ringing (w : Wakeup ι) : Prop :=
  0 < w.queued ∨ w.handler = .dequeued ∨ ∃ i, w.notifier i = .notifying

/-- The flag is set only while a wakeup is on its way. -/
def Armed (w : Wakeup ι) : Prop := w.pending = true → w.Ringing

private theorem notifier_setNotifier (w : Wakeup ι) (i j : ι) (x : Notifier) :
    (w.setNotifier i x).notifier j = if j = i then x else w.notifier j := by
  simp [setNotifier, Function.update_apply]

omit [DecidableEq ι] in
theorem armed_new : (new : Wakeup ι).Armed := by
  intro h
  cases h

variable {w : Wakeup ι}

private theorem ringing_setNotifier {i : ι} (hi : w.notifier i ≠ .notifying) (x : Notifier)
    (h : w.Ringing) : (w.setNotifier i x).Ringing := by
  obtain hq | hh | ⟨j, hj⟩ := h
  · exact .inl hq
  · exact .inr (.inl hh)
  · refine .inr (.inr ⟨j, ?_⟩)
    have hji : j ≠ i := by
      rintro rfl
      exact hi hj
    rw [notifier_setNotifier, if_neg hji]
    exact hj

private theorem ringing_swap (harmed : w.Armed) {i : ι} (hi : w.notifier i = .wrote) :
    ({ w with pending := true }.setNotifier i
      (if w.pending then .idle else .notifying)).Ringing := by
  cases hp : w.pending with
  | true =>
    apply ringing_setNotifier
    · rw [hi]
      decide
    · exact harmed hp
  | false =>
    refine .inr (.inr ⟨i, ?_⟩)
    rw [notifier_setNotifier, if_pos rfl]
    rfl

/-- Every event keeps the wakeup. -/
theorem armed_step {w' : Wakeup ι} {e : Event ι} (harmed : w.Armed) (h : w.step e = some w') :
    w'.Armed := by
  cases e with
  | write i =>
    obtain ⟨hi, rfl⟩ : w.notifier i = .idle ∧ w.setNotifier i .wrote = w' := by
      simpa [step] using h
    intro hp
    apply ringing_setNotifier
    · rw [hi]
      decide
    · exact harmed hp
  | swap i =>
    obtain ⟨hi, ⟨⟩⟩ := Option.ite_none_right_eq_some.mp h
    exact fun _ ↦ ringing_swap harmed hi
  | enqueue i =>
    obtain ⟨-, ⟨⟩⟩ := Option.ite_none_right_eq_some.mp h
    exact fun _ ↦ .inl (Nat.succ_pos _)
  | dequeue =>
    obtain ⟨-, ⟨⟩⟩ := Option.ite_none_right_eq_some.mp h
    exact fun _ ↦ .inr (.inl rfl)
  | clear =>
    obtain ⟨-, ⟨⟩⟩ := Option.ite_none_right_eq_some.mp h
    intro hp
    cases hp
  | read =>
    obtain ⟨hcleared, ⟨⟩⟩ := Option.ite_none_right_eq_some.mp h
    intro hp
    obtain hq | hh | hn := harmed hp
    · exact .inl hq
    · rw [hcleared] at hh
      cases hh
    · exact .inr (.inr hn)

omit [DecidableEq ι] in
/-- A wakeup on its way is not settled. -/
theorem not_settled_of_ringing (h : w.Ringing) : ¬ w.Settled := by
  rintro ⟨hq, hh, hn⟩
  obtain hq' | hh' | ⟨i, hi⟩ := h
  · omega
  · rw [hh] at hh'
    cases hh'
  · rw [hn i] at hi
    cases hi

/-- Only the handler's read of the state can settle a wakeup. -/
theorem eq_read_of_settled {w' : Wakeup ι} {e : Event ι} (harmed : w.Armed) (h : w.step e = some w')
    (hsettled : w'.Settled) : e = .read := by
  cases e with
  | write i =>
    obtain ⟨-, ⟨⟩⟩ := Option.ite_none_right_eq_some.mp h
    have hi := hsettled.2.2 i
    rw [notifier_setNotifier, if_pos rfl] at hi
    cases hi
  | swap i =>
    obtain ⟨hi, ⟨⟩⟩ := Option.ite_none_right_eq_some.mp h
    exact absurd hsettled (not_settled_of_ringing (ringing_swap harmed hi))
  | enqueue i =>
    obtain ⟨-, ⟨⟩⟩ := Option.ite_none_right_eq_some.mp h
    cases hsettled.1
  | dequeue =>
    obtain ⟨-, ⟨⟩⟩ := Option.ite_none_right_eq_some.mp h
    cases hsettled.2.1
  | clear =>
    obtain ⟨-, ⟨⟩⟩ := Option.ite_none_right_eq_some.mp h
    cases hsettled.2.1
  | read => rfl

end Wakeup
end Bootty.Base
