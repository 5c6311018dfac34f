import Mathlib.Data.List.Basic
import Mathlib.Tactic.Common

/-!
# Sockets

A socket delivers a stream in pieces which its reader does not choose. A read may also time out
or be interrupted with nothing lost, and behind its last element the stream is closed or fails.
`readExact` waits through interruptions for a given number of elements, so that it does not see
how the stream is cut.
-/

namespace Bootty.Base

variable {α : Type}

/-- Why a read has nothing for now. -/
inductive Pause where
  | wouldBlock
  | timedOut
  | interrupted
  deriving DecidableEq, Repr

/-- What the operating system does at one read: pause, or deliver at most one element more than
`more`. -/
inductive Turn where
  | pause (pause : Pause)
  | deliver (more : Nat)
  deriving DecidableEq, Repr

/-- The failure of a read. -/
inductive ReadError where
  | paused (pause : Pause)
  | unexpectedEof
  | failed
  deriving DecidableEq, Repr

/-- The elements still to come, what the next reads do, and whether a read behind the last
element fails or finds the stream closed. Later reads deliver what they are asked for. -/
structure Socket (α : Type) where
  rest : List α
  turns : List Turn
  fails : Bool

namespace Socket

/-- A piece of the stream, empty only at its end. -/
def deliver (s : Socket α) (size : Nat) : Except ReadError (List α) × Socket α :=
  if s.rest = [] ∧ s.fails then (.error .failed, s)
  else (.ok (s.rest.take size), { s with rest := s.rest.drop size })

/-- `Read::read` into a buffer of `want` elements. -/
def read (s : Socket α) (want : Nat) : Except ReadError (List α) × Socket α :=
  match s.turns with
  | [] => s.deliver want
  | .pause pause :: turns => (.error (.paused pause), { s with turns })
  | .deliver more :: turns => { s with turns }.deliver (min want (more + 1))

/-- How much a socket can still do. -/
def remaining (s : Socket α) : Nat := s.rest.length + s.turns.length

/-- What the outcome of a read says about the stream: a pause loses nothing, the end is reached
behind the last element, and else the piece is its front. -/
def Delivers (s s' : Socket α) (want : Nat) : Except ReadError (List α) → Prop
  | .ok [] => s.rest = [] ∧ s'.rest = [] ∧ s.fails = false
  | .ok (x :: piece) => s.rest = x :: piece ++ s'.rest ∧ piece.length + 1 ≤ want
  | .error (.paused pause) => s.turns = .pause pause :: s'.turns ∧ s'.rest = s.rest
  | .error .failed => s.rest = [] ∧ s'.rest = [] ∧ s.fails = true
  | .error .unexpectedEof => False

variable {want : Nat}

private theorem deliver_spec (s : Socket α) (turns : List Turn) {size : Nat} (hsize : 0 < size)
    (hle : size ≤ want) :
    Delivers s ({ s with turns }.deliver size).2 want ({ s with turns }.deliver size).1 ∧
      ({ s with turns }.deliver size).2.turns = turns ∧
      ({ s with turns }.deliver size).2.fails = s.fails := by
  unfold deliver
  cases hrest : s.rest with
  | nil => cases hfails : s.fails <;> simp [Delivers, hrest, hfails]
  | cons x rest =>
    cases size with
    | zero => cases hsize
    | succ size =>
      have hlength := List.length_take_le size rest
      refine ⟨⟨by simp [hrest], ?_⟩, by simp, by simp⟩
      exact Nat.le_trans (Nat.succ_le_succ hlength) hle

/-- One read, in one statement. -/
theorem read_spec {s s' : Socket α} {want : Nat} (hwant : 0 < want)
    {outcome : Except ReadError (List α)} (h : s.read want = (outcome, s')) :
    Delivers s s' want outcome ∧ s'.turns.IsSuffix s.turns ∧ s'.fails = s.fails := by
  unfold read at h
  split at h
  · have ⟨hspec, hturns, hfails⟩ := deliver_spec s s.turns hwant (Nat.le_refl want)
    rw [show s.deliver want = (outcome, s') from h] at hspec hturns hfails
    exact ⟨hspec, hturns ▸ List.suffix_rfl, hfails⟩
  · next pause turns hturns =>
    obtain ⟨rfl, rfl⟩ := Prod.mk.inj h
    exact ⟨⟨hturns, rfl⟩, hturns ▸ List.suffix_cons _ _, rfl⟩
  · next more turns hcons =>
    have ⟨hspec, hturns, hfails⟩ := deliver_spec s turns
      (show 0 < min want (more + 1) by omega) (Nat.min_le_left want (more + 1))
    rw [h] at hspec hturns hfails
    refine ⟨hspec, ?_, hfails⟩
    rw [hturns, hcons]
    exact List.suffix_cons _ _

variable {s s' : Socket α}

/-- A read that pauses or delivers something leaves less to do. -/
theorem remaining_read (hwant : 0 < want) {outcome : Except ReadError (List α)}
    (h : s.read want = (outcome, s')) (houtcome : (∃ pause, outcome = .error (.paused pause)) ∨
      ∃ x piece, outcome = .ok (x :: piece)) : s'.remaining < s.remaining := by
  have ⟨hspec, hsuffix, _⟩ := read_spec hwant h
  rcases houtcome with ⟨pause, rfl⟩ | ⟨x, piece, rfl⟩
  · simp [remaining, hspec.1, hspec.2]
  · have hle := hsuffix.length_le
    simp only [remaining, hspec.1, List.length_append, List.length_cons]
    omega

/-- `Read::read_exact`: reads until the buffer is full, past interruptions. -/
def readExact (s : Socket α) (want : Nat) : Except ReadError (List α) × Socket α :=
  if _hwant : want = 0 then (.ok [], s)
  else
    match _hread : s.read want with
    | (.ok [], s') => (.error .unexpectedEof, s')
    | (.ok (x :: piece), s') =>
      match s'.readExact (want - (piece.length + 1)) with
      | (.ok more, s'') => (.ok (x :: piece ++ more), s'')
      | (.error error, s'') => (.error error, s'')
    | (.error (.paused .interrupted), s') => s'.readExact want
    | (.error error, s') => (.error error, s')
termination_by s.remaining
decreasing_by
  · exact remaining_read (Nat.pos_of_ne_zero _hwant) _hread (.inr ⟨_, _, rfl⟩)
  · exact remaining_read (Nat.pos_of_ne_zero _hwant) _hread (.inl ⟨_, rfl⟩)

/-- Whatever `read_exact` reads is no longer to be read. -/
theorem remaining_readExact {bytes : List α} (h : s.readExact want = (.ok bytes, s')) :
    s'.remaining ≤ s.remaining ∧ (0 < want → s'.remaining < s.remaining) := by
  fun_induction readExact s want generalizing bytes with
  | case1 s =>
    obtain rfl := (Prod.mk.inj h).2
    simp
  | case2 => cases (Prod.mk.inj h).1
  | case3 s want hwant x piece next hread more last hrec ih =>
    obtain rfl := (Prod.mk.inj h).2
    have hless := remaining_read (Nat.pos_of_ne_zero hwant) hread (.inr ⟨_, _, rfl⟩)
    have hle := (ih hrec).1
    omega
  | case4 => cases (Prod.mk.inj h).1
  | case5 s want hwant next hread ih =>
    have hless := remaining_read (Nat.pos_of_ne_zero hwant) hread (.inl ⟨_, rfl⟩)
    have hle := (ih h).1
    omega
  | case6 => cases (Prod.mk.inj h).1

/-! ### Blocking sockets -/

/-- Only interruptions pause a blocking socket. -/
def Blocking (s : Socket α) : Prop :=
  ∀ pause, .pause pause ∈ s.turns → pause = .interrupted

/-- What a read behind the end of the stream comes to for a reader that needs more. -/
def endError (s : Socket α) : ReadError := if s.fails then .failed else .unexpectedEof

private theorem Blocking.of_suffix (h : s.Blocking) (hsuffix : s'.turns.IsSuffix s.turns) :
    s'.Blocking :=
  fun pause hmem ↦ h pause (hsuffix.subset hmem)

/-- `read_exact` takes what it needs from the front of the stream, and fails only where the
stream is too short, whatever the cuts. -/
theorem readExact_spec (s : Socket α) (want : Nat) (h : s.Blocking) :
    ∃ s', s'.Blocking ∧ s'.fails = s.fails ∧
      ((want ≤ s.rest.length ∧ s'.rest = s.rest.drop want ∧
          s.readExact want = (.ok (s.rest.take want), s')) ∨
        s.rest.length < want ∧ s.readExact want = (.error s.endError, s')) := by
  fun_induction readExact s want with
  | case1 s => exact ⟨s, h, rfl, .inl ⟨by simp, by simp, by simp⟩⟩
  | case2 s want hwant s' hread =>
    have ⟨⟨hend, _, hcloses⟩, hsuffix, hfails⟩ := read_spec (Nat.pos_of_ne_zero hwant) hread
    refine ⟨s', h.of_suffix hsuffix, hfails, .inr ⟨?_, ?_⟩⟩
    · rw [hend]
      exact Nat.pos_of_ne_zero hwant
    · simp [endError, hcloses]
  | case3 s want hwant x piece s' hread more s'' hrec ih =>
    have ⟨⟨hrest, hle⟩, hsuffix, hfails⟩ := read_spec (Nat.pos_of_ne_zero hwant) hread
    have ⟨last, hblocking, hlast, hcase⟩ := ih (h.of_suffix hsuffix)
    have hlength : (x :: piece).length = piece.length + 1 := rfl
    rcases hcase with ⟨hfits, hdrop, heq⟩ | ⟨_, heq⟩
    · have ⟨hmore, hsame⟩ := Prod.mk.inj (hrec.symm.trans heq)
      subst hsame
      refine ⟨s'', hblocking, hlast.trans hfails, .inl ⟨?_, ?_, ?_⟩⟩
      · rw [hrest, List.length_append]
        omega
      · rw [hrest, List.drop_append, List.drop_of_length_le (by omega), hlength, hdrop]
        rfl
      · rw [Except.ok.inj hmore, hrest, List.take_append,
          List.take_of_length_le (show (x :: piece).length ≤ want by omega), hlength]
    · cases hrec.symm.trans heq
  | case4 s want hwant x piece s' hread error s'' hrec ih =>
    have ⟨⟨hrest, hle⟩, hsuffix, hfails⟩ := read_spec (Nat.pos_of_ne_zero hwant) hread
    have ⟨last, hblocking, hlast, hcase⟩ := ih (h.of_suffix hsuffix)
    rcases hcase with ⟨_, _, heq⟩ | ⟨hshort, heq⟩
    · cases hrec.symm.trans heq
    · have ⟨herror, hsame⟩ := Prod.mk.inj (hrec.symm.trans heq)
      subst hsame
      refine ⟨s'', hblocking, hlast.trans hfails, .inr ⟨?_, ?_⟩⟩
      · rw [hrest, List.length_append, List.length_cons]
        omega
      · rw [herror, endError, endError, hfails]
  | case5 s want hwant s' hread ih =>
    have ⟨⟨_, hrest⟩, hsuffix, hfails⟩ := read_spec (Nat.pos_of_ne_zero hwant) hread
    have ⟨last, hblocking, hlast, hcase⟩ := ih (h.of_suffix hsuffix)
    rw [hrest, endError, hfails] at hcase
    exact ⟨last, hblocking, hlast.trans hfails, hcase⟩
  | case6 s want hwant error s' hother hread =>
    have ⟨hspec, hsuffix, hfails⟩ := read_spec (Nat.pos_of_ne_zero hwant) hread
    cases error with
    | paused pause =>
      have hpause := h pause (by rw [hspec.1]; exact List.mem_cons_self)
      exact absurd (hpause ▸ rfl) hother
    | unexpectedEof => cases hspec
    | failed =>
      have ⟨hend, _, hbroken⟩ := hspec
      refine ⟨s', h.of_suffix hsuffix, hfails, .inr ⟨?_, ?_⟩⟩
      · rw [hend]
        exact Nat.pos_of_ne_zero hwant
      · simp [endError, hbroken]

end Socket
end Bootty.Base
