import Bootty.Host.RemoteProcess
import Mathlib.Algebra.BigOperators.Group.List.Basic
import Mathlib.Algebra.GroupWithZero.Nat
import Mathlib.Algebra.Order.BigOperators.Group.List

/-!
# Cancellation behind unread input

`CANCEL` travels behind the input in one stream, and the reader awaits a bounded channel for each
message before it reads the next frame. While the child does not read, the writer holds one
message that does not fit into the input buffer, the channel eight and the reader one. So
cancellation is reached exactly if the frames before the last nine fit.
-/

namespace Bootty.Host.RemoteProcess

open Bootty.Base

/-- The bytes that a frame brings to the child's input. -/
def Frame.size (frame : Frame) : Nat :=
  match frame.kind with
  | .input => frame.bytes.length
  | _ => 0

/-- The bytes that the child's input holds. -/
def Input.size : Input → Nat
  | .bytes held => held.length
  | _ => 0

/-- The frames in front of the first `CANCEL`. -/
def beforeCancel (frames : List Frame) : List Frame := frames.takeWhile (·.kind ≠ .cancel)

/-- The input bytes of all frames in front of the first `CANCEL` but the last nine. -/
def committedBytes (frames : List Frame) : Nat :=
  (((beforeCancel frames).take ((beforeCancel frames).length - 9)).map Frame.size).sum

section Run

variable {decodeSize : List UInt8 → Option RemoteTerminalSize} {terminal : Bool} {capacity : Nat}

/-- An accepted frame brings its bytes, and only `CANCEL` cancels. -/
theorem accept_spec {ended : Bool} {frame : Frame} {accepted : Accepted}
    (h : accept decodeSize terminal ended frame = some accepted) :
    accepted.message.size = frame.size ∧
      (accepted.cancels = true ↔ frame.kind = .cancel) ∧
      (ended = true → accepted.ended = true) ∧ (ended = true → frame.size = 0) ∧
      (accepted.ended = false → accepted.message ≠ .eof) := by
  unfold accept at h
  cases hkind : frame.kind with
  | input =>
    simp only [hkind] at h
    split at h
    · next hfits =>
      obtain rfl := Option.some.inj h
      simp_all [Input.size, Frame.size]
    · cases h
  | resize =>
    simp only [hkind] at h
    split at h
    · split at h
      · cases h
      · split at h
        · cases h
        · obtain rfl := Option.some.inj h
          simp [Input.size, Frame.size, hkind]
    · cases h
  | eof =>
    simp only [hkind] at h
    split at h
    · obtain rfl := Option.some.inj h
      simp [Input.size, Frame.size, hkind]
    · cases h
  | cancel =>
    simp only [hkind] at h
    split at h
    · obtain rfl := Option.some.inj h
      simp [Input.size, Frame.size, hkind]
    · cases h
  | other =>
    simp only [hkind] at h
    cases h

private theorem acceptsAll_cons {ended : Bool} {frame : Frame} {rest : List Frame}
    (h : acceptsAll decodeSize terminal ended (frame :: rest) = true) :
    ∃ accepted, accept decodeSize terminal ended frame = some accepted ∧
      acceptsAll decodeSize terminal accepted.ended rest = true := by
  rw [acceptsAll] at h
  split at h
  · cases h
  · next accepted haccept => exact ⟨accepted, haccept, h⟩

/-! ### Where the messages are -/

/-- The accounting of a state in which `cancel` has not been called: the frames read became, in
order, the messages that the writer has taken, those in the channel and the one that the reader
holds; the bytes that the writer has taken are in the input buffer or still to be written. -/
structure Accounted (decodeSize : List UInt8 → Option RemoteTerminalSize) (terminal : Bool)
    (capacity : Nat) (frames : List Frame) (s : Serving) (read : List Frame)
    (taken : List Input) : Prop where
  frames : frames = read ++ (s.stream ++ s.undelivered)
  uncancelled : ∀ frame ∈ read, frame.kind ≠ .cancel
  accepted : acceptsAll decodeSize terminal s.ended (s.stream ++ s.undelivered) = true
  messages : read.map Frame.size = (taken ++ s.channel ++ s.holding.toList).map Input.size
  bound : s.channel.length ≤ channelBound
  running : s.returned = false
  unfinished : ∀ code, .exit code ∉ s.output
  written : match s.writer with
    | .idle => ∀ held, s.stdin = some held → held.length = (taken.map Input.size).sum
    | .writing rest => ∃ held, s.stdin = some held ∧
        held.length + rest.length = (taken.map Input.size).sum
    | .stopped => False
  room : ∀ held, s.stdin = some held → held.length ≤ capacity

variable {event : Event}

/-- Once called, `cancel` stays called. -/
theorem step_cancelled {s s' : Serving} (h : step decodeSize terminal capacity s event = some s')
    (hcancelled : s.cancelled = true) :
    s'.cancelled = true := by
  cases event <;> simp only [step] at h <;> repeat' split at h
  all_goals cases h
  all_goals simp [hcancelled]

/-- `cancel` has been called, or the messages are accounted for. -/
def Covered (decodeSize : List UInt8 → Option RemoteTerminalSize) (terminal : Bool)
    (capacity : Nat) (frames : List Frame) (s : Serving) : Prop :=
  s.cancelled = true ∨ ∃ read taken, Accounted decodeSize terminal capacity frames s read taken

variable {frames : List Frame} {s s' : Serving} {read : List Frame} {taken : List Input}

private theorem covered_readFrame
    (hinv : Accounted decodeSize terminal capacity frames s read taken)
    (h : step decodeSize terminal capacity s .readFrame = some s') :
    Covered decodeSize terminal capacity frames s' := by
  simp only [step, hinv.running, Bool.false_eq_true, if_false] at h
  split at h
  · next frame rest hholding hstream =>
    have haccepted := hinv.accepted
    rw [hstream, List.cons_append] at haccepted
    have ⟨accepted, haccept, hrest⟩ := acceptsAll_cons haccepted
    rw [haccept] at h
    obtain rfl := Option.some.inj h
    have ⟨hsize, hcancels, _⟩ := accept_spec haccept
    by_cases hcancel : frame.kind = .cancel
    · apply Or.inl
      simp [hcancels.mpr hcancel]
    · have hframes : frames = (read ++ [frame]) ++ (rest ++ s.undelivered) := by
        simp [hinv.frames, hstream]
      have huncancelled : ∀ other ∈ read ++ [frame], other.kind ≠ .cancel := by
        intro other hother
        cases List.mem_append.mp hother with
        | inl hread => exact hinv.uncancelled other hread
        | inr hlast =>
          rw [List.mem_singleton.mp hlast]
          exact hcancel
      have hmessages := hinv.messages
      rw [hholding, Option.toList_none, List.append_nil] at hmessages
      apply Or.inr
      exists read ++ [frame], taken
      exact { hinv with
        frames := hframes
        uncancelled := huncancelled
        accepted := hrest
        messages := by simp [hmessages, hsize]
        running := rfl }
  · cases h

private theorem covered_send (hinv : Accounted decodeSize terminal capacity frames s read taken)
    (h : step decodeSize terminal capacity s .send = some s') :
    Covered decodeSize terminal capacity frames s' := by
  simp only [step] at h
  split at h
  · next hstopped =>
    have hwritten := hinv.written
    rw [hstopped] at hwritten
    exact hwritten.elim
  · next message hholding _ =>
    split at h
    · next hroom =>
      obtain rfl := Option.some.inj h
      have hmessages := hinv.messages
      rw [hholding] at hmessages
      apply Or.inr
      exists read, taken
      exact { hinv with
        messages := by simpa using hmessages
        bound := by
          rw [List.length_append, List.length_singleton]
          exact hroom }
    · cases h
  · cases h

private theorem Accounted.take {message : Input} {queued : List Input} {writer : Writer}
    {stdin : Option (List UInt8)}
    (hinv : Accounted decodeSize terminal capacity frames s read taken)
    (hchannel : s.channel = message :: queued)
    (hwritten : match writer with
      | .idle => ∀ held, stdin = some held →
          held.length = ((taken ++ [message]).map Input.size).sum
      | .writing rest => ∃ held, stdin = some held ∧
          held.length + rest.length = ((taken ++ [message]).map Input.size).sum
      | .stopped => False)
    (hroom : ∀ held, stdin = some held → held.length ≤ capacity) :
    Accounted decodeSize terminal capacity frames
      { s with channel := queued, writer := writer, stdin := stdin } read
      (taken ++ [message]) := by
  have hmessages := hinv.messages
  have hbound := hinv.bound
  rw [hchannel] at hmessages hbound
  exact { hinv with
    messages := by simpa using hmessages
    bound := Nat.le_of_succ_le hbound
    written := hwritten
    room := hroom }

private theorem covered_receive (hinv : Accounted decodeSize terminal capacity frames s read taken)
    (h : step decodeSize terminal capacity s .receive = some s') :
    Covered decodeSize terminal capacity frames s' := by
  have hwritten := hinv.written
  apply Or.inr
  simp only [step] at h
  split at h
  · next bytes rest hwriter hchannel =>
    obtain rfl := Option.some.inj h
    rw [hwriter] at hwritten
    exists read, taken ++ [.bytes bytes]
    apply hinv.take hchannel
    · cases hstdin : s.stdin with
      | none => simp
      | some held => simp [hwritten held hstdin, Input.size]
    · exact hinv.room
  · next rest hwriter hchannel =>
    obtain rfl := Option.some.inj h
    rw [hwriter] at hwritten
    exists read, taken ++ [.eof]
    apply hinv.take hchannel
    · rw [hwriter]
      cases terminal with
      | false => simp
      | true => simpa [Input.size] using hwritten
    · cases terminal with
      | false => simp
      | true => exact hinv.room
  · next size rest hwriter hchannel =>
    obtain rfl := Option.some.inj h
    rw [hwriter] at hwritten
    exists read, taken ++ [.resize size]
    apply hinv.take hchannel
    · rw [hwriter]
      simpa [Input.size] using hwritten
    · exact hinv.room
  · cases h

private theorem covered_write {count : Nat}
    (hinv : Accounted decodeSize terminal capacity frames s read taken)
    (h : step decodeSize terminal capacity s (.write count) = some s') :
    Covered decodeSize terminal capacity frames s' := by
  simp only [step] at h
  split at h
  · next rest held hwriter hstdin =>
    split at h
    · next hfits =>
      obtain rfl := Option.some.inj h
      have hwritten := hinv.written
      rw [hwriter] at hwritten
      have ⟨held', hheld', hsum⟩ := hwritten
      obtain rfl : held = held' := Option.some.inj (hstdin.symm.trans hheld')
      have hmoved : (held ++ rest.take count).length = held.length + count := by
        rw [List.length_append, List.length_take]
        omega
      apply Or.inr
      exists read, taken
      exact { hinv with
        written := by
          exists held ++ rest.take count
          constructor
          · rfl
          · rw [hmoved, List.length_drop]
            omega
        room := by
          intro written hwritten
          obtain rfl := Option.some.inj hwritten
          rw [hmoved]
          exact hfits.2.2 }
    · cases h
  · cases h

private theorem covered_finishWrite
    (hinv : Accounted decodeSize terminal capacity frames s read taken)
    (h : step decodeSize terminal capacity s .finishWrite = some s') :
    Covered decodeSize terminal capacity frames s' := by
  simp only [step] at h
  split at h
  · next hwriter =>
    obtain rfl := Option.some.inj h
    have hwritten := hinv.written
    rw [hwriter] at hwritten
    have ⟨held, hstdin, hsum⟩ := hwritten
    apply Or.inr
    exists read, taken
    exact { hinv with
      written := by
        intro held' hheld'
        obtain rfl : held = held' := Option.some.inj (hstdin.symm.trans hheld')
        simpa using hsum }
  · cases h

private theorem covered_relay (hinv : Accounted decodeSize terminal capacity frames s read taken)
    (h : step decodeSize terminal capacity s .relay = some s') :
    Covered decodeSize terminal capacity frames s' := by
  simp only [step] at h
  split at h
  · next output rest houtput =>
    split at h
    · obtain rfl := Option.some.inj h
      have hunfinished := hinv.unfinished
      rw [houtput] at hunfinished
      apply Or.inr
      exists read, taken
      exact { hinv with
        running := by
          cases output with
          | stdout | stderr => rfl
          | exit code => exact absurd List.mem_cons_self (hunfinished code)
        unfinished := fun code hcode ↦ hunfinished code (List.mem_cons_of_mem _ hcode) }
    · cases h
  · cases h

private theorem covered_forward {stderr : Bool}
    (hinv : Accounted decodeSize terminal capacity frames s read taken)
    (h : step decodeSize terminal capacity s (.forward stderr) = some s') :
    Covered decodeSize terminal capacity frames s' := by
  simp only [step] at h
  split at h
  · split at h
    · obtain rfl := Option.some.inj h
      apply Or.inr
      exists read, taken
      exact { hinv with
        unfinished := by
          intro code hcode
          cases List.mem_append.mp hcode with
          | inl hold => exact hinv.unfinished code hold
          | inr hnew => cases stderr <;> simp at hnew }
    · cases h
  · cases h

private theorem covered_deliver (hinv : Accounted decodeSize terminal capacity frames s read taken)
    (h : step decodeSize terminal capacity s .deliver = some s') :
    Covered decodeSize terminal capacity frames s' := by
  simp only [step] at h
  split at h
  · next frame rest hundelivered =>
    obtain rfl := Option.some.inj h
    have hframes := hinv.frames
    have haccepted := hinv.accepted
    rw [hundelivered] at hframes haccepted
    apply Or.inr
    exists read, taken
    exact { hinv with
      frames := by simpa using hframes
      accepted := by simpa using haccepted }
  · cases h

/-- Every step keeps the accounting or calls `cancel`. -/
theorem covered_step (hinv : Covered decodeSize terminal capacity frames s)
    (h : step decodeSize terminal capacity s event = some s') :
    Covered decodeSize terminal capacity frames s' := by
  by_cases hcancelled : s.cancelled = true
  · exact Or.inl (step_cancelled h hcancelled)
  · have ⟨read, taken, hinv⟩ := hinv.resolve_left hcancelled
    cases event with
    | readFrame => exact covered_readFrame hinv h
    | send => exact covered_send hinv h
    | receive => exact covered_receive hinv h
    | write count => exact covered_write hinv h
    | finishWrite => exact covered_finishWrite hinv h
    | failWrite =>
      simp only [step, hcancelled] at h
      split at h <;> cases h
    | forward stderr => exact covered_forward hinv h
    | relay => exact covered_relay hinv h
    | exit code =>
      simp only [step, hcancelled, Bool.false_eq_true, false_and, if_false] at h
      cases h
    | deliver => exact covered_deliver hinv h
    | print stderr printed =>
      simp only [step] at h
      split at h
      · obtain rfl := Option.some.inj h
        exact Or.inr ⟨read, taken, { hinv with }⟩
      · cases h
    | take =>
      obtain rfl := Option.some.inj h
      exact Or.inr ⟨read, taken, { hinv with }⟩

private theorem covered_serve (h : acceptsAll decodeSize terminal false frames = true) :
    Covered decodeSize terminal capacity frames (serve frames) := by
  apply Or.inr
  exists [], []
  constructor <;> simp [serve, h]

/-! ### A blocked server -/

/-- A blocked server holds one message, the channel eight, and the writer has more than the
input buffer takes. -/
theorem Accounted.of_stuck (hinv : Accounted decodeSize terminal capacity frames s read taken)
    (hstuck : Stuck decodeSize terminal capacity s) :
    read.length = taken.length + 9 ∧ capacity < (taken.map Input.size).sum := by
  have ⟨frame, hframe, _⟩ := hstuck.arrived
  have hread := hstuck.blocked .readFrame rfl
  have hsend := hstuck.blocked .send rfl
  have hreceive := hstuck.blocked .receive rfl
  have hwrite := hstuck.blocked (.write 1) rfl
  have hfinish := hstuck.blocked .finishWrite rfl
  have hwritten := hinv.written
  have hholding : ∃ message, s.holding = some message := by
    cases hholding : s.holding with
    | some message => exact ⟨message, rfl⟩
    | none =>
      cases hstream : s.stream with
      | nil => simp [hstream] at hframe
      | cons first rest =>
        simp only [step, hinv.running, hholding, hstream] at hread
        cases haccept : accept decodeSize terminal s.ended first <;> simp [haccept] at hread
  have ⟨message, hmessage⟩ := hholding
  have hchannel : s.channel.length = channelBound := by
    by_contra hroom
    have hlt : s.channel.length < channelBound := Nat.lt_of_le_of_ne hinv.bound hroom
    cases hwriter : s.writer <;> simp [step, hmessage, hwriter, hlt] at hsend
  have hlength := congrArg List.length hinv.messages
  simp only [List.length_map, List.length_append, hmessage, hchannel, channelBound,
    Option.toList_some, List.length_singleton] at hlength
  constructor
  · omega
  · cases hwriter : s.writer with
    | idle =>
      cases hqueue : s.channel with
      | nil => simp [hqueue, channelBound] at hchannel
      | cons first rest => cases first <;> simp [step, hwriter, hqueue] at hreceive
    | stopped =>
      rw [hwriter] at hwritten
      exact hwritten.elim
    | writing rest =>
      rw [hwriter] at hwritten
      have ⟨held, hstdin, hsum⟩ := hwritten
      cases rest with
      | nil => simp [step, hwriter] at hfinish
      | cons first rest =>
        have hroom := hinv.room held hstdin
        simp [step, hwriter, hstdin] at hwrite
        simp only [List.length_cons] at hsum
        omega

/-- Frames without `CANCEL` at the front are in front of the first. -/
theorem beforeCancel_append {read rest : List Frame}
    (h : ∀ frame ∈ read, frame.kind ≠ .cancel) :
    beforeCancel (read ++ rest) = read ++ beforeCancel rest := by
  rw [beforeCancel, beforeCancel, List.takeWhile_append_of_pos]
  intro frame hframe
  simpa using h frame hframe

/-- Nothing is stuck while the frames before the last nine fit. -/
theorem not_stuck_of_fits (haccepted : acceptsAll decodeSize terminal false frames = true)
    (hfits : committedBytes frames ≤ capacity)
    (hs : Reaches (step decodeSize terminal capacity) anyStep (serve frames) s) :
    ¬ Stuck decodeSize terminal capacity s := by
  intro hstuck
  have hcovered : Covered decodeSize terminal capacity frames s :=
    hs.invariant (covered_serve haccepted) fun _ _ _ hinv _ hstep ↦ covered_step hinv hstep
  have hcancelled : s.cancelled ≠ true := by
    rw [hstuck.uncancelled]
    decide
  have ⟨read, taken, hinv⟩ := hcovered.resolve_left hcancelled
  have ⟨hlength, hover⟩ := hinv.of_stuck hstuck
  have hbefore : beforeCancel frames = read ++ beforeCancel (s.stream ++ s.undelivered) := by
    rw [hinv.frames]
    exact beforeCancel_append hinv.uncancelled
  have htaken : (read.take taken.length).map Frame.size = taken.map Input.size := by
    rw [List.map_take, hinv.messages, List.append_assoc, List.map_append, ← List.length_map,
      List.take_left]
  have hcommitted : (beforeCancel frames).take ((beforeCancel frames).length - 9) =
      read.take taken.length ++ ((beforeCancel frames).drop taken.length).take
        (beforeCancel (s.stream ++ s.undelivered)).length := by
    have hlast : (beforeCancel frames).length - 9 =
        taken.length + (beforeCancel (s.stream ++ s.undelivered)).length := by
      rw [hbefore, List.length_append]
      omega
    have hread : taken.length ≤ read.length := by omega
    rw [hlast, List.take_add]
    nth_rewrite 1 [hbefore]
    rw [List.take_append_of_le_length hread]
  have hle : (taken.map Input.size).sum ≤ committedBytes frames := by
    rw [← htaken, committedBytes, hcommitted, List.map_append, List.sum_append]
    exact Nat.le_add_right _ _
  omega

/-! ### A run that blocks -/

/-- The server between two frames, while nothing has been printed. -/
private def between (ended : Bool) (queued : List Input) (writer : Writer) (held : List UInt8)
    (stream : List Frame) : Serving :=
  { serve [] with
    stream := stream, ended := ended, channel := queued, writer := writer, stdin := some held }

private theorem reaches_single (h : step decodeSize terminal capacity s event = some s') :
    Reaches (step decodeSize terminal capacity) anyStep s s' :=
  .step .init trivial h

private theorem reaches_deliver (frames stream : List Frame) :
    Reaches (step decodeSize terminal capacity) anyStep
      { serve frames with stream := stream } (between false [] .idle [] (stream ++ frames)) := by
  induction frames generalizing stream with
  | nil =>
    rw [List.append_nil]
    exact .init
  | cons frame rest ih =>
    have hrest := ih (stream ++ [frame])
    rw [List.append_assoc, List.singleton_append] at hrest
    have hdeliver : step decodeSize terminal capacity
        { serve (frame :: rest) with stream := stream } .deliver =
          some { serve rest with stream := stream ++ [frame] } := rfl
    exact (reaches_single hdeliver).trans hrest

variable {ended : Bool} {queued : List Input} {writer : Writer} {held : List UInt8}
  {frame : Frame} {rest : List Frame} {accepted : Accepted}

private theorem step_readFrame (haccept : accept decodeSize terminal ended frame = some accepted)
    (hcancels : accepted.cancels = false) :
    step decodeSize terminal capacity (between ended queued writer held (frame :: rest))
        .readFrame =
      some { between accepted.ended queued writer held rest with
        holding := some accepted.message } := by
  simp [step, between, serve, haccept, hcancels]

private theorem reaches_read (haccept : accept decodeSize terminal ended frame = some accepted)
    (hcancels : accepted.cancels = false) (hwriter : writer ≠ .stopped)
    (hroom : queued.length < channelBound) :
    Reaches (step decodeSize terminal capacity) anyStep
      (between ended queued writer held (frame :: rest))
      (between accepted.ended (queued ++ [accepted.message]) writer held rest) := by
  have hsend : step decodeSize terminal capacity
      { between accepted.ended queued writer held rest with holding := some accepted.message }
        .send = some (between accepted.ended (queued ++ [accepted.message]) writer held rest) := by
    cases writer with
    | stopped => exact absurd rfl hwriter
    | idle | writing => simp [step, between, serve, hroom]
  exact (reaches_single (step_readFrame haccept hcancels)).trans (reaches_single hsend)

variable {stream : List Frame}

private theorem reaches_write {bytes : List UInt8} (count : Nat) (hcount : count ≤ bytes.length)
    (hroom : held.length + count ≤ capacity) :
    Reaches (step decodeSize terminal capacity) anyStep
      (between ended queued (.writing bytes) held stream)
      (between ended queued (.writing (bytes.drop count)) (held ++ bytes.take count) stream) := by
  by_cases hzero : count = 0
  · rw [hzero, List.drop_zero, List.take_zero, List.append_nil]
    exact .init
  · have hpositive : 0 < count := Nat.pos_of_ne_zero hzero
    have hwrite : step decodeSize terminal capacity
        (between ended queued (.writing bytes) held stream) (.write count) =
          some (between ended queued (.writing (bytes.drop count)) (held ++ bytes.take count)
            stream) := by
      simp [step, between, serve, hpositive, hcount, hroom]
    exact reaches_single hwrite

private theorem cancels_eq_false (haccept : accept decodeSize terminal ended frame = some accepted)
    (hkind : frame.kind ≠ .cancel) : accepted.cancels = false := by
  have ⟨_, hcancels, _⟩ := accept_spec haccept
  rw [← Bool.not_eq_true]
  exact fun h ↦ hkind (hcancels.mp h)

private theorem exists_cancel_of_cons (hcancel : ∃ other ∈ frame :: rest, other.kind = .cancel)
    (hkind : frame.kind ≠ .cancel) : ∃ other ∈ rest, other.kind = .cancel := by
  have ⟨other, hmem, hother⟩ := hcancel
  cases hmem with
  | head => exact absurd hother hkind
  | tail _ hmem => exact ⟨other, hmem, hother⟩

private theorem exists_stuck_of_full {bytes : List UInt8} (hbytes : bytes ≠ [])
    (hfull : held.length = capacity) (hbound : queued.length ≤ channelBound)
    (haccepted : acceptsAll decodeSize terminal ended stream = true)
    (hcancel : ∃ frame ∈ stream, frame.kind = .cancel)
    (hmany : channelBound < queued.length + (beforeCancel stream).length) :
    ∃ s, Reaches (step decodeSize terminal capacity) anyStep
      (between ended queued (.writing bytes) held stream) s ∧
        Stuck decodeSize terminal capacity s := by
  induction stream generalizing ended queued with
  | nil =>
    have ⟨_, hmem, _⟩ := hcancel
    cases hmem
  | cons frame rest ih =>
    have ⟨accepted, haccept, hrest⟩ := acceptsAll_cons haccepted
    have hkind : frame.kind ≠ .cancel := by
      intro hkind
      simp [beforeCancel, hkind] at hmany
      omega
    have huncancelled := cancels_eq_false haccept hkind
    have hcancel' := exists_cancel_of_cons hcancel hkind
    by_cases hroom : queued.length < channelBound
    · have hmany' : channelBound <
          (queued ++ [accepted.message]).length + (beforeCancel rest).length := by
        simp [beforeCancel, hkind] at hmany ⊢
        omega
      have hbound' : (queued ++ [accepted.message]).length ≤ channelBound := by
        rw [List.length_append, List.length_singleton]
        exact hroom
      have ⟨s, hs, hstuck⟩ := ih hbound' hrest hcancel' hmany'
      have hread : Reaches (step decodeSize terminal capacity) anyStep
          (between ended queued (.writing bytes) held (frame :: rest))
          (between accepted.ended (queued ++ [accepted.message]) (.writing bytes) held rest) :=
        reaches_read haccept huncancelled (by simp) hroom
      exact ⟨s, hread.trans hs, hstuck⟩
    · exists { between accepted.ended queued (.writing bytes) held rest with
        holding := some accepted.message }
      constructor
      · exact reaches_single (step_readFrame haccept huncancelled)
      · constructor
        · exact hcancel'
        · rfl
        · intro event hevent
          cases event with
          | deliver | print | take => cases hevent
          | readFrame | receive | failWrite | forward | relay | exit =>
            simp [step, between, serve]
          | send => simp [step, between, serve, hroom]
          | finishWrite => simp [step, between, serve, hbytes]
          | write count =>
            simp only [step, between, serve]
            rw [if_neg]
            omega

private theorem size_eq_zero_of_ended
    (haccepted : acceptsAll decodeSize terminal true stream = true) :
    ∀ frame ∈ stream, frame.size = 0 := by
  induction stream with
  | nil => simp
  | cons first rest ih =>
    have ⟨accepted, haccept, hrest⟩ := acceptsAll_cons haccepted
    have ⟨_, _, hended, hsize, _⟩ := accept_spec haccept
    rw [hended rfl] at hrest
    intro frame hframe
    cases hframe with
    | head => exact hsize rfl
    | tail _ hmem => exact ih hrest frame hmem

private theorem committedBytes_eq_zero_of_ended
    (haccepted : acceptsAll decodeSize terminal true stream = true) :
    committedBytes stream = 0 := by
  rw [committedBytes, List.sum_eq_zero]
  intro size hsize
  have ⟨frame, hframe, hframeSize⟩ := List.mem_map.mp hsize
  have hmem : frame ∈ stream :=
    List.takeWhile_subset _ (List.mem_of_mem_take hframe)
  rw [← hframeSize]
  exact size_eq_zero_of_ended haccepted frame hmem

private theorem committedBytes_cons (hkind : frame.kind ≠ .cancel) :
    committedBytes (frame :: rest) =
      if 9 ≤ (beforeCancel rest).length then frame.size + committedBytes rest else 0 := by
  have hbefore : beforeCancel (frame :: rest) = frame :: beforeCancel rest := by
    simp [beforeCancel, hkind]
  rw [committedBytes, hbefore]
  split
  · next hnine =>
    have hlength : (frame :: beforeCancel rest).length - 9 =
        ((beforeCancel rest).length - 9) + 1 := by
      rw [List.length_cons]
      omega
    rw [hlength, List.take_succ_cons, List.map_cons, List.sum_cons, committedBytes]
  · next hnine =>
    have hlength : (frame :: beforeCancel rest).length - 9 = 0 := by
      rw [List.length_cons]
      omega
    rw [hlength, List.take_zero]
    rfl

private theorem committedBytes_cancel (hkind : frame.kind = .cancel) :
    committedBytes (frame :: rest) = 0 := by
  simp [committedBytes, beforeCancel, hkind]

private theorem reaches_fits (rest : List Frame)
    (haccept : accept decodeSize terminal false frame = some accepted)
    (hcancels : accepted.cancels = false) (hended : accepted.ended = false)
    (hfits : held.length + frame.size ≤ capacity) :
    ∃ held', held'.length = held.length + frame.size ∧
      Reaches (step decodeSize terminal capacity) anyStep
        (between false [] .idle held (frame :: rest)) (between false [] .idle held' rest) := by
  have ⟨hsize, _, _, _, heof⟩ := accept_spec haccept
  have hread : Reaches (step decodeSize terminal capacity) anyStep
      (between false [] .idle held (frame :: rest))
      (between accepted.ended [accepted.message] .idle held rest) :=
    reaches_read haccept hcancels (by simp) (by decide)
  rw [hended] at hread
  cases hmessage : accepted.message with
  | eof => exact absurd hmessage (heof hended)
  | resize size =>
    rw [hmessage] at hsize hread
    have hreceive : step decodeSize terminal capacity
        (between false [.resize size] .idle held rest) .receive =
          some (between false [] .idle held rest) := rfl
    exists held
    constructor
    · rw [← hsize]
      rfl
    · exact hread.trans (reaches_single hreceive)
  | bytes bytes =>
    rw [hmessage] at hsize hread
    have hsize : bytes.length = frame.size := hsize
    have hreceive : step decodeSize terminal capacity
        (between false [.bytes bytes] .idle held rest) .receive =
          some (between false [] (.writing bytes) held rest) := rfl
    have hwrite : Reaches (step decodeSize terminal capacity) anyStep
        (between false [] (.writing bytes) held rest)
        (between false [] (.writing (bytes.drop bytes.length)) (held ++ bytes.take bytes.length)
          rest) :=
      reaches_write bytes.length (Nat.le_refl _) (by omega)
    rw [List.drop_length, List.take_length] at hwrite
    have hfinish : step decodeSize terminal capacity
        (between false [] (.writing []) (held ++ bytes) rest) .finishWrite =
          some (between false [] .idle (held ++ bytes) rest) := rfl
    exists held ++ bytes
    constructor
    · rw [List.length_append, hsize]
    · exact ((hread.trans (reaches_single hreceive)).trans hwrite).trans (reaches_single hfinish)

private theorem reaches_full (rest : List Frame)
    (haccept : accept decodeSize terminal false frame = some accepted)
    (hcancels : accepted.cancels = false) (hroom : held.length ≤ capacity)
    (hover : capacity < held.length + frame.size) :
    ∃ held' bytes, held'.length = capacity ∧ bytes ≠ [] ∧
      Reaches (step decodeSize terminal capacity) anyStep
        (between false [] .idle held (frame :: rest))
        (between accepted.ended [] (.writing bytes) held' rest) := by
  have ⟨hsize, _⟩ := accept_spec haccept
  have hread : Reaches (step decodeSize terminal capacity) anyStep
      (between false [] .idle held (frame :: rest))
      (between accepted.ended [accepted.message] .idle held rest) :=
    reaches_read haccept hcancels (by simp) (by decide)
  cases hmessage : accepted.message with
  | eof | resize =>
    rw [hmessage] at hsize
    simp only [Input.size] at hsize
    omega
  | bytes bytes =>
    rw [hmessage] at hsize hread
    have hsize : bytes.length = frame.size := hsize
    have hreceive : step decodeSize terminal capacity
        (between accepted.ended [.bytes bytes] .idle held rest) .receive =
          some (between accepted.ended [] (.writing bytes) held rest) := rfl
    have hwrite : Reaches (step decodeSize terminal capacity) anyStep
        (between accepted.ended [] (.writing bytes) held rest)
        (between accepted.ended [] (.writing (bytes.drop (capacity - held.length)))
          (held ++ bytes.take (capacity - held.length)) rest) :=
      reaches_write (capacity - held.length) (by omega) (by omega)
    exists held ++ bytes.take (capacity - held.length), bytes.drop (capacity - held.length)
    constructor
    · rw [List.length_append, List.length_take]
      omega
    · constructor
      · intro hnil
        have hlength := congrArg List.length hnil
        rw [List.length_drop, List.length_nil] at hlength
        omega
      · exact (hread.trans (reaches_single hreceive)).trans hwrite

private theorem exists_stuck_of_idle (hroom : held.length ≤ capacity)
    (haccepted : acceptsAll decodeSize terminal false stream = true)
    (hcancel : ∃ frame ∈ stream, frame.kind = .cancel)
    (hover : capacity < held.length + committedBytes stream) :
    ∃ s, Reaches (step decodeSize terminal capacity) anyStep
      (between false [] .idle held stream) s ∧ Stuck decodeSize terminal capacity s := by
  induction stream generalizing held with
  | nil =>
    have ⟨_, hmem, _⟩ := hcancel
    cases hmem
  | cons frame rest ih =>
    have ⟨accepted, haccept, hrest⟩ := acceptsAll_cons haccepted
    have hkind : frame.kind ≠ .cancel := by
      intro hkind
      rw [committedBytes_cancel hkind] at hover
      omega
    have huncancelled := cancels_eq_false haccept hkind
    have hcancel' := exists_cancel_of_cons hcancel hkind
    rw [committedBytes_cons hkind] at hover
    split at hover
    · next hnine =>
      by_cases hfits : held.length + frame.size ≤ capacity
      · have hended : accepted.ended = false := by
          rw [← Bool.not_eq_true]
          intro hended
          rw [hended] at hrest
          rw [committedBytes_eq_zero_of_ended hrest] at hover
          omega
        rw [hended] at hrest
        have ⟨held', hlength, hreach⟩ :=
          reaches_fits rest haccept huncancelled hended hfits
        have hroom' : held'.length ≤ capacity := by omega
        have ⟨s, hs, hstuck⟩ := ih hroom' hrest hcancel' (by omega)
        exact ⟨s, hreach.trans hs, hstuck⟩
      · have ⟨held', bytes, hfull, hbytes, hreach⟩ :=
          reaches_full rest haccept huncancelled hroom (by omega)
        have hmany : channelBound < ([] : List Input).length + (beforeCancel rest).length := by
          simp only [channelBound, List.length_nil]
          omega
        have ⟨s, hs, hstuck⟩ := exists_stuck_of_full hbytes hfull (Nat.zero_le _) hrest hcancel'
          hmany
        exact ⟨s, hreach.trans hs, hstuck⟩
    · omega

/-- If the frames before the last nine do not fit, some run blocks. -/
theorem exists_stuck (haccepted : acceptsAll decodeSize terminal false frames = true)
    (hcancel : ∃ frame ∈ frames, frame.kind = .cancel)
    (hover : capacity < committedBytes frames) :
    ∃ s, Reaches (step decodeSize terminal capacity) anyStep (serve frames) s ∧
      Stuck decodeSize terminal capacity s := by
  have hdeliver : Reaches (step decodeSize terminal capacity) anyStep (serve frames)
      (between false [] .idle [] frames) := reaches_deliver frames []
  have hover' : capacity < ([] : List UInt8).length + committedBytes frames := by
    rwa [List.length_nil, Nat.zero_add]
  have ⟨s, hs, hstuck⟩ := exists_stuck_of_idle (Nat.zero_le capacity) haccepted hcancel hover'
  exact ⟨s, hdeliver.trans hs, hstuck⟩

end Run

/-! ### When cancellation is reached -/

/-- Cancellation cannot be blocked exactly if the input in front of it, but for its last nine
frames, fits into the child's input buffer. -/
theorem cancel_reached_iff (decodeSize : List UInt8 → Option RemoteTerminalSize)
    (terminal : Bool) (capacity : Nat) (frames : List Frame)
    (haccepted : acceptsAll decodeSize terminal false frames = true)
    (hlast : frames.getLast?.map Frame.kind = some .cancel) :
    (∀ s, Reaches (step decodeSize terminal capacity) anyStep (serve frames) s →
        ¬ Stuck decodeSize terminal capacity s) ↔
      committedBytes frames ≤ capacity := by
  constructor
  · intro hfree
    by_contra hover
    have ⟨frame, hframe, hkind⟩ := Option.map_eq_some_iff.mp hlast
    have hcancel : ∃ frame ∈ frames, frame.kind = .cancel :=
      ⟨frame, List.mem_of_getLast? hframe, hkind⟩
    have ⟨s, hs, hstuck⟩ := exists_stuck haccepted hcancel (Nat.lt_of_not_le hover)
    exact hfree s hs hstuck
  · intro hfits s hs
    exact not_stuck_of_fits haccepted hfits hs

/-- Twelve full frames of input and `CANCEL`. -/
private def flood : List Frame :=
  List.replicate 12 ⟨.input, List.replicate chunk 0⟩ ++ [⟨.cancel, []⟩]

private theorem acceptsAll_flood : acceptsAll (fun _ ↦ none) false false flood = true := by
  simp [flood, List.replicate, acceptsAll, accept]

private theorem committedBytes_flood : committedBytes flood = 3 * chunk := by
  simp [flood, committedBytes, beforeCancel, List.replicate, Frame.size]
  omega

/-- With a buffer of 96 KiB, the twelve frames do not block cancellation. -/
theorem cancel_reached_flood : committedBytes flood = 3 * chunk ∧
    ∀ s, Reaches (step (fun _ ↦ none) false (3 * chunk)) anyStep (serve flood) s →
      ¬ Stuck (fun _ ↦ none) false (3 * chunk) s :=
  ⟨committedBytes_flood,
    (cancel_reached_iff (fun _ ↦ none) false (3 * chunk) flood acceptsAll_flood rfl).mpr
      (Nat.le_of_eq committedBytes_flood)⟩

/-- With a buffer of 64 KiB they do. -/
theorem not_cancel_reached :
    ¬ ∀ (decodeSize : List UInt8 → Option RemoteTerminalSize) (terminal : Bool) (capacity : Nat)
        (frames : List Frame), acceptsAll decodeSize terminal false frames = true →
      frames.getLast?.map Frame.kind = some .cancel →
      ∀ s, Reaches (step decodeSize terminal capacity) anyStep (serve frames) s →
        ¬ Stuck decodeSize terminal capacity s := by
  intro hclaim
  have hover : 2 * chunk < committedBytes flood := by
    rw [committedBytes_flood]
    decide
  have hcancel : ∃ frame ∈ flood, frame.kind = .cancel := by
    simp [flood]
  have ⟨s, hs, hstuck⟩ := exists_stuck acceptsAll_flood hcancel hover
  exact hclaim _ false (2 * chunk) flood acceptsAll_flood rfl s hs hstuck

end Bootty.Host.RemoteProcess
