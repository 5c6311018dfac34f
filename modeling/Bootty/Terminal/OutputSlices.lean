import Bootty.Terminal.OutputQueue

/-!
# The slices of the output queue

`crates/bootty-terminal/src/pty_backlog.rs:70–137` and `terminal_output.rs:84–129` with the
slices a drain applies and the statistics it returns. Nothing is assumed of the clock: each of
its checks, in each round of the queue and at each count of slices, may find the time used up.
-/

namespace Bootty.Terminal

/-- `pty_backlog.rs:139–144`, without the time. -/
structure DrainStats where
  chunks : Nat := 0
  bytes : Nat := 0
  deriving DecidableEq, Repr

/-- What a drain leaves, what it returns and the slices it has applied. -/
structure Applied (α : Type) where
  queue : α
  stats : DrainStats
  slices : List (List UInt8)

/-- Whether the time is used up at the check of the queue and at those of the backlog, by round
and by the slices applied so far. -/
structure Clock where
  queueLate : Nat → Nat → Bool
  backlogLate : Nat → Nat → Bool

namespace OutputBacklog

/-- `pty_backlog.rs:70–92`: the rest, and the slice that was handed on. -/
def takeFront (b : OutputBacklog) (len : Nat) : OutputBacklog × Option (List UInt8) :=
  match b.chunks with
  | [] => (b, none)
  | front :: rest =>
    if b.frontOffset ≤ front.length then
      let slice := (front.drop b.frontOffset).take len
      let offset := b.frontOffset + slice.length
      if front.length ≤ offset then (⟨rest, b.bytes - slice.length, 0⟩, some slice)
      else (⟨front :: rest, b.bytes - slice.length, offset⟩, some slice)
    else (b, none)

/-- `drain_output_backlog_with_limits`, `pty_backlog.rs:105–137`. -/
def drainSlices (late : Nat → Bool) (maxBytes maxChunks : Nat) (b : OutputBacklog)
    (stats : DrainStats) (slices : List (List UInt8)) : Applied OutputBacklog :=
  if b.isEmpty || decide (maxBytes ≤ stats.bytes ∨ maxChunks ≤ stats.chunks) ||
      late stats.chunks then ⟨b, stats, slices⟩
  else
    match b.frontLen with
    | none => ⟨empty, stats, slices⟩
    | some available =>
      let len := min (min (maxBytes - stats.bytes) maxDrainSliceBytes) available
      if len = 0 then ⟨b, stats, slices⟩
      else
        match b.takeFront len with
        | (next, none) => ⟨next, stats, slices⟩
        | (next, some []) => ⟨next, stats, slices ++ [[]]⟩
        | (next, some (byte :: bytes)) =>
          drainSlices late maxBytes maxChunks next
            ⟨stats.chunks + 1, stats.bytes + (bytes.length + 1)⟩ (slices ++ [byte :: bytes])
termination_by maxChunks - stats.chunks
decreasing_by
  simp_all
  omega

/-- Slices are counted as they are applied. -/
theorem stats_drainSlices (late : Nat → Bool) (maxBytes maxChunks : Nat) (b : OutputBacklog)
    (stats : DrainStats) (slices : List (List UInt8)) :
    (b.drainSlices late maxBytes maxChunks stats slices).stats = stats ∨
      stats.chunks < (b.drainSlices late maxBytes maxChunks stats slices).stats.chunks := by
  fun_induction drainSlices late maxBytes maxChunks b stats slices with
  | case6 b stats slices _ _ _ _ _ next byte bytes _ ih =>
    right
    rcases ih with hsame | hless
    · rw [hsame]
      exact Nat.lt_succ_self stats.chunks
    · exact Nat.lt_trans (Nat.lt_succ_self stats.chunks) hless
  | _ => exact .inl rfl

end OutputBacklog

namespace OutputQueue

/-- The pops of `terminal_output.rs:104–111`. -/
def popAll (data : OutputBacklog) (queuedBytes : Nat) : List (List UInt8) → OutputQueue
  | [] => ⟨data, [], queuedBytes⟩
  | event :: events => popAll (data.pushBack event) (queuedBytes - event.length) events

/-- `terminal_output.rs:89–129`. -/
def drainSlices (clock : Clock) (maxBytes maxChunks : Nat) (round : Nat) (q : OutputQueue)
    (stats : DrainStats) (slices : List (List UInt8)) : Applied OutputQueue :=
  if q.isEmpty || decide (maxBytes ≤ stats.bytes) || decide (maxChunks ≤ stats.chunks) ||
      clock.queueLate round stats.chunks then ⟨q, stats, slices⟩
  else
    let q := if q.data.isEmpty then popAll q.data q.queuedBytes q.events else q
    let drained := q.data.drainSlices (fun n ↦ clock.backlogLate round (stats.chunks + n))
      (maxBytes - stats.bytes) (maxChunks - stats.chunks) {} []
    let next := { q with data := drained.queue }
    let total : DrainStats :=
      ⟨stats.chunks + drained.stats.chunks, stats.bytes + drained.stats.bytes⟩
    if drained.stats.bytes = 0 then ⟨next, total, slices ++ drained.slices⟩
    else drainSlices clock maxBytes maxChunks (round + 1) next total (slices ++ drained.slices)
termination_by maxChunks - stats.chunks
decreasing_by
  next hgo hbytes =>
  have hmore : stats.chunks < maxChunks := by
    simp only [Bool.or_eq_true, decide_eq_true_eq, not_or] at hgo
    omega
  have hpositive : 0 < drained.stats.chunks := by
    rcases OutputBacklog.stats_drainSlices (fun n ↦ clock.backlogLate round (stats.chunks + n))
      (maxBytes - stats.bytes) (maxChunks - stats.chunks) q.data {} [] with hsame | hless
    · exact absurd (congrArg DrainStats.bytes hsame) hbytes
    · exact hless
  show maxChunks - (stats.chunks + drained.stats.chunks) < maxChunks - stats.chunks
  omega

/-- `terminal_output.rs:89–129`, from the start of a drain. -/
def drainQueue (clock : Clock) (maxBytes maxChunks : Nat) (q : OutputQueue) :
    Applied OutputQueue :=
  q.drainSlices clock maxBytes maxChunks 0 {} []

end OutputQueue

/-! ### Conservation -/

/-- The bytes a backlog holds, from its front offset on. -/
def OutputBacklog.pending (b : OutputBacklog) : List UInt8 := b.chunks.flatten.drop b.frontOffset

/-- The bytes a queue holds: the backlog, then the events. -/
def OutputQueue.pending (q : OutputQueue) : List UInt8 := q.data.pending ++ q.events.flatten

/-- The slices keep within the limits, and the statistics count them. -/
structure Within (maxBytes maxChunks : Nat) (stats : DrainStats) (slices : List (List UInt8)) :
    Prop where
  bytes : stats.bytes = slices.flatten.length
  chunks : stats.chunks = slices.length
  bytes_le : stats.bytes ≤ maxBytes
  chunks_le : stats.chunks ≤ maxChunks
  slice : ∀ slice ∈ slices, slice ≠ [] ∧ slice.length ≤ maxDrainSliceBytes

private theorem Within.nil (maxBytes maxChunks : Nat) : Within maxBytes maxChunks {} [] :=
  ⟨rfl, rfl, Nat.zero_le _, Nat.zero_le _, by simp⟩

variable {maxBytes maxChunks : Nat} {stats : DrainStats}

/-- Slices within what is left of the limits may follow. -/
theorem Within.append {more : DrainStats} {slices next : List (List UInt8)}
    (h : Within maxBytes maxChunks stats slices)
    (hmore : Within (maxBytes - stats.bytes) (maxChunks - stats.chunks) more next) :
    Within maxBytes maxChunks ⟨stats.chunks + more.chunks, stats.bytes + more.bytes⟩
      (slices ++ next) where
  bytes := by rw [List.flatten_append, List.length_append, ← h.bytes, ← hmore.bytes]
  chunks := by rw [List.length_append, ← h.chunks, ← hmore.chunks]
  bytes_le := by
    have := h.bytes_le
    have := hmore.bytes_le
    show stats.bytes + more.bytes ≤ maxBytes
    omega
  chunks_le := by
    have := h.chunks_le
    have := hmore.chunks_le
    show stats.chunks + more.chunks ≤ maxChunks
    omega
  slice := List.forall_mem_append.mpr ⟨h.slice, hmore.slice⟩

variable {b : OutputBacklog} {late : Nat → Bool}

namespace OutputBacklog

/-- The count of bytes is the number of bytes held. -/
theorem Ok.length_pending (h : b.Ok) : b.pending.length = b.bytes := by
  have hcount := h.count
  rw [pending, List.length_drop]
  omega

/-- Pushed bytes are held behind the others, in a new chunk or in the last one. -/
theorem Ok.pending_pushBack (h : b.Ok) (bytes : List UInt8) :
    (b.pushBack bytes).pending = b.pending ++ bytes := by
  have hinside : b.frontOffset ≤ b.chunks.flatten.length := by
    have hcount := h.count
    omega
  have hchunks : (b.pushBack bytes).chunks.flatten = b.chunks.flatten ++ bytes ∧
      (b.pushBack bytes).frontOffset = b.frontOffset := by
    unfold OutputBacklog.pushBack
    split
    · next hempty =>
      rw [List.isEmpty_iff.mp hempty, List.append_nil]
      exact ⟨rfl, rfl⟩
    · dsimp only
      split
      · next tail htail =>
        obtain ⟨init, hinit⟩ := List.getLast?_eq_some_iff.mp htail
        split
        · simp [hinit]
        · simp
      · next hnone =>
        have hnil : b.chunks = [] := List.getLast?_eq_none_iff.mp hnone
        simp [hnil]
  rw [pending, hchunks.1, hchunks.2, List.drop_append_of_le_length hinside, pending]

/-- A slice is taken off the front of what is held; it is empty only if nothing is held. -/
theorem Ok.takeFront (h : b.Ok) {len : Nat} (hlen : 0 < len) (hne : b.isEmpty = false) :
    ∃ slice, b.takeFront len = ((b.consumeFront len).1, some slice) ∧
      slice ≠ [] ∧ slice.length ≤ len ∧ (b.consumeFront len).2 = slice ∧
      b.pending = slice ++ (b.consumeFront len).1.pending := by
  have ⟨front, rest, hchunks⟩ := h.chunks_of_nonempty hne
  have hoffset : b.frontOffset < front.length := h.offset front (by rw [hchunks]; rfl)
  have hnonempty := (h.consumeFront hlen hne).2
  refine ⟨(b.consumeFront len).2, ?_, hnonempty, ?_, rfl, ?_⟩
  · unfold OutputBacklog.takeFront OutputBacklog.consumeFront
    simp only [hchunks, if_pos (Nat.le_of_lt hoffset)]
    split <;> rfl
  · unfold OutputBacklog.consumeFront
    simp only [hchunks]
    split
    · exact List.length_take_le _ _
    · exact List.length_take_le _ _
  · unfold OutputBacklog.consumeFront pending
    simp only [hchunks, List.flatten_cons]
    rw [List.drop_append_of_le_length (Nat.le_of_lt hoffset)]
    have hsplit := List.take_append_drop len (front.drop b.frontOffset)
    rw [List.drop_drop] at hsplit
    split
    · next hwhole =>
      -- The chunk is used up.
      have hall : (front.drop b.frontOffset).take len = front.drop b.frontOffset := by
        apply List.take_of_length_le
        rw [List.length_take, List.length_drop] at hwhole
        rw [List.length_drop]
        omega
      simp [hall]
    · next hpart =>
      have hlength : ((front.drop b.frontOffset).take len).length = len := by
        rw [List.length_take] at hpart ⊢
        rw [List.length_drop] at hpart ⊢
        omega
      rw [hlength] at hpart ⊢
      dsimp only [List.flatten_cons]
      rw [List.drop_append_of_le_length (by omega), ← List.append_assoc, hsplit]

/-- The loop of a drain stops here. -/
def Stops (late : Nat → Bool) (maxBytes maxChunks : Nat) (b : OutputBacklog) (stats : DrainStats) :
    Prop :=
  b.isEmpty = true ∨ maxBytes ≤ stats.bytes ∨ maxChunks ≤ stats.chunks ∨ late stats.chunks = true

private theorem drainSlices_of_stops (h : Stops late maxBytes maxChunks b stats)
    (slices : List (List UInt8)) :
    b.drainSlices late maxBytes maxChunks stats slices = ⟨b, stats, slices⟩ := by
  unfold Stops at h
  rw [OutputBacklog.drainSlices, if_pos]
  simp only [Bool.or_eq_true, decide_eq_true_eq]
  tauto

/-- One turn of the loop hands on one slice, within the limits. -/
theorem Ok.drainSlices_turn (h : b.Ok) (hgo : ¬Stops late maxBytes maxChunks b stats)
    (slices : List (List UInt8)) :
    ∃ available, b.frontLen = some available ∧
      let len := min (min (maxBytes - stats.bytes) maxDrainSliceBytes) available
      let slice := (b.consumeFront len).2
      0 < len ∧ slice ≠ [] ∧ slice.length ≤ len ∧
        b.pending = slice ++ (b.consumeFront len).1.pending ∧
        b.drainSlices late maxBytes maxChunks stats slices =
          (b.consumeFront len).1.drainSlices late maxBytes maxChunks
            ⟨stats.chunks + 1, stats.bytes + slice.length⟩ (slices ++ [slice]) := by
  simp only [Stops, not_or, Bool.not_eq_true] at hgo
  obtain ⟨hne, hbytes, hchunks, hlate⟩ := hgo
  obtain ⟨front, rest, hfirst⟩ := h.chunks_of_nonempty hne
  have hoffset : b.frontOffset < front.length := h.offset front (by rw [hfirst]; rfl)
  have hfront : b.frontLen = some (front.length - b.frontOffset) := by
    rw [frontLen, hfirst]
    rfl
  have hpositive : 0 < min (min (maxBytes - stats.bytes) maxDrainSliceBytes)
      (front.length - b.frontOffset) := by
    have hslice : 0 < maxDrainSliceBytes := by decide
    omega
  obtain ⟨slice, htake, hnonempty, hle, hconsumed, hpending⟩ := h.takeFront hpositive hne
  refine ⟨_, hfront, hpositive, hconsumed ▸ hnonempty, hconsumed ▸ hle, hconsumed ▸ hpending, ?_⟩
  rw [OutputBacklog.drainSlices, if_neg (by simp [hne, hlate]; omega), hfront]
  dsimp only
  rw [if_neg (Nat.pos_iff_ne_zero.mp hpositive), htake, hconsumed]
  cases slice with
  | nil => exact absurd rfl hnonempty
  | cons byte bytes => rfl

/-- A drain hands on the front of what is held, in slices within the limits. -/
theorem Ok.drainSlices {late : Nat → Bool} {maxBytes maxChunks : Nat} {b : OutputBacklog}
    {stats : DrainStats} {slices : List (List UInt8)} (h : b.Ok)
    (hwithin : Within maxBytes maxChunks stats slices) :
    let drained := b.drainSlices late maxBytes maxChunks stats slices
    drained.queue.Ok ∧ Within maxBytes maxChunks drained.stats drained.slices ∧
      drained.slices.flatten ++ drained.queue.pending = slices.flatten ++ b.pending := by
  -- By induction on the chunks that are left.
  induction hleft : maxChunks - stats.chunks generalizing b stats slices with
  | zero =>
    rw [drainSlices_of_stops (.inr (.inr (.inl (by omega))))]
    exact ⟨h, hwithin, rfl⟩
  | succ left ih =>
    by_cases hstops : Stops late maxBytes maxChunks b stats
    · rw [drainSlices_of_stops hstops]
      exact ⟨h, hwithin, rfl⟩
    · have ⟨available, _, hpositive, hnonempty, hle, hpending, hturn⟩ :=
        h.drainSlices_turn hstops slices
      have hne : b.isEmpty = false := Bool.eq_false_iff.mpr fun hempty ↦ hstops (.inl hempty)
      generalize hconsumed : b.consumeFront _ = consumed at *
      have hok : consumed.1.Ok := hconsumed ▸ (h.consumeFront hpositive hne).1
      have hone : Within (maxBytes - stats.bytes) (maxChunks - stats.chunks)
          ⟨1, consumed.2.length⟩ [consumed.2] := by
        refine ⟨by simp, rfl, ?_, ?_, ?_⟩
        · show consumed.2.length ≤ maxBytes - stats.bytes
          omega
        · show 1 ≤ maxChunks - stats.chunks
          omega
        · intro slice hmem
          rw [List.mem_singleton.mp hmem]
          exact ⟨hnonempty, by omega⟩
      rw [hturn]
      have ⟨hlast, hall, hsplit⟩ := @ih consumed.1 ⟨_, _⟩ _ hok (hwithin.append hone)
        (show maxChunks - (stats.chunks + 1) = left by omega)
      refine ⟨hlast, hall, ?_⟩
      rw [hsplit, hpending, List.flatten_append, List.append_assoc]
      simp

end OutputBacklog

namespace OutputQueue

variable {q : OutputQueue}

/-- The bytes held are counted. -/
theorem Ok.length_pending (h : q.Ok) : q.pending.length = q.len := by
  rw [pending, List.length_append, h.data.length_pending, len, h.count]

/-- A queue is empty if it holds nothing. -/
theorem Ok.isEmpty_iff (h : q.Ok) : q.isEmpty = true ↔ q.len = 0 := by
  refine ⟨h.len_of_isEmpty, ?_⟩
  intro hlen
  have hcount := h.count
  rw [len] at hlen
  have hflatten : q.events.flatten = [] := List.length_eq_zero_iff.mp (by omega)
  have hevents : q.events = [] := by
    apply List.eq_nil_iff_forall_not_mem.mpr
    intro event hmem
    exact h.events event hmem (List.flatten_eq_nil_iff.mp hflatten event hmem)
  have hbytes : q.data.bytes = 0 := by omega
  simp [isEmpty, OutputBacklog.isEmpty, hevents, hbytes]

private theorem popAll_eq (data : OutputBacklog) (queuedBytes : Nat) (events : List (List UInt8)) :
    popAll data queuedBytes events =
      ⟨events.foldl OutputBacklog.pushBack data, [], queuedBytes - events.flatten.length⟩ := by
  induction events generalizing data queuedBytes with
  | nil => rfl
  | cons event events ih =>
    rw [popAll, ih, List.foldl_cons, List.flatten_cons, List.length_append, Nat.sub_sub]

/-- Popping every event refills the backlog. -/
theorem Ok.popAll_eq_refill (h : q.Ok) :
    (if q.data.isEmpty then popAll q.data q.queuedBytes q.events else q) = q.refill := by
  unfold OutputQueue.refill
  rw [popAll_eq, h.count, Nat.sub_self]

private theorem pending_foldl (h : b.Ok) {events : List (List UInt8)}
    (hevents : ∀ event ∈ events, event ≠ []) :
    (events.foldl OutputBacklog.pushBack b).pending = b.pending ++ events.flatten := by
  induction events generalizing b with
  | nil => simp
  | cons event events ih =>
    have ⟨hevent, hrest⟩ := List.forall_mem_cons.mp hevents
    rw [List.foldl_cons, ih (h.pushBack hevent).1 hrest, h.pending_pushBack, List.flatten_cons,
      List.append_assoc]

/-- A refill moves events to the backlog in order. -/
theorem Ok.pending_refill (h : q.Ok) : q.refill.pending = q.pending := by
  unfold OutputQueue.refill
  split
  · rw [pending, pending_foldl h.data h.events, pending]
    simp
  · rfl

private theorem pending_pushBack (q : OutputQueue) (event : List UInt8) :
    (q.pushBack event).pending = q.pending ++ event := by
  simp [pending, pushBack]

private theorem Ok.drainRound {q' : OutputQueue} (h : q.Ok) (hq : q' = q.refill) (late : Nat → Bool)
    {slices : List (List UInt8)} (hwithin : Within maxBytes maxChunks stats slices) :
    let drained := q'.data.drainSlices late (maxBytes - stats.bytes) (maxChunks - stats.chunks) {} []
    Ok { q' with data := drained.queue } ∧
      Within maxBytes maxChunks
        ⟨stats.chunks + drained.stats.chunks, stats.bytes + drained.stats.bytes⟩
        (slices ++ drained.slices) ∧
      (slices ++ drained.slices).flatten ++ pending { q' with data := drained.queue } =
        slices.flatten ++ q.pending := by
  subst hq
  have ⟨hok, hmore, hsplit⟩ := @OutputBacklog.Ok.drainSlices late _ _ _ _ _ h.refill.1.data
    (Within.nil (maxBytes - stats.bytes) (maxChunks - stats.chunks))
  refine ⟨⟨hok, h.refill.1.events, h.refill.1.count⟩, hwithin.append hmore, ?_⟩
  rw [← h.pending_refill, pending, pending, List.flatten_append, List.append_assoc,
    ← List.append_assoc _ _ (List.flatten q.refill.events), hsplit]
  simp

/-- A drain hands on the front of what is held, in slices within the limits. -/
theorem Ok.drainSlices {clock : Clock} {maxBytes maxChunks round : Nat} {q : OutputQueue}
    {stats : DrainStats} {slices : List (List UInt8)} (h : q.Ok)
    (hwithin : Within maxBytes maxChunks stats slices) :
    let drained := q.drainSlices clock maxBytes maxChunks round stats slices
    drained.queue.Ok ∧ Within maxBytes maxChunks drained.stats drained.slices ∧
      drained.slices.flatten ++ drained.queue.pending = slices.flatten ++ q.pending := by
  fun_induction OutputQueue.drainSlices clock maxBytes maxChunks round q stats slices with
  | case1 => exact ⟨h, hwithin, rfl⟩
  | case2 round q stats slices hgo q' drained next total hbytes =>
    exact h.drainRound h.popAll_eq_refill _ hwithin
  | case3 round q stats slices hgo q' drained next total hbytes ih =>
    have ⟨hok, hmore, hsplit⟩ := h.drainRound h.popAll_eq_refill
      (fun n ↦ clock.backlogLate round (stats.chunks + n)) hwithin
    have ⟨hlast, hall, hrest⟩ := ih hok hmore
    exact ⟨hlast, hall, hrest.trans hsplit⟩

end OutputQueue

/-! ### The drain of the worker -/

/-- The clock of a drain that is asked once at each count. -/
def Clock.ofLate (late : Nat → Bool) : Clock :=
  ⟨fun _ n ↦ late (2 * n), fun _ n ↦ late (2 * n + 1)⟩

/-- A drain that was at `stats` and `slices` does the same as one that does not tell the
slices. -/
structure Applied.Refines {α : Type} (applied : Applied α) (stats : DrainStats)
    (slices : List (List UInt8)) (drained : Drained α) : Prop where
  queue : applied.queue = drained.queue
  stats : applied.stats = ⟨stats.chunks + drained.chunks, stats.bytes + drained.bytes⟩
  written : applied.slices.flatten = slices.flatten ++ drained.written

private theorem Applied.refines_stop {α : Type} (queue : α) (stats : DrainStats)
    (slices : List (List UInt8)) :
    Applied.Refines ⟨queue, stats, slices⟩ stats slices ⟨queue, 0, 0, []⟩ :=
  ⟨rfl, rfl, (List.append_nil _).symm⟩

namespace OutputBacklog

private theorem drain_of_stops {before : Nat}
    (h : Stops (fun n ↦ late (2 * (before + n) + 1)) maxBytes maxChunks b stats) :
    OutputBacklog.drain late (maxChunks - stats.chunks) (maxBytes - stats.bytes) b
      (before + stats.chunks) = ⟨b, 0, 0, []⟩ := by
  cases hleft : maxChunks - stats.chunks with
  | zero => rfl
  | succ left =>
    unfold OutputBacklog.drain
    apply if_pos
    simp only [Bool.or_eq_true, beq_iff_eq]
    rcases h with hempty | hbytes | hchunks | hlate
    · exact .inl (.inl hempty)
    · exact .inl (.inr (by omega))
    · omega
    · exact .inr hlate

private theorem Ok.drainSlices_refines {late : Nat → Bool} {before maxBytes maxChunks : Nat}
    {b : OutputBacklog} {stats : DrainStats} {slices : List (List UInt8)} (h : b.Ok) :
    (b.drainSlices (fun n ↦ late (2 * (before + n) + 1)) maxBytes maxChunks stats slices).Refines
      stats slices
      (OutputBacklog.drain late (maxChunks - stats.chunks) (maxBytes - stats.bytes) b
        (before + stats.chunks)) := by
  induction hleft : maxChunks - stats.chunks generalizing b stats slices with
  | zero =>
    have hstops : Stops (fun n ↦ late (2 * (before + n) + 1)) maxBytes maxChunks b stats :=
      .inr (.inr (.inl (by omega)))
    rw [drainSlices_of_stops hstops, ← hleft, drain_of_stops hstops]
    exact Applied.refines_stop b stats slices
  | succ left ih =>
    by_cases hstops : Stops (fun n ↦ late (2 * (before + n) + 1)) maxBytes maxChunks b stats
    · rw [drainSlices_of_stops hstops, ← hleft, drain_of_stops hstops]
      exact Applied.refines_stop b stats slices
    · obtain ⟨available, hfront, hpositive, hnonempty, _, _, hturn⟩ :=
        h.drainSlices_turn hstops slices
      simp only [Stops, not_or, Bool.not_eq_true] at hstops
      obtain ⟨hne, hbytes, _, hlate⟩ := hstops
      have hok := (h.consumeFront hpositive hne).1
      rw [hturn]
      unfold OutputBacklog.drain
      rw [if_neg (by simp [hne, hlate]; omega), hfront]
      dsimp only
      rw [if_neg (Nat.pos_iff_ne_zero.mp hpositive)]
      generalize b.consumeFront _ = consumed at *
      obtain ⟨next, slice⟩ := consumed
      obtain ⟨hqueue, hstats, hwritten⟩ := @ih next ⟨stats.chunks + 1, stats.bytes + slice.length⟩
        (slices ++ [slice]) hok (show maxChunks - (stats.chunks + 1) = left by omega)
      cases slice with
      | nil => exact absurd rfl hnonempty
      | cons byte bytes =>
        rw [← Nat.sub_sub] at hqueue hstats hwritten
        refine ⟨hqueue, ?_, ?_⟩
        · rw [hstats]
          simp only [DrainStats.mk.injEq]
          exact ⟨by rw [Nat.add_assoc, Nat.add_comm 1]; rfl, Nat.add_assoc _ _ _⟩
        · rw [hwritten, List.flatten_append, List.append_assoc]
          simp
          rfl

end OutputBacklog

namespace OutputQueue

/-- The drain that the worker runs, with one round for each chunk, is this one. -/
theorem Ok.drainSlices_refines {late : Nat → Bool} {maxBytes maxChunks rounds round : Nat}
    {q : OutputQueue} {stats : DrainStats} {slices : List (List UInt8)} (h : q.Ok)
    (hrounds : maxChunks - stats.chunks ≤ rounds) :
    (q.drainSlices (.ofLate late) maxBytes maxChunks round stats slices).Refines stats slices
      (OutputQueue.drain late maxChunks rounds (maxBytes - stats.bytes) q stats.chunks) := by
  induction rounds generalizing q stats slices round with
  | zero =>
    rw [OutputQueue.drainSlices, if_pos (by simp; omega)]
    exact Applied.refines_stop q stats slices
  | succ rounds ih =>
    unfold OutputQueue.drain
    rw [OutputQueue.drainSlices]
    have hsame : (q.isEmpty || maxBytes - stats.bytes == 0 ||
        decide (maxChunks ≤ stats.chunks) || late (2 * stats.chunks)) =
        (q.isEmpty || decide (maxBytes ≤ stats.bytes) || decide (maxChunks ≤ stats.chunks) ||
          (Clock.ofLate late).queueLate round stats.chunks) := by
      rw [show (maxBytes - stats.bytes == 0) = decide (maxBytes ≤ stats.bytes) by
        rw [Bool.eq_iff_iff, beq_iff_eq, decide_eq_true_eq, Nat.sub_eq_zero_iff_le]]
      rfl
    rw [hsame]
    split
    · exact Applied.refines_stop q stats slices
    · next hgo =>
      simp only [Bool.or_eq_true, decide_eq_true_eq, not_or] at hgo
      dsimp only
      rw [h.popAll_eq_refill]
      obtain ⟨hqueue, hstats, hwritten⟩ := @OutputBacklog.Ok.drainSlices_refines late stats.chunks
        (maxBytes - stats.bytes) (maxChunks - stats.chunks) _ {} [] h.refill.1.data
      have hok := @OutputBacklog.Ok.drain late (maxChunks - stats.chunks)
        (maxBytes - stats.bytes) stats.chunks _ h.refill.1.data
      have hprogress := OutputBacklog.stats_drainSlices
        (fun n ↦ late (2 * (stats.chunks + n) + 1)) (maxBytes - stats.bytes)
        (maxChunks - stats.chunks) q.refill.data {} []
      simp only [Nat.sub_zero, Nat.add_zero, Nat.zero_add, List.flatten_nil, List.nil_append]
        at hqueue hstats hwritten
      simp only [Clock.ofLate]
      rw [hstats] at hprogress
      simp only [hqueue, hstats]
      generalize q.refill.data.drainSlices _ _ _ _ _ = applied at *
      generalize OutputBacklog.drain late _ _ q.refill.data _ = first at *
      have hnext : Ok { q.refill with data := first.queue } :=
        ⟨hok, h.refill.1.events, h.refill.1.count⟩
      split
      · next hzero =>
        refine ⟨rfl, by rw [hzero], ?_⟩
        rw [List.flatten_append, hwritten]
      · next hbytes =>
        have hpositive : 0 < first.chunks := by
          rcases hprogress with hnone | hless
          · exact absurd (congrArg DrainStats.bytes hnone) hbytes
          · exact hless
        have hfuel : maxChunks - (stats.chunks + first.chunks) ≤ rounds := by omega
        obtain ⟨hlast, htotal, hall⟩ := @ih (round + 1) { q.refill with data := first.queue }
          ⟨stats.chunks + first.chunks, stats.bytes + first.bytes⟩ (slices ++ applied.slices)
          hnext hfuel
        rw [← Nat.sub_sub] at hlast htotal hall
        refine ⟨hlast, ?_, ?_⟩
        · refine htotal.trans ?_
          simp only [DrainStats.mk.injEq]
          exact ⟨Nat.add_assoc _ _ _, Nat.add_assoc _ _ _⟩
        · refine hall.trans ?_
          rw [List.flatten_append, hwritten, List.append_assoc]

end OutputQueue

/-! ### Runs -/

/-- What is done with a queue. -/
inductive QueueOp where
  | push (bytes : List UInt8) (h : bytes ≠ [])
  | drain (clock : Clock) (maxBytes maxChunks : Nat)

/-- A queue, the bytes pushed and the slices applied so far. -/
structure QueueRun where
  queue : OutputQueue
  pushed : List UInt8
  applied : List (List UInt8)

namespace QueueRun

/-- A run that has not begun. -/
def start : QueueRun := ⟨.empty, [], []⟩

/-- One operation. -/
def step (s : QueueRun) : QueueOp → QueueRun
  | .push bytes _ => { s with queue := s.queue.pushBack bytes, pushed := s.pushed ++ bytes }
  | .drain clock maxBytes maxChunks =>
    let drained := s.queue.drainQueue clock maxBytes maxChunks
    { s with queue := drained.queue, applied := s.applied ++ drained.slices }

/-- A run of some operations. -/
def run (ops : List QueueOp) : QueueRun := ops.foldl step start

/-- The queue is well formed, and no byte is lost, doubled or moved. -/
structure Conserves (s : QueueRun) : Prop where
  ok : s.queue.Ok
  bytes : s.applied.flatten ++ s.queue.pending = s.pushed

private theorem Conserves.step {s : QueueRun} (h : s.Conserves) (op : QueueOp) :
    (s.step op).Conserves := by
  cases op with
  | push bytes hbytes =>
    refine ⟨h.ok.pushBack hbytes, ?_⟩
    show s.applied.flatten ++ (s.queue.pushBack bytes).pending = s.pushed ++ bytes
    rw [OutputQueue.pending_pushBack, ← List.append_assoc, h.bytes]
  | drain clock maxBytes maxChunks =>
    have ⟨hok, _, hsplit⟩ := @OutputQueue.Ok.drainSlices clock _ _ 0 _ _ _ h.ok
      (Within.nil maxBytes maxChunks)
    refine ⟨hok, ?_⟩
    show (s.applied ++ (s.queue.drainQueue clock maxBytes maxChunks).slices).flatten ++
      (s.queue.drainQueue clock maxBytes maxChunks).queue.pending = s.pushed
    rw [List.flatten_append, List.append_assoc]
    exact (congrArg _ hsplit).trans h.bytes

private theorem conserves_run (ops : List QueueOp) : (run ops).Conserves := by
  have hfold : ∀ (s : QueueRun), s.Conserves → (ops.foldl QueueRun.step s).Conserves := by
    induction ops with
    | nil => exact fun s h ↦ h
    | cons op ops ih => exact fun s h ↦ ih (s.step op) (h.step op)
  exact hfold start ⟨OutputQueue.ok_empty, rfl⟩

/-- After any pushes and drains, the slices applied and the bytes still queued are what was
pushed, and the queue knows how many they are. A drain then applies slices within its limits, and
returns their count. -/
theorem run_conserves_bytes (ops : List QueueOp) :
    (run ops).applied.flatten ++ (run ops).queue.pending = (run ops).pushed ∧
      (run ops).queue.len = (run ops).queue.pending.length ∧
      ((run ops).queue.isEmpty = true ↔ (run ops).queue.len = 0) ∧
      ∀ clock maxBytes maxChunks,
        let drained := (run ops).queue.drainQueue clock maxBytes maxChunks
        drained.slices.flatten.length ≤ maxBytes ∧ drained.slices.length ≤ maxChunks ∧
          (∀ slice ∈ drained.slices, slice ≠ [] ∧ slice.length ≤ 64 * 1024) ∧
          drained.stats = ⟨drained.slices.length, drained.slices.flatten.length⟩ := by
  have h := conserves_run ops
  refine ⟨h.bytes, h.ok.length_pending.symm, h.ok.isEmpty_iff, ?_⟩
  intro clock maxBytes maxChunks drained
  have hwithin : Within maxBytes maxChunks drained.stats drained.slices :=
    (@OutputQueue.Ok.drainSlices clock _ _ 0 _ _ _ h.ok (Within.nil maxBytes maxChunks)).2.1
  refine ⟨hwithin.bytes ▸ hwithin.bytes_le, hwithin.chunks ▸ hwithin.chunks_le, hwithin.slice, ?_⟩
  rw [← hwithin.bytes, ← hwithin.chunks]

end QueueRun
end Bootty.Terminal
