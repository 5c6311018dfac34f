import Mathlib.Data.List.Basic
import Mathlib.Tactic.Common

/-!
# The output queue of a terminal

Model of `crates/bootty-terminal/src/pty_backlog.rs` and of `OutputQueue` in
`terminal_output.rs:50–130`. A drain looks at the clock before each of its steps; what it sees
is an oracle. At `n` chunks drained, `late (2 * n)` answers the check of `OutputQueue::drain`
and `late (2 * n + 1)` that of `drain_output_backlog_with_limits`.
-/

namespace Bootty.Terminal

/-- `MAX_DRAIN_SLICE_BYTES`. -/
def maxDrainSliceBytes : Nat := 64 * 1024

/-- Read chunks, of which the first has been consumed up to an offset. -/
structure OutputBacklog where
  chunks : List (List UInt8)
  bytes : Nat
  frontOffset : Nat

/-- What a drain left and what it wrote. -/
structure Drained (α : Type) where
  queue : α
  bytes : Nat
  chunks : Nat
  written : List UInt8

variable {b : OutputBacklog} {late : Nat → Bool} {maxBytes : Nat}

namespace OutputBacklog

/-- Nothing is held. -/
def empty : OutputBacklog := ⟨[], 0, 0⟩

/-- `pty_backlog.rs:32–46`. -/
def pushBack (b : OutputBacklog) (bytes : List UInt8) : OutputBacklog :=
  if bytes.isEmpty then b
  else
    let total := b.bytes + bytes.length
    match b.chunks.getLast? with
    | some tail =>
      if tail.length + bytes.length ≤ maxDrainSliceBytes then
        { b with chunks := b.chunks.dropLast ++ [tail ++ bytes], bytes := total }
      else { b with chunks := b.chunks ++ [bytes], bytes := total }
    | none => { b with chunks := [bytes], bytes := total }

/-- `is_empty`. -/
def isEmpty (b : OutputBacklog) : Bool := b.bytes == 0

/-- `pty_backlog.rs:64–68`. -/
def frontLen (b : OutputBacklog) : Option Nat :=
  b.chunks.head?.map fun front ↦ front.length - b.frontOffset

/-- `pty_backlog.rs:70–92`: the rest and the bytes consumed. -/
def consumeFront (b : OutputBacklog) (len : Nat) : OutputBacklog × List UInt8 :=
  match b.chunks with
  | [] => (b, [])
  | front :: rest =>
    let out := (front.drop b.frontOffset).take len
    let offset := b.frontOffset + out.length
    if front.length ≤ offset then (⟨rest, b.bytes - out.length, 0⟩, out)
    else (⟨front :: rest, b.bytes - out.length, offset⟩, out)

/-- `pty_backlog.rs:105–137`; `n` is what is left of the chunk limit. -/
def drain (late : Nat → Bool) : Nat → Nat → OutputBacklog → Nat → Drained OutputBacklog
  | 0, _, b, _ => ⟨b, 0, 0, []⟩
  | n + 1, maxBytes, b, drained =>
    if b.isEmpty || maxBytes == 0 || late (2 * drained + 1) then ⟨b, 0, 0, []⟩
    else
      match b.frontLen with
      | none => ⟨empty, 0, 0, []⟩
      | some available =>
        let consumed := min (min maxBytes maxDrainSliceBytes) available
        if consumed = 0 then ⟨b, 0, 0, []⟩
        else
          match b.consumeFront consumed with
          | (next, []) => ⟨next, 0, 0, []⟩
          | (next, out) =>
            let rest := drain late n (maxBytes - out.length) next (drained + 1)
            ⟨rest.queue, out.length + rest.bytes, rest.chunks + 1, out ++ rest.written⟩

/-- Chunks are not empty, the count of bytes is right and the offset is inside the first chunk. -/
structure Ok (b : OutputBacklog) : Prop where
  nonempty : ∀ chunk ∈ b.chunks, chunk ≠ []
  count : b.bytes + b.frontOffset = b.chunks.flatten.length
  offset : ∀ front ∈ b.chunks.head?, b.frontOffset < front.length

private theorem ok_empty : empty.Ok := ⟨by simp [empty], rfl, by simp [empty]⟩

/-- Only a backlog without chunks is empty. -/
theorem Ok.chunks_of_nonempty (h : b.Ok) (hne : b.isEmpty = false) :
    ∃ front rest, b.chunks = front :: rest := by
  cases hchunks : b.chunks with
  | nil =>
    have hcount := h.count
    simp [hchunks] at hcount
    simp [isEmpty, hcount.1] at hne
  | cons front rest => exact ⟨front, rest, rfl⟩

private theorem ok_concat {init old : List (List UInt8)} {last : List UInt8}
    {bytes frontOffset n : Nat} (h : Ok ⟨init ++ old, bytes, frontOffset⟩) (hlast : last ≠ [])
    (hold : old.flatten.length + n = last.length) :
    Ok ⟨init ++ [last], bytes + n, frontOffset⟩ := by
  have hcount := h.count
  simp only [List.flatten_append, List.length_append] at hcount
  constructor
  · intro chunk hchunk
    obtain hchunk | hchunk := List.mem_append.mp hchunk
    · exact h.nonempty chunk (List.mem_append_left _ hchunk)
    · rw [List.mem_singleton.mp hchunk]
      exact hlast
  · simp only [List.flatten_append, List.flatten_singleton, List.length_append]
    omega
  · intro front hfront
    have hoffset := h.offset
    cases init with
    | cons first init => exact hoffset front hfront
    | nil =>
      obtain rfl : last = front := by simpa using hfront
      show frontOffset < last.length
      cases old with
      | nil =>
        have hpos : 0 < last.length := List.length_pos_iff.mpr hlast
        simp only [List.flatten_nil, List.length_nil] at hcount
        omega
      | cons first old =>
        have hfirst : frontOffset < first.length := hoffset first rfl
        simp only [List.flatten_cons, List.length_append] at hold
        omega

/-- A push keeps the backlog. -/
theorem Ok.pushBack (h : b.Ok) {bytes : List UInt8} (hbytes : bytes ≠ []) :
    (b.pushBack bytes).Ok ∧ (b.pushBack bytes).isEmpty = false := by
  obtain ⟨chunks, total, frontOffset⟩ := b
  unfold OutputBacklog.pushBack
  rw [if_neg (by simpa using hbytes)]
  simp only
  split
  · next tail htail =>
    obtain ⟨init, rfl⟩ := List.getLast?_eq_some_iff.mp htail
    split
    · rw [List.dropLast_concat]
      refine ⟨ok_concat h (by simp [hbytes]) (by simp), by simp [isEmpty, hbytes]⟩
    · have hnil : Ok ⟨(init ++ [tail]) ++ [], total, frontOffset⟩ := by simpa using h
      exact ⟨ok_concat hnil hbytes (by simp), by simp [isEmpty, hbytes]⟩
  · next hnone =>
    obtain rfl : chunks = [] := List.getLast?_eq_none_iff.mp hnone
    have hnil : Ok ⟨[] ++ [], total, frontOffset⟩ := h
    exact ⟨ok_concat hnil hbytes (by simp), by simp [isEmpty, hbytes]⟩

/-- Consuming takes the first bytes, and some as long as there are any. -/
theorem Ok.consumeFront (h : b.Ok) {len : Nat} (hlen : 0 < len) (hne : b.isEmpty = false) :
    (b.consumeFront len).1.Ok ∧ (b.consumeFront len).2 ≠ [] := by
  obtain ⟨front, rest, hchunks⟩ := h.chunks_of_nonempty hne
  have hoffset : b.frontOffset < front.length := h.offset front (by rw [hchunks]; rfl)
  have hcount := h.count
  rw [hchunks, List.flatten_cons, List.length_append] at hcount
  have hout : ((front.drop b.frontOffset).take len).length =
      min len (front.length - b.frontOffset) := by simp
  have hpos : 0 < min len (front.length - b.frontOffset) := Nat.lt_min.mpr ⟨hlen, by omega⟩
  unfold OutputBacklog.consumeFront
  simp only [hchunks]
  split
  · refine ⟨⟨?_, ?_, ?_⟩, ?_⟩
    · intro chunk hchunk
      exact h.nonempty chunk (by rw [hchunks]; exact List.mem_cons_of_mem _ hchunk)
    · simp only [hout]
      omega
    · intro first hfirst
      have hmem : first ∈ b.chunks := by
        rw [hchunks]
        exact List.mem_cons_of_mem _ (List.mem_of_mem_head? hfirst)
      exact List.length_pos_iff.mpr (h.nonempty first hmem)
    · apply List.ne_nil_of_length_pos
      rw [hout]
      exact hpos
  · refine ⟨⟨?_, ?_, ?_⟩, ?_⟩
    · intro chunk hchunk
      exact h.nonempty chunk (by rw [hchunks]; exact hchunk)
    · simp only [hout, List.flatten_cons, List.length_append]
      omega
    · intro first hfirst
      obtain rfl : front = first := by simpa using hfirst
      show b.frontOffset + _ < front.length
      omega
    · apply List.ne_nil_of_length_pos
      rw [hout]
      exact hpos

/-- A drain keeps the backlog well formed. -/
theorem Ok.drain {late : Nat → Bool} {n maxBytes drained : Nat} {b : OutputBacklog} (h : b.Ok) :
    (OutputBacklog.drain late n maxBytes b drained).queue.Ok := by
  induction n generalizing maxBytes b drained with
  | zero => exact h
  | succ n ih =>
    unfold OutputBacklog.drain
    split
    · exact h
    · next hgo =>
      simp only [Bool.or_eq_true, not_or, Bool.not_eq_true] at hgo
      split
      · exact ok_empty
      · simp only
        split
        · exact h
        · next hconsumed =>
          have hfront := h.consumeFront (Nat.pos_of_ne_zero hconsumed) hgo.1.1
          split
          · next next heq =>
            rw [heq] at hfront
            exact hfront.1
          · next next out heq =>
            rw [heq] at hfront
            exact ih hfront.1

/-- A drain that is not late moves something out of a backlog that is not empty. -/
theorem Ok.drain_pos {n drained : Nat} (h : b.Ok) (hne : b.isEmpty = false) (hbytes : 0 < maxBytes)
    (hlate : late (2 * drained + 1) = false) :
    0 < (OutputBacklog.drain late (n + 1) maxBytes b drained).bytes := by
  obtain ⟨front, rest, hchunks⟩ := h.chunks_of_nonempty hne
  have hoffset : b.frontOffset < front.length := h.offset front (by rw [hchunks]; rfl)
  have hslice : 0 < maxDrainSliceBytes := by decide
  have hconsumed : 0 < min (min maxBytes maxDrainSliceBytes) (front.length - b.frontOffset) := by
    omega
  have hfront := h.consumeFront hconsumed hne
  unfold OutputBacklog.drain
  rw [if_neg (by simp [hne, hlate]; omega)]
  simp only [frontLen, hchunks, List.head?_cons, Option.map_some, if_neg (Nat.pos_iff_ne_zero.mp hconsumed)]
  split
  · next next heq =>
    rw [heq] at hfront
    exact absurd rfl hfront.2
  · next next out _ heq =>
    rw [heq] at hfront
    have hpos : 0 < out.length := List.length_pos_iff.mpr hfront.2
    simp only
    omega

end OutputBacklog

/-! ### The queue -/

/-- Events that have arrived and the backlog they are moved into. -/
structure OutputQueue where
  data : OutputBacklog
  events : List (List UInt8)
  queuedBytes : Nat

namespace OutputQueue

/-- Nothing is queued. -/
def empty : OutputQueue := ⟨.empty, [], 0⟩

/-- `len`. -/
def len (q : OutputQueue) : Nat := q.data.bytes + q.queuedBytes

/-- `is_empty`. -/
def isEmpty (q : OutputQueue) : Bool := q.data.isEmpty && q.events.isEmpty

/-- `push_back`. -/
def pushBack (q : OutputQueue) (event : List UInt8) : OutputQueue :=
  { q with events := q.events ++ [event], queuedBytes := q.queuedBytes + event.length }

/-- `terminal_output.rs:104–112`: all events move to the backlog. -/
def refill (q : OutputQueue) : OutputQueue :=
  if q.data.isEmpty then ⟨q.events.foldl OutputBacklog.pushBack q.data, [], 0⟩ else q

/-- `terminal_output.rs:89–129`. Every round drains a chunk or is the last, so a chunk limit
of `n` allows at most `n` rounds. -/
def drain (late : Nat → Bool) (maxChunks : Nat) : Nat → Nat → OutputQueue → Nat → Drained OutputQueue
  | 0, _, q, _ => ⟨q, 0, 0, []⟩
  | rounds + 1, maxBytes, q, drained =>
    if q.isEmpty || maxBytes == 0 || decide (maxChunks ≤ drained) || late (2 * drained) then
      ⟨q, 0, 0, []⟩
    else
      let q := q.refill
      let first := q.data.drain late (maxChunks - drained) maxBytes drained
      let next := { q with data := first.queue }
      if first.bytes = 0 then ⟨next, 0, first.chunks, first.written⟩
      else
        let rest := drain late maxChunks rounds (maxBytes - first.bytes) next (drained + first.chunks)
        ⟨rest.queue, first.bytes + rest.bytes, first.chunks + rest.chunks,
          first.written ++ rest.written⟩

/-- The backlog is well formed, events are not empty and their bytes are counted. -/
structure Ok (q : OutputQueue) : Prop where
  data : q.data.Ok
  events : ∀ event ∈ q.events, event ≠ []
  count : q.queuedBytes = q.events.flatten.length

theorem ok_empty : empty.Ok := ⟨OutputBacklog.ok_empty, by simp [empty], rfl⟩

variable {q : OutputQueue}

/-- An empty queue has no bytes. -/
theorem Ok.len_of_isEmpty (h : q.Ok) (hempty : q.isEmpty = true) :
    q.len = 0 := by
  have hcount := h.count
  simp only [isEmpty, OutputBacklog.isEmpty, Bool.and_eq_true, beq_iff_eq,
    List.isEmpty_iff] at hempty
  simp [len, hcount, hempty]

/-- A push keeps the queue. -/
theorem Ok.pushBack (h : q.Ok) {event : List UInt8} (hevent : event ≠ []) :
    (q.pushBack event).Ok := by
  refine ⟨h.data, fun other hother ↦ ?_, ?_⟩
  · obtain hother | hother := List.mem_append.mp hother
    · exact h.events other hother
    · rw [List.mem_singleton.mp hother]
      exact hevent
  · simp [OutputQueue.pushBack, h.count]

private theorem ok_foldl_pushBack (h : b.Ok) {events : List (List UInt8)}
    (hevents : ∀ event ∈ events, event ≠ []) :
    (events.foldl OutputBacklog.pushBack b).Ok ∧ (b.isEmpty = false ∨ events ≠ [] →
      (events.foldl OutputBacklog.pushBack b).isEmpty = false) := by
  induction events generalizing b with
  | nil => exact ⟨h, fun hne ↦ hne.resolve_right fun hnil ↦ hnil rfl⟩
  | cons event events ih =>
    have hpush := h.pushBack (hevents event List.mem_cons_self)
    have hrest := ih hpush.1 fun e he ↦ hevents e (List.mem_cons_of_mem _ he)
    exact ⟨hrest.1, fun _ ↦ hrest.2 (.inl hpush.2)⟩

/-- A refill keeps the queue. -/
theorem Ok.refill (h : q.Ok) :
    q.refill.Ok ∧ (q.isEmpty = false → q.refill.data.isEmpty = false) := by
  unfold OutputQueue.refill
  split
  · next hdata =>
    have hfold := ok_foldl_pushBack h.data h.events
    refine ⟨⟨hfold.1, by simp, rfl⟩, fun hne ↦ hfold.2 (.inr ?_)⟩
    rintro hnil
    simp [isEmpty, hdata, hnil] at hne
  · next hdata => exact ⟨h, fun _ ↦ by simpa using hdata⟩

/-- A drain keeps the queue. -/
theorem Ok.drain {late : Nat → Bool} {maxChunks rounds maxBytes drained : Nat} {q : OutputQueue}
    (h : q.Ok) : (OutputQueue.drain late maxChunks rounds maxBytes q drained).queue.Ok := by
  induction rounds generalizing maxBytes q drained with
  | zero => exact h
  | succ rounds ih =>
    have hnext : Ok { q.refill with
        data := (q.refill.data.drain late (maxChunks - drained) maxBytes drained).queue } :=
      ⟨h.refill.1.data.drain, h.refill.1.events, h.refill.1.count⟩
    unfold OutputQueue.drain
    split
    · exact h
    · simp only
      split
      · exact hnext
      · exact ih hnext

/-- A drain that is not late at once moves something out of a queue that is not empty. -/
theorem Ok.drain_pos {maxChunks rounds : Nat} (h : q.Ok) (hne : q.isEmpty = false)
    (hbytes : 0 < maxBytes) (hchunks : 0 < maxChunks) (hrounds : 0 < rounds)
    (hqueue : late 0 = false) (hbacklog : late 1 = false) :
    0 < (OutputQueue.drain late maxChunks rounds maxBytes q 0).bytes := by
  obtain ⟨n, rfl⟩ : ∃ n, maxChunks = n + 1 := ⟨maxChunks - 1, by omega⟩
  obtain ⟨m, rfl⟩ : ∃ m, rounds = m + 1 := ⟨rounds - 1, by omega⟩
  have hfirst : 0 < (q.refill.data.drain late (n + 1) maxBytes 0).bytes :=
    h.refill.1.data.drain_pos (h.refill.2 hne) hbytes hbacklog
  unfold OutputQueue.drain
  rw [if_neg (by simp [hne, hqueue]; omega)]
  simp only [Nat.sub_zero, if_neg (Nat.pos_iff_ne_zero.mp hfirst)]
  omega

/-- There is nothing to drain in an empty queue. -/
theorem drain_of_isEmpty {maxChunks rounds drained : Nat} (h : q.isEmpty = true) :
    drain late maxChunks rounds maxBytes q drained = ⟨q, 0, 0, []⟩ := by
  cases rounds with
  | zero => rfl
  | succ rounds =>
    unfold OutputQueue.drain
    rw [if_pos (by simp [h])]

end OutputQueue
end Bootty.Terminal
