import Mathlib.Data.List.Basic

/-!
# Streams that arrive in pieces

A stream delivers its elements in pieces which its reader does not choose, and any read of it
may fail. `Reader` is what a consumer may rely on: a successful read splits what is pending, and
an empty piece means the end. A buffered reader over such a source keeps the contract, and
reading up to a delimiter under a limit has the same result for every way the reads are cut.
A `Sink` takes elements until a write fails, which may leave part of the chunk behind.
-/

namespace Bootty.Base

variable {α : Type}

/-! ### Reading -/

/-- What the operating system does at one read: fail, or deliver at most one element more than
`more`. -/
inductive Cut where
  | fail
  | atMost (more : Nat)

/-- A stream still to be delivered and the cuts of its next reads. -/
structure Source (α : Type) where
  rest : List α
  cuts : Nat → Cut

/-- A successful read of at most `want` elements: a front of what is pending, empty only at the
end. -/
structure Piece (want : Nat) (before piece after : List α) : Prop where
  split : before = piece ++ after
  bounded : piece.length ≤ want
  progress : piece = [] → want = 0 ∨ before = []

/-- What a consumer of a stream relies on; `none` is a failed read. -/
structure Reader (σ α : Type) where
  read : σ → Nat → Option (List α × σ)
  pending : σ → List α
  sound : ∀ s want piece s', read s want = some (piece, s') →
    Piece want (pending s) piece (pending s')

namespace Source

/-- One read of the operating system. -/
def read (s : Source α) (want : Nat) : Option (List α × Source α) :=
  match s.cuts 0 with
  | .fail => none
  | .atMost more =>
    let size := min want (more + 1)
    some (s.rest.take size, ⟨s.rest.drop size, fun i ↦ s.cuts (i + 1)⟩)

private theorem piece_of_read {s s' : Source α} {want : Nat} {piece : List α}
    (h : s.read want = some (piece, s')) : Piece want s.rest piece s'.rest := by
  unfold read at h
  split at h
  · cases h
  · next more _ =>
    obtain ⟨rfl, rfl⟩ := Prod.mk.inj (Option.some.inj h)
    constructor
    · exact (List.take_append_drop _ _).symm
    · rw [List.length_take]
      omega
    · intro hempty
      rw [List.take_eq_nil_iff] at hempty
      rcases hempty with hzero | hnil
      · left
        omega
      · exact .inr hnil

/-- An unbuffered stream. -/
def reader : Reader (Source α) α := ⟨read, rest, fun _ _ _ _ ↦ piece_of_read⟩

end Source

/-- A buffered reader over a source. -/
structure BufReader (α : Type) where
  buffer : List α
  inner : Source α
  capacity : Nat
  positive : 0 < capacity

namespace BufReader

/-- The elements that no read has returned yet. -/
def pending (r : BufReader α) : List α := r.buffer ++ r.inner.rest

/-- Fill an empty buffer by one read of the source. -/
def fillBuf (r : BufReader α) : Option (BufReader α) :=
  match r.buffer with
  | [] => (r.inner.read r.capacity).map fun next ↦ { r with buffer := next.1, inner := next.2 }
  | _ :: _ => some r

/-- Drop the first elements of the buffer. -/
def consume (r : BufReader α) (amount : Nat) : BufReader α :=
  { r with buffer := r.buffer.drop amount }

/-- A read goes through the buffer unless that is empty and the read at least as large. -/
def read (r : BufReader α) (want : Nat) : Option (List α × BufReader α) :=
  if r.buffer.isEmpty && decide (r.capacity ≤ want) then
    (r.inner.read want).map fun next ↦ (next.1, { r with inner := next.2 })
  else r.fillBuf.map fun r ↦ (r.buffer.take want, r.consume want)

/-- Filling the buffer loses nothing, and an empty buffer afterwards means the end. -/
theorem fillBuf_spec {r r' : BufReader α} (h : r.fillBuf = some r') :
    r'.pending = r.pending ∧ (r'.buffer = [] → r.pending = []) := by
  unfold fillBuf at h
  split at h
  · next hbuffer =>
    have ⟨next, hread, heq⟩ := Option.map_eq_some_iff.mp h
    subst heq
    have hpiece := @Source.piece_of_read _ _ next.2 _ next.1 hread
    constructor
    · simp only [pending, hbuffer, List.nil_append]
      exact hpiece.split.symm
    · intro hempty
      rcases hpiece.progress hempty with hzero | hend
      · exact absurd hzero (Nat.pos_iff_ne_zero.mp r.positive)
      · simp only [pending, hbuffer, hend, List.nil_append]
  · next hbuffer =>
    obtain rfl := Option.some.inj h
    constructor
    · rfl
    · intro hempty
      rw [hempty] at hbuffer
      cases hbuffer

private theorem pending_consume (r : BufReader α) (amount : Nat) :
    r.pending = r.buffer.take amount ++ (r.consume amount).pending := by
  simp only [pending, consume]
  rw [← List.append_assoc, List.take_append_drop]

/-- A read takes a piece. -/
theorem piece_of_read {r r' : BufReader α} {want : Nat} {piece : List α}
    (h : r.read want = some (piece, r')) : Piece want r.pending piece r'.pending := by
  unfold read at h
  split at h
  · next hdirect =>
    rw [Bool.and_eq_true, List.isEmpty_iff, decide_eq_true_eq] at hdirect
    have ⟨next, hread, heq⟩ := Option.map_eq_some_iff.mp h
    obtain ⟨rfl, rfl⟩ := Prod.mk.inj heq
    have hpiece := @Source.piece_of_read _ _ next.2 _ next.1 hread
    simpa only [pending, hdirect.1, List.nil_append] using hpiece
  · have ⟨filled, hfill, heq⟩ := Option.map_eq_some_iff.mp h
    obtain ⟨rfl, rfl⟩ := Prod.mk.inj heq
    have ⟨hpending, hend⟩ := fillBuf_spec hfill
    constructor
    · rw [← hpending]
      simp only [pending, consume]
      rw [← List.append_assoc, List.take_append_drop]
    · exact List.length_take_le _ _
    · intro hempty
      rw [List.take_eq_nil_iff] at hempty
      exact hempty.imp id hend

/-- A buffered stream. -/
def reader : Reader (BufReader α) α := ⟨read, pending, fun _ _ _ _ ↦ piece_of_read⟩

end BufReader

/-! ### Reading up to a delimiter -/

/-- The delimiter ends the line and occurs nowhere before. -/
def EndsAt (delimiter : α) (line : List α) : Prop :=
  ∃ front, line = front ++ [delimiter] ∧ delimiter ∉ front

/-- Two lines that begin one text are one line. -/
theorem EndsAt.eq_of_append {delimiter : α} {a b as bs : List α} (ha : EndsAt delimiter a)
    (hb : EndsAt delimiter b) (h : a ++ as = b ++ bs) : a = b ∧ as = bs := by
  obtain ⟨front, rfl, hnot⟩ := ha
  obtain ⟨front', rfl, hnot'⟩ := hb
  induction front generalizing front' with
  | nil =>
    cases front' with
    | nil => simpa using h
    | cons x xs =>
      simp only [List.nil_append, List.cons_append, List.cons.injEq] at h
      exact absurd (h.1 ▸ List.mem_cons_self) hnot'
  | cons y ys ih =>
    cases front' with
    | nil =>
      simp only [List.nil_append, List.cons_append, List.cons.injEq] at h
      exact absurd (h.1 ▸ List.mem_cons_self) hnot
    | cons x xs =>
      simp only [List.cons_append, List.cons.injEq] at h
      have ⟨heq, hrest⟩ := ih (fun hm ↦ hnot (List.mem_cons_of_mem _ hm)) xs
        (fun hm ↦ hnot' (List.mem_cons_of_mem _ hm)) h.2
      exact ⟨by rw [List.cons_append, List.cons_append, heq, h.1], hrest⟩

namespace BufReader

variable [DecidableEq α]

/-- `read_until` through a limit: up to the delimiter, the limit or the end. -/
def readUntil (delimiter : α) (limit : Nat) (r : BufReader α) :
    Option (List α × BufReader α) :=
  if limit = 0 then some ([], r)
  else
    match r.fillBuf with
    | none => none
    | some r =>
      let available := r.buffer.take limit
      match available.findIdx? (· = delimiter) with
      | some i => some (available.take (i + 1), r.consume (i + 1))
      | none =>
        if available = [] then some ([], r)
        else
          match readUntil delimiter (limit - available.length) (r.consume available.length) with
          | some (line, r) => some (available ++ line, r)
          | none => none
termination_by limit
decreasing_by exact Nat.sub_lt (Nat.pos_of_ne_zero ‹_›) (List.length_pos_iff.mpr ‹_›)

/-- The line read is a front of what is pending: up to the first delimiter, or without one and
as long as the limit or the stream. -/
theorem readUntil_spec {delimiter : α} {limit : Nat} {r r' : BufReader α} {line : List α}
    (h : r.readUntil delimiter limit = some (line, r')) :
    r.pending = line ++ r'.pending ∧ line.length ≤ limit ∧
      (EndsAt delimiter line ∨
        delimiter ∉ line ∧ (line.length = limit ∨ r'.pending = [])) := by
  fun_induction readUntil delimiter limit r generalizing line r' with
  | case1 r =>
    obtain ⟨rfl, rfl⟩ := Prod.mk.inj (Option.some.inj h)
    exact ⟨rfl, by simp, .inr ⟨by simp, .inl rfl⟩⟩
  | case2 => cases h
  | case3 limit r hlimit filled hfill available i =>
    rename_i hi
    obtain ⟨rfl, rfl⟩ := Prod.mk.inj (Option.some.inj h)
    have ⟨hpending, _⟩ := fillBuf_spec hfill
    have ⟨hlt, hat, hbefore⟩ := List.findIdx?_eq_some_iff_getElem.mp hi
    have htake : available.take (i + 1) = filled.buffer.take (i + 1) := by
      rw [List.take_take, Nat.min_eq_left]
      exact Nat.le_trans hlt (List.length_take_le _ _)
    constructor
    · rw [← hpending, htake]
      exact pending_consume filled (i + 1)
    constructor
    · exact Nat.le_trans (List.length_take_le' _ _) (List.length_take_le _ _)
    · left
      refine ⟨available.take i, ?_, ?_⟩
      · rw [List.take_succ_eq_append_getElem hlt, of_decide_eq_true hat]
      · intro hmem
        have ⟨j, hj, heq⟩ := List.mem_take_iff_getElem.mp hmem
        exact hbefore j (by omega) (by simpa using heq)
  | case4 limit r hlimit filled hfill available hnone =>
    rename_i hempty
    obtain ⟨rfl, rfl⟩ := Prod.mk.inj (Option.some.inj h)
    have ⟨hpending, hend⟩ := fillBuf_spec hfill
    have hbuffer : filled.buffer = [] :=
      (List.take_eq_nil_iff.mp hempty).resolve_left hlimit
    exact ⟨hpending.symm, by simp, .inr ⟨by simp, .inr (by rw [hpending, hend hbuffer])⟩⟩
  | case5 limit r hlimit filled hfill available hnone hempty rest next hrec =>
    rename_i ih
    obtain ⟨rfl, rfl⟩ := Prod.mk.inj (Option.some.inj h)
    have ⟨hpending, _⟩ := fillBuf_spec hfill
    have ⟨hsplit, hlength, hline⟩ := ih hrec
    have havailable : available.length ≤ limit := List.length_take_le _ _
    have htake : filled.buffer.take available.length = available := by
      rw [List.length_take, ← List.take_eq_take_min]
    have hnot : delimiter ∉ available := by
      intro hmem
      have := List.findIdx?_eq_none_iff.mp hnone delimiter hmem
      simp at this
    constructor
    · rw [← hpending, pending_consume filled available.length, htake, hsplit, List.append_assoc]
    constructor
    · rw [List.length_append]
      omega
    · rcases hline with ⟨front, hfront, hfree⟩ | ⟨hfree, hstop⟩
      · left
        refine ⟨available ++ front, by rw [hfront, List.append_assoc], ?_⟩
        simp [hnot, hfree]
      · right
        refine ⟨by simp [hnot, hfree], hstop.imp ?_ id⟩
        intro hfull
        rw [List.length_append]
        omega
  | case6 => cases h

end BufReader

/-! ### Writing -/

/-- What has been written, and at which of the next writes how much of the chunk gets through
before it fails. -/
structure Sink (α : Type) where
  written : List α
  faults : Nat → Option Nat

namespace Sink

/-- `write_all`, with whether it succeeds. -/
def writeAll (s : Sink α) (chunk : List α) : Bool × Sink α :=
  match s.faults 0 with
  | none => (true, ⟨s.written ++ chunk, fun i ↦ s.faults (i + 1)⟩)
  | some kept => (false, ⟨s.written ++ chunk.take kept, fun i ↦ s.faults (i + 1)⟩)

/-- A write that succeeds wrote its chunk. -/
theorem written_of_writeAll {s s' : Sink α} {chunk : List α}
    (h : s.writeAll chunk = (true, s')) : s'.written = s.written ++ chunk := by
  unfold writeAll at h
  split at h
  · obtain rfl := (Prod.mk.inj h).2
    rfl
  · cases (Prod.mk.inj h).1

/-- One that fails wrote a part of it. -/
theorem written_of_failed {s s' : Sink α} {chunk : List α}
    (h : s.writeAll chunk = (false, s')) :
    ∃ kept, s'.written = s.written ++ chunk.take kept := by
  unfold writeAll at h
  split at h
  · cases (Prod.mk.inj h).1
  · next kept _ =>
    obtain rfl := (Prod.mk.inj h).2
    exact ⟨kept, rfl⟩

end Sink
end Bootty.Base
