import Bootty.Base.Base64
import Bootty.Base.Numbered
import Mathlib.Algebra.GroupWithZero.Nat
import Mathlib.Data.List.Induction

/-!
# Jobs and their output

Model of a job's state and of its operations (`crates/bootty-host/src/jobs.rs:76–263`). Every
operation holds the state's lock, and the wait of a read may end at any time, so a read is one
step. The progress of a transfer, which no job that runs a program has, is left out.
-/

namespace Bootty.Host

open Bootty.Base

/-- `OUTPUT_LIMIT`. -/
def outputLimit : Nat := 2 * 1024 * 1024

/-- `CHUNK_LIMIT`. -/
def chunkLimit : Nat := 512

/-- `READ_LIMIT`. -/
def readLimit : Nat := 64 * 1024

/-- The buffer of a reader of process output, `jobs/process.rs:93`. -/
def readerBuffer : Nat := 16 * 1024

/-- The greatest `u64`, and the greatest `usize`. -/
def maxU64 : Nat := 2 ^ 64 - 1

/-- `JobStatus`. -/
inductive JobStatus where
  | starting
  | transferring
  | running (pid : Nat)
  | exited (code signal : Option Int)
  | failed (message : String)
  deriving DecidableEq, Repr

/-- `finished`. -/
def JobStatus.finished : JobStatus → Bool
  | .exited _ _ | .failed _ => true
  | _ => false

/-- `JobSummary`. -/
structure JobSummary where
  id : String
  host : String
  program : String
  cwd : String
  status : JobStatus
  cancelRequested : Bool
  timedOut : Bool
  nextCursor : Nat
  retainedFrom : Nat
  deriving DecidableEq, Repr

/-- `JobStream`. -/
inductive JobStream where
  | stdout
  | stderr
  deriving DecidableEq, Repr

/-- `JobChunk`. -/
structure JobChunk where
  sequence : Nat
  stream : JobStream
  data : List UInt8
  deriving DecidableEq, Repr

/-- `JobRead`. -/
structure JobRead where
  job : JobSummary
  chunks : List JobChunk
  cursor : Nat
  gap : Bool
  deriving DecidableEq, Repr

/-- `Job`, as far as its threads share it. -/
structure Job where
  summary : JobSummary
  chunks : List JobChunk
  bytes : Nat
  cancelled : Bool

/-- Output of a process, as it is passed to the job. -/
structure Output where
  stream : JobStream
  bytes : List UInt8
  deriving DecidableEq, Repr

namespace Job

/-- A job whose worker has not started, `jobs.rs:397–412`. -/
def new (id host program cwd : String) : Job where
  summary := ⟨id, host, program, cwd, .starting, false, false, 0, 0⟩
  chunks := []
  bytes := 0
  cancelled := false

/-- The status is set. -/
def setStatus (job : Job) (status : JobStatus) : Job :=
  { job with summary := { job.summary with status } }

/-- `jobs.rs:206–227`. -/
def cancel (job : Job) (timedOut : Bool) : Job :=
  if job.summary.status.finished then job
  else
    { job with
      summary :=
        { job.summary with cancelRequested := true, timedOut := job.summary.timedOut || timedOut }
      cancelled := true }

/-- Old chunks go while there are too many, or too many bytes. -/
def evict : List JobChunk → Nat → List JobChunk × Nat
  | [], bytes => ([], bytes)
  | old :: rest, bytes =>
    if outputLimit < bytes ∨ chunkLimit < (old :: rest).length then
      evict rest (bytes - old.data.length)
    else (old :: rest, bytes)

/-- `jobs.rs:172–205`. -/
def output (base64 : Base64) (job : Job) (out : Output) : Job :=
  if job.summary.nextCursor = maxU64 then
    (job.cancel false).setStatus (.failed "job output sequence exhausted")
  else
    let sequence := job.summary.nextCursor + 1
    let data := base64.encode out.bytes
    let (chunks, bytes) :=
      evict (job.chunks ++ [⟨sequence, out.stream, data⟩]) (min (job.bytes + data.length) maxU64)
    let retainedFrom := (chunks.head?.map (·.sequence - 1)).getD sequence
    { job with
      summary := { job.summary with nextCursor := sequence, retainedFrom }
      chunks
      bytes }

/-- Chunks as long as they fit in a read, of which `size` bytes are taken. -/
def takeRead : Nat → List JobChunk → List JobChunk
  | _, [] => []
  | size, chunk :: rest =>
    let size := min (size + chunk.data.length) maxU64
    if size ≤ readLimit then chunk :: takeRead size rest else []

/-- `jobs.rs:228–263`. -/
def read (job : Job) (cursor : Nat) : Except String JobRead :=
  if cursor ≤ job.summary.nextCursor then
    let chunks := takeRead 0 (job.chunks.filter fun chunk ↦ decide (cursor < chunk.sequence))
    .ok
      { job := job.summary
        chunks
        cursor := (chunks.getLast?.map (·.sequence)).getD cursor
        gap := decide (cursor < job.summary.retainedFrom) }
  else .error "job cursor is ahead of output"

/-! ### What is retained -/

/-- The chunks of a log of output, numbered from 1. -/
def chunksOf (base64 : Base64) (log : List Output) : List JobChunk :=
  log.mapIdx fun i out ↦ ⟨i + 1, out.stream, base64.encode out.bytes⟩

/-- The bytes of encoded data. -/
def dataBytes (chunks : List JobChunk) : Nat := (chunks.map (·.data.length)).sum

variable {base64 : Base64} {job : Job} {log : List Output}

@[simp] theorem length_chunksOf : (chunksOf base64 log).length = log.length := by
  simp [chunksOf]

theorem chunksOf_concat (out : Output) : chunksOf base64 (log ++ [out]) =
    chunksOf base64 log ++ [⟨log.length + 1, out.stream, base64.encode out.bytes⟩] := by
  simp [chunksOf, List.mapIdx_append]

private theorem numbered_chunksOf (base64 : Base64) (log : List Output) :
    Numbered (·.sequence) 1 (chunksOf base64 log) := by
  induction log using List.reverseRecOn with
  | nil => exact numbered_nil
  | append_singleton log out ih =>
    rw [chunksOf_concat]
    exact numbered_concat.mpr ⟨ih, by simp [Nat.add_comm]⟩

/-- A chunk that a reader of process output fills is short when encoded. -/
theorem length_encode_le (base64 : Base64) {bytes : List UInt8}
    (h : bytes.length ≤ readerBuffer) : (base64.encode bytes).length ≤ 21848 := by
  rw [base64.length_encode]
  simp only [readerBuffer] at h
  omega

private theorem length_data_le (hsmall : ∀ out ∈ log, out.bytes.length ≤ readerBuffer)
    {chunk : JobChunk} (h : chunk ∈ chunksOf base64 log) : chunk.data.length ≤ 21848 := by
  simp only [chunksOf, List.mem_mapIdx] at h
  obtain ⟨i, hi, rfl⟩ := h
  exact length_encode_le base64 (hsmall _ (List.getElem_mem hi))

private theorem evict_concat (init : List JobChunk) (last : JobChunk)
    (hlast : last.data.length ≤ outputLimit) :
    ∃ k, k ≤ init.length ∧
      evict (init ++ [last]) (dataBytes (init ++ [last])) =
        ((init ++ [last]).drop k, dataBytes ((init ++ [last]).drop k)) ∧
      dataBytes ((init ++ [last]).drop k) ≤ outputLimit ∧
      ((init ++ [last]).drop k).length ≤ chunkLimit := by
  induction init with
  | nil =>
    refine ⟨0, Nat.le_refl 0, ?_, by simpa [dataBytes] using hlast, by simp [chunkLimit]⟩
    have hfits : ¬ (outputLimit < dataBytes [last] ∨ chunkLimit < [last].length) := by
      simp only [dataBytes, List.map_cons, List.map_nil, List.sum_singleton, List.length_singleton,
        chunkLimit]
      omega
    simp only [List.nil_append, evict, if_neg hfits, List.drop_zero]
  | cons old init ih =>
    rw [List.cons_append]
    unfold evict
    split
    · obtain ⟨k, hk, hevict, hbytes, hcount⟩ := ih
      refine ⟨k + 1, by simpa using hk, ?_, by simpa using hbytes, by simpa using hcount⟩
      have hrest : dataBytes (old :: (init ++ [last])) - old.data.length =
          dataBytes (init ++ [last]) := by
        simp [dataBytes]
      rw [hrest, hevict, List.drop_succ_cons]
    · next hfits =>
      rw [not_or] at hfits
      exact ⟨0, Nat.zero_le _, rfl, by simp only [List.drop_zero]; omega,
        by simp only [List.drop_zero]; omega⟩

/-- A job retains the chunks of its output behind those it has evicted. -/
structure Retains (base64 : Base64) (job : Job) (log : List Output) : Prop where
  small : ∀ out ∈ log, out.bytes.length ≤ readerBuffer
  next : job.summary.nextCursor = log.length
  chunks : job.chunks = (chunksOf base64 log).drop job.summary.retainedFrom
  last : job.summary.retainedFrom < log.length ∨ job.summary.retainedFrom = 0 ∧ log = []
  bytes : job.bytes = dataBytes job.chunks
  bytesLimit : dataBytes job.chunks ≤ outputLimit
  countLimit : job.chunks.length ≤ chunkLimit

/-- A new job has all of its output. -/
theorem retains_new (id host program cwd : String) :
    Retains base64 (new id host program cwd) [] where
  small := by simp
  next := rfl
  chunks := rfl
  last := .inr ⟨rfl, rfl⟩
  bytes := rfl
  bytesLimit := Nat.zero_le _
  countLimit := Nat.zero_le _

/-- A status changes no output. -/
theorem Retains.setStatus (h : Retains base64 job log) (status : JobStatus) :
    Retains base64 (job.setStatus status) log :=
  ⟨h.small, h.next, h.chunks, h.last, h.bytes, h.bytesLimit, h.countLimit⟩

/-- Neither does a cancellation. -/
theorem Retains.cancel (h : Retains base64 job log) (timedOut : Bool) :
    Retains base64 (job.cancel timedOut) log := by
  unfold Job.cancel
  split
  · exact h
  · exact ⟨h.small, h.next, h.chunks, h.last, h.bytes, h.bytesLimit, h.countLimit⟩

private theorem head_drop_chunksOf {n : Nat} (hn : n < log.length) :
    (((chunksOf base64 log).drop n).head?.map (·.sequence - 1)) = some n := by
  have hnumbered := (numbered_chunksOf base64 log).drop (n := n) (by simp; omega)
  cases hdrop : (chunksOf base64 log).drop n with
  | nil =>
    have hlen := congrArg List.length hdrop
    simp only [List.length_drop, length_chunksOf, List.length_nil] at hlen
    omega
  | cons chunk rest =>
    rw [hdrop, numbered_cons] at hnumbered
    simp [hnumbered.1]

/-- With a number left, output is logged. -/
theorem Retains.output (h : Retains base64 job log) (hroom : log.length ≠ maxU64) {out : Output}
    (hout : out.bytes.length ≤ readerBuffer) :
    Retains base64 (job.output base64 out) (log ++ [out]) := by
  have hdata := length_encode_le base64 hout
  have hall : job.chunks ++ [⟨log.length + 1, out.stream, base64.encode out.bytes⟩] =
      (chunksOf base64 (log ++ [out])).drop job.summary.retainedFrom := by
    rw [chunksOf_concat, List.drop_append_of_le_length, h.chunks]
    rw [length_chunksOf]
    have hlast := h.last
    omega
  have hbytes : min (job.bytes + (base64.encode out.bytes).length) maxU64 =
      dataBytes (job.chunks ++ [⟨log.length + 1, out.stream, base64.encode out.bytes⟩]) := by
    have hlimit := h.bytesLimit
    rw [← h.bytes, outputLimit] at hlimit
    rw [Nat.min_eq_left (by rw [maxU64]; omega), h.bytes]
    simp [dataBytes]
  obtain ⟨k, hk, hevict, hbytesLimit, hcountLimit⟩ := evict_concat job.chunks
    ⟨log.length + 1, out.stream, base64.encode out.bytes⟩ (by simp only [outputLimit]; omega)
  have hdrop : job.summary.retainedFrom + k < (log ++ [out]).length := by
    have hlen := congrArg List.length h.chunks
    simp only [List.length_drop, length_chunksOf] at hlen
    have hlast := h.last
    rw [List.length_append, List.length_singleton]
    omega
  rw [← hbytes, hall, List.drop_drop] at hevict
  rw [hall, List.drop_drop] at hbytesLimit hcountLimit
  unfold Job.output
  rw [h.next, if_neg hroom]
  simp only [hall, hevict, head_drop_chunksOf hdrop, Option.getD_some]
  refine ⟨?_, by simp, rfl, .inl hdrop, rfl, hbytesLimit, hcountLimit⟩
  intro other hother
  obtain hother | hother := List.mem_append.mp hother
  · exact h.small other hother
  · rw [List.mem_singleton.mp hother]
    exact hout

/-- The sequence exhausted, output fails the job. -/
theorem Retains.output_exhausted (h : Retains base64 job log) (hfull : log.length = maxU64)
    (out : Output) : Retains base64 (job.output base64 out) log := by
  unfold Job.output
  rw [h.next, if_pos hfull]
  exact (h.cancel false).setStatus _

/-! ### Reads -/

private theorem takeRead_prefix (size : Nat) (chunks : List JobChunk) :
    takeRead size chunks <+: chunks := by
  induction chunks generalizing size with
  | nil => exact List.prefix_refl []
  | cons chunk rest ih =>
    simp only [takeRead]
    split
    · exact List.cons_prefix_cons.mpr ⟨rfl, ih _⟩
    · exact List.nil_prefix

private theorem takeRead_eq_nil {chunks : List JobChunk}
    (hsmall : ∀ chunk ∈ chunks, chunk.data.length ≤ 21848) (h : takeRead 0 chunks = []) :
    chunks = [] := by
  cases chunks with
  | nil => rfl
  | cons chunk rest =>
    have hchunk := hsmall chunk List.mem_cons_self
    have hfits : min (0 + chunk.data.length) maxU64 ≤ readLimit := by
      simp only [readLimit]
      omega
    simp only [takeRead, if_pos hfits] at h
    cases h

/-- A read returns the next chunks that are retained. -/
structure Reads (base64 : Base64) (job : Job) (log : List Output) (cursor : Nat)
    (batch : JobRead) : Prop where
  summary : batch.job = job.summary
  gap : batch.gap = decide (cursor < job.summary.retainedFrom)
  chunks : batch.chunks <+: (chunksOf base64 log).drop (max cursor job.summary.retainedFrom)
  none : batch.chunks = [] → cursor = log.length ∧ batch.cursor = cursor
  some : batch.chunks ≠ [] →
    batch.cursor = max cursor job.summary.retainedFrom + batch.chunks.length

/-- A reader is not ahead of the job. -/
theorem Reads.cursor_le {cursor : Nat} {batch : JobRead} (h : Reads base64 job log cursor batch)
    (hcursor : cursor ≤ log.length) : batch.cursor ≤ log.length := by
  by_cases hnil : batch.chunks = []
  · rw [(h.none hnil).2]
    exact hcursor
  · have hlen := h.chunks.length_le
    have hpos := List.length_pos_iff.mpr hnil
    rw [List.length_drop, length_chunksOf] at hlen
    rw [h.some hnil]
    omega

/-- Without a gap, a read goes on behind its cursor. -/
theorem Reads.of_gap_eq_false {cursor : Nat} {batch : JobRead}
    (h : Reads base64 job log cursor batch) (hgap : batch.gap = false) :
    batch.chunks <+: (chunksOf base64 log).drop cursor ∧
      batch.cursor = cursor + batch.chunks.length := by
  have hmax : max cursor job.summary.retainedFrom = cursor := by
    rw [h.gap, decide_eq_false_iff_not] at hgap
    omega
  have hchunks := h.chunks
  have hsome := h.some
  rw [hmax] at hchunks hsome
  refine ⟨hchunks, ?_⟩
  by_cases hnil : batch.chunks = []
  · rw [(h.none hnil).2, hnil, List.length_nil, Nat.add_zero]
  · exact hsome hnil

/-- A read that is not ahead of the output succeeds. -/
theorem Retains.read (h : Retains base64 job log) {cursor : Nat} (hcursor : cursor ≤ log.length) :
    ∃ batch, job.read cursor = .ok batch ∧ Reads base64 job log cursor batch := by
  have hlast := h.last
  have hretained : job.summary.retainedFrom ≤ (chunksOf base64 log).length := by
    rw [length_chunksOf]
    omega
  have hfilter : job.chunks.filter (fun chunk ↦ decide (cursor < chunk.sequence)) =
      (chunksOf base64 log).drop (max cursor job.summary.retainedFrom) := by
    have hnumbered := numbered_chunksOf base64 log
    rw [h.chunks, (hnumbered.drop hretained).filter_lt, List.drop_drop]
    congr 1
    omega
  have hprefix := takeRead_prefix 0
    ((chunksOf base64 log).drop (max cursor job.summary.retainedFrom))
  have hnumbered : Numbered (·.sequence) (1 + max cursor job.summary.retainedFrom)
      ((chunksOf base64 log).drop (max cursor job.summary.retainedFrom)) :=
    (numbered_chunksOf base64 log).drop (by simp; omega)
  unfold Job.read
  rw [h.next, if_pos hcursor]
  simp only [hfilter]
  refine ⟨_, rfl, rfl, rfl, hprefix, fun hnil ↦ ⟨?_, ?_⟩, fun hne ↦ ?_⟩
  · have hrest := takeRead_eq_nil (fun chunk hchunk ↦
      length_data_le h.small (List.mem_of_mem_drop hchunk)) hnil
    have hlen := congrArg List.length hrest
    simp only [List.length_drop, length_chunksOf, List.length_nil] at hlen
    omega
  · simp only at hnil
    simp [hnil]
  · have hchunk := List.getLast?_eq_some_getLast hne
    obtain ⟨rest, hrest⟩ := hprefix
    rw [← hrest, numbered_append] at hnumbered
    have hnum := hnumbered.1.getLast hchunk
    simp only [hchunk, Option.map_some, Option.getD_some] at hnum ⊢
    omega

/-- Something above a cursor has been evicted exactly when the cursor is below what is
retained. -/
theorem Retains.evicted_iff (h : Retains base64 job log) (cursor : Nat) :
    (∃ chunk ∈ chunksOf base64 log, cursor < chunk.sequence ∧ chunk ∉ job.chunks) ↔
      cursor < job.summary.retainedFrom := by
  have hlast := h.last
  have hnumbered := numbered_chunksOf base64 log
  rw [← List.take_append_drop job.summary.retainedFrom (chunksOf base64 log)] at hnumbered
  have hpairwise := List.pairwise_append.mp hnumbered.pairwise
  have htake := (numbered_append.mp hnumbered).1
  rw [h.chunks]
  constructor
  · rintro ⟨chunk, hchunk, hcursor, hevicted⟩
    rw [← List.take_append_drop job.summary.retainedFrom (chunksOf base64 log),
      List.mem_append] at hchunk
    have hsequence := htake.mem (hchunk.resolve_right hevicted)
    rw [List.length_take, length_chunksOf] at hsequence
    omega
  · intro hcursor
    have hne : (chunksOf base64 log).take job.summary.retainedFrom ≠ [] := by
      apply List.ne_nil_of_length_pos
      rw [List.length_take, length_chunksOf]
      omega
    obtain ⟨init, chunk, hconcat⟩ := List.eq_nil_or_concat'  _ |>.resolve_left hne
    have hmem : chunk ∈ (chunksOf base64 log).take job.summary.retainedFrom := by
      rw [hconcat]
      exact List.mem_append_right _ (List.mem_singleton.mpr rfl)
    have hnum := htake.getLast (x := chunk) (by rw [hconcat]; simp)
    rw [List.length_take, length_chunksOf] at hnum
    refine ⟨chunk, List.mem_of_mem_take hmem, by omega, fun hretained ↦ ?_⟩
    exact Nat.lt_irrefl _ (hpairwise.2.2 chunk hmem chunk hretained)

end Job

/-! ### A reader -/

/-- The output that gets a number. With the sequence exhausted, output fails the job. -/
def accepted (calls : List Output) : List Output := calls.take maxU64

theorem accepted_concat_of_full {calls : List Output} (h : (accepted calls).length = maxU64)
    (out : Output) : accepted (calls ++ [out]) = accepted calls := by
  apply List.take_append_of_le_length
  rw [accepted, List.length_take] at h
  omega

theorem accepted_concat_of_room {calls : List Output} (h : (accepted calls).length ≠ maxU64)
    (out : Output) : accepted (calls ++ [out]) = accepted calls ++ [out] := by
  rw [accepted, List.length_take] at h
  have hlen : (calls ++ [out]).length ≤ maxU64 := by
    rw [List.length_append, List.length_singleton]
    omega
  rw [accepted, accepted, List.take_of_length_le hlen, List.take_of_length_le (by omega)]

/-- What the threads of a job and its readers do. -/
inductive Op where
  | output (out : Output)
  | status (status : JobStatus)
  | cancel (timedOut : Bool)
  | read

/-- A job with the output passed to it, and a reader that passes back the cursor it got
last. -/
structure Reading where
  job : Job
  calls : List Output
  cursor : Nat
  received : List JobChunk

namespace Reading

variable (base64 : Base64)

/-- What a reader knows after one operation. -/
def observe (o : Reading) : Op → Reading
  | .output out => { o with job := o.job.output base64 out, calls := o.calls ++ [out] }
  | .status status => { o with job := o.job.setStatus status }
  | .cancel timedOut => { o with job := o.job.cancel timedOut }
  | .read =>
    match o.job.read o.cursor with
    | .ok batch => { o with cursor := batch.cursor, received := o.received ++ batch.chunks }
    | .error _ => o

/-- A job and its reader after some operations. -/
def run (job : Job) (history : List Op) : Reading :=
  history.foldl (observe base64) ⟨job, [], 0, []⟩

/-- What a reader can rely on. -/
structure Reliable (o : Reading) : Prop where
  /-- Chunks arrive in increasing sequence, and are those of the output. -/
  increasing : o.received.Pairwise (·.sequence < ·.sequence)
  authentic : o.received ⊆ Job.chunksOf base64 (accepted o.calls)
  cursor : o.cursor ≤ o.job.summary.nextCursor
  /-- A read that is not ahead of the output reports a gap exactly when a chunk above its
  cursor has been evicted; without one it goes on behind its cursor, and returns something
  while there is anything. -/
  read : ∀ cursor ≤ o.job.summary.nextCursor, ∃ batch, o.job.read cursor = .ok batch ∧
    (batch.gap = true ↔ ∃ chunk ∈ Job.chunksOf base64 (accepted o.calls),
      cursor < chunk.sequence ∧ chunk ∉ o.job.chunks) ∧
    (batch.gap = false → Numbered (·.sequence) (cursor + 1) batch.chunks) ∧
    (cursor < o.job.summary.nextCursor → batch.chunks ≠ [])
  /-- What is retained is within the limits. -/
  bytesLimit : Job.dataBytes o.job.chunks ≤ outputLimit
  countLimit : o.job.chunks.length ≤ chunkLimit

variable {base64} {o : Reading}

private structure Follows (base64 : Base64) (o : Reading) : Prop where
  retains : o.job.Retains base64 (accepted o.calls)
  cursor : o.cursor ≤ (accepted o.calls).length
  increasing : o.received.Pairwise (·.sequence < ·.sequence)
  received : o.received ⊆ (Job.chunksOf base64 (accepted o.calls)).take o.cursor

private theorem Follows.output (h : Follows base64 o) {out : Output}
    (hout : out.bytes.length ≤ readerBuffer) : Follows base64 (o.observe base64 (.output out)) := by
  by_cases hroom : (accepted o.calls).length = maxU64
  · have hsame := accepted_concat_of_full hroom out
    refine ⟨?_, ?_, h.increasing, ?_⟩
    · simp only [observe, hsame]
      exact h.retains.output_exhausted hroom out
    · simp only [observe, hsame]
      exact h.cursor
    · simp only [observe, hsame]
      exact h.received
  · have hnext := accepted_concat_of_room hroom out
    refine ⟨?_, ?_, h.increasing, ?_⟩
    · simp only [observe, hnext]
      exact h.retains.output hroom hout
    · simp only [observe, hnext, List.length_append]
      exact Nat.le_trans h.cursor (Nat.le_add_right _ _)
    · simp only [observe, hnext, Job.chunksOf_concat]
      rw [List.take_append_of_le_length (by rw [Job.length_chunksOf]; exact h.cursor)]
      exact h.received

private theorem Follows.read (h : Follows base64 o) :
    Follows base64 (o.observe base64 .read) := by
  obtain ⟨batch, heq, hreads⟩ := h.retains.read h.cursor
  have hreceived : o.received ⊆ (Job.chunksOf base64 (accepted o.calls)).take
      (max o.cursor o.job.summary.retainedFrom) :=
    fun _ hchunk ↦ List.take_subset_take_left _ (Nat.le_max_left _ _) (h.received hchunk)
  obtain ⟨rest, hrest⟩ := hreads.chunks
  simp only [observe, heq]
  by_cases hnil : batch.chunks = []
  · rw [hnil, List.append_nil, (hreads.none hnil).2]
    exact h
  · refine ⟨h.retains, hreads.cursor_le h.cursor, ?_, ?_⟩
    · -- Everything received before is below the cursor.
      have hpairwise := (Job.numbered_chunksOf base64 (accepted o.calls)).pairwise
      rw [← List.take_append_drop (max o.cursor o.job.summary.retainedFrom)
        (Job.chunksOf base64 (accepted o.calls)), ← hrest, ← List.append_assoc] at hpairwise
      have hnew := List.pairwise_append.mp (List.pairwise_append.mp hpairwise).1
      refine List.pairwise_append.mpr ⟨h.increasing, hnew.2.1, fun chunk hchunk ↦ ?_⟩
      exact hnew.2.2 chunk (hreceived hchunk)
    · intro chunk hchunk
      simp only [hreads.some hnil, List.take_add, ← hrest, List.take_left]
      obtain hchunk | hchunk := List.mem_append.mp hchunk
      · exact List.mem_append_left _ (hreceived hchunk)
      · exact List.mem_append_right _ hchunk

/-- Process readers pass on at most what fits in their buffer. -/
def FromReaders (history : List Op) : Prop :=
  ∀ out, .output out ∈ history → out.bytes.length ≤ readerBuffer

private theorem Follows.foldl (h : Follows base64 o) {history : List Op}
    (hreaders : FromReaders history) : Follows base64 (history.foldl (observe base64) o) := by
  induction history generalizing o with
  | nil => exact h
  | cons op history ih =>
    apply ih
    · cases op with
      | output out => exact h.output (hreaders out List.mem_cons_self)
      | status status => exact ⟨h.retains.setStatus status, h.cursor, h.increasing, h.received⟩
      | cancel timedOut => exact ⟨h.retains.cancel timedOut, h.cursor, h.increasing, h.received⟩
      | read => exact h.read
    · exact fun out hout ↦ hreaders out (List.mem_cons_of_mem _ hout)

private theorem Follows.reliable (h : Follows base64 o) : o.Reliable base64 where
  increasing := h.increasing
  authentic := fun _ hchunk ↦ List.mem_of_mem_take (h.received hchunk)
  cursor := by
    rw [h.retains.next]
    exact h.cursor
  read := by
    intro cursor hcursor
    rw [h.retains.next] at hcursor
    obtain ⟨batch, heq, hreads⟩ := h.retains.read hcursor
    refine ⟨batch, heq, ?_, fun hgap ↦ ?_, fun hbelow hempty ↦ ?_⟩
    · rw [h.retains.evicted_iff, hreads.gap, decide_eq_true_eq]
    · have hnumbered := (Job.numbered_chunksOf base64 (accepted o.calls)).drop (n := cursor)
        (by simpa using hcursor)
      obtain ⟨rest, hrest⟩ := (hreads.of_gap_eq_false hgap).1
      rw [← hrest, numbered_append, Nat.add_comm] at hnumbered
      exact hnumbered.1
    · rw [h.retains.next, (hreads.none hempty).1] at hbelow
      exact Nat.lt_irrefl _ hbelow
  bytesLimit := h.retains.bytesLimit
  countLimit := h.retains.countLimit

/-- A reader of a job gets the output in order, or is told of the gap. -/
theorem reliable_run (base64 : Base64) (id host program cwd : String) {history : List Op}
    (hreaders : FromReaders history) :
    (run base64 (Job.new id host program cwd) history).Reliable base64 := by
  have hnew : Follows base64 ⟨Job.new id host program cwd, [], 0, []⟩ :=
    ⟨Job.retains_new id host program cwd, Nat.zero_le _, .nil, by simp⟩
  exact (hnew.foldl hreaders).reliable

end Reading
end Bootty.Host
