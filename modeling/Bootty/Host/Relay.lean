import Bootty.Base.Machine
import Bootty.Host.Jobs

/-!
# Remote jobs

Model of the relay of a remote job's output: `remote::serve` (`crates/bootty-host/src/jobs/
remote.rs:113–149`) reads the job that the remote worker writes to (`jobs/process.rs:12–84`) and
sends every read as a line of JSON; the loop of `remote::run` (`remote.rs:64–98`) passes what the
lines carry to the local job. The transport may end at any byte.
-/

namespace Bootty.Host

open Bootty.Base

/-- The JSON of a read and its decoder, which gets the line with its end. -/
structure JsonLine where
  encode : JobRead → List UInt8
  decode : List UInt8 → Option JobRead

/-- The end of a line. -/
def newline : UInt8 := 10

/-- What a line may be long, `remote.rs:70`. -/
def lineLimit : Nat := 128 * 1024

namespace JsonLine

/-- A batch as a line. -/
def line (json : JsonLine) (batch : JobRead) : List UInt8 := json.encode batch ++ [newline]

/-- The bytes of the batches that were sent. -/
def wire (json : JsonLine) (sent : List JobRead) : List UInt8 := sent.flatMap json.line

/-- JSON has no line end inside, and its decoder gives back what was encoded. -/
structure RoundTrips (json : JsonLine) (batch : JobRead) : Prop where
  newline : newline ∉ json.encode batch
  decode : json.decode (json.line batch) = some batch

end JsonLine

/-- The last read of a job: it is finished and everything has been read. -/
def JobRead.isFinal (batch : JobRead) : Bool :=
  batch.job.status.finished && batch.cursor == batch.job.nextCursor

/-! ### The remote side -/

/-- Where the remote worker is. -/
inductive Worker where
  | starting
  | running
  | done
  deriving DecidableEq, Repr

/-- The job of `serve`, its worker with the output calls it has made, and the reads sent. -/
structure Remote where
  job : Job
  worker : Worker
  calls : List Output
  cursor : Nat
  sent : List JobRead
  closed : Bool

namespace Remote

/-- What the remote process and its host do. -/
inductive Event where
  | launch (pid : Nat)
  | output (out : Output)
  | finish (status : JobStatus)
  | cancel (timedOut : Bool)
  | serve

/-- A remote job that has not been launched. -/
def new (id host program cwd : String) : Remote :=
  ⟨Job.new id host program cwd, .starting, [], 0, [], false⟩

/-- A turn of the loop of `serve`, `remote.rs:131–140`. -/
def serve (s : Remote) : Remote :=
  match s.job.read s.cursor with
  | .error _ => { s with closed := true }
  | .ok batch =>
    { s with
      cursor := batch.cursor
      sent := s.sent ++ [batch]
      closed := batch.isFinal
      job := if batch.isFinal then s.job.cancel false else s.job }

/-- One event, where it can happen. -/
def step (base64 : Base64) (s : Remote) : Event → Option Remote
  | .launch pid =>
    if s.worker = .starting then
      some { s with job := s.job.setStatus (.running pid), worker := .running }
    else none
  | .output out =>
    if s.worker = .running ∧ out.bytes.length ≤ readerBuffer then
      some { s with job := s.job.output base64 out, calls := s.calls ++ [out] }
    else none
  | .finish status =>
    if s.worker ≠ .done ∧ status.finished = true then
      some { s with job := s.job.setStatus status, worker := .done }
    else none
  | .cancel timedOut => some { s with job := s.job.cancel timedOut }
  | .serve => if s.closed then none else some s.serve

end Remote

/-! ### The local side -/

/-- What `read_line` returns time after time, up to the end of the stream; `line` has been
read of the first. -/
def readLines (line : List UInt8) : List UInt8 → List (List UInt8)
  | [] => [line]
  | byte :: rest =>
    if byte = newline ∨ line.length + 1 = lineLimit then (line ++ [byte]) :: readLines [] rest
    else readLines (line ++ [byte]) rest

/-- The local job, with the output calls made to it. -/
structure Relayed where
  job : Job
  calls : List Output

namespace Relayed

variable (base64 : Base64) (json : JsonLine)

/-- `remote.rs:80–82`. -/
def deliver : Relayed → List JobChunk → Except String Relayed
  | r, [] => .ok r
  | r, chunk :: rest =>
    match base64.decode chunk.data with
    | none => .error "invalid base64"
    | some bytes =>
      let out : Output := ⟨chunk.stream, bytes⟩
      deliver ⟨r.job.output base64 out, r.calls ++ [out]⟩ rest

/-- `remote.rs:83–90`. -/
def mergeFlags (r : Relayed) (summary : JobSummary) : Relayed :=
  { r with
    job :=
      { r.job with
        summary :=
          { r.job.summary with
            cancelRequested := r.job.summary.cancelRequested || summary.cancelRequested
            timedOut := r.job.summary.timedOut || summary.timedOut } } }

/-- The status of the local job is set. -/
def setStatus (r : Relayed) (status : JobStatus) : Relayed :=
  { r with job := r.job.setStatus status }

/-- The loop of `remote::run` and what it does at its end, `remote.rs:64–106`. -/
def run : Relayed → List (List UInt8) → Except String Relayed
  | _, [] => .error "remote job ended without a complete result"
  | r, line :: lines =>
    if 0 < line.length ∧ line.length < lineLimit ∧ line.getLast? = some newline then
      match json.decode line with
      | none => .error "decode remote job stream"
      | some batch =>
        if batch.gap then .error "remote job output exceeded retention before delivery"
        else
          match r.deliver base64 batch.chunks with
          | .error error => .error error
          | .ok r =>
            let r := r.mergeFlags batch.job
            if batch.isFinal then .ok (r.setStatus batch.job.status)
            else
              match batch.job.status with
              | .running pid => run (r.setStatus (.running pid)) lines
              | _ => run r lines
    else .error "remote job ended without a complete result"

end Relayed

/-! ### What serve sends -/

namespace Remote

variable {base64 : Base64} {s s' : Remote}

/-- No output will get a number any more. -/
private def Over (s : Remote) : Prop :=
  s.worker = .done ∨ (accepted s.calls).length = maxU64

private structure Serves (base64 : Base64) (s : Remote) : Prop where
  retains : s.job.Retains base64 (accepted s.calls)
  cursor : s.cursor ≤ (accepted s.calls).length
  finished : s.job.summary.status.finished = true → s.Over
  sent : (∀ batch ∈ s.sent, batch.gap = false) →
    s.sent.flatMap (·.chunks) = (Job.chunksOf base64 (accepted s.calls)).take s.cursor
  final : ∀ init batch rest, s.sent = init ++ batch :: rest → batch.isFinal = true →
    rest = [] ∧ s.closed = true ∧ s.cursor = (accepted s.calls).length ∧ s.Over

private theorem serves_new (id host program cwd : String) :
    Serves base64 (new id host program cwd) where
  retains := Job.retains_new id host program cwd
  cursor := Nat.zero_le _
  finished := by
    intro hfinished
    cases hfinished
  sent := fun _ ↦ rfl
  final := by
    intro init batch rest hsent
    simp [new] at hsent

private theorem Serves.of_job (h : Serves base64 s) {job : Job} {worker : Worker}
    (hretains : job.Retains base64 (accepted s.calls))
    (hworker : s.worker = .done → worker = .done)
    (hfinished : job.summary.status.finished = true →
      worker = .done ∨ (accepted s.calls).length = maxU64) :
    Serves base64 { s with job, worker } := by
  refine ⟨hretains, h.cursor, hfinished, h.sent, fun init batch rest hsent hbatch ↦ ?_⟩
  obtain ⟨hrest, hclosed, hcursor, hover⟩ := h.final init batch rest hsent hbatch
  exact ⟨hrest, hclosed, hcursor, hover.imp_left hworker⟩

private theorem finished_cancel (job : Job) (timedOut : Bool) :
    (job.cancel timedOut).summary.status = job.summary.status := by
  unfold Job.cancel
  split <;> rfl

private theorem Serves.output (h : Serves base64 s) (hworker : s.worker = .running) {out : Output}
    (hout : out.bytes.length ≤ readerBuffer) :
    Serves base64 { s with job := s.job.output base64 out, calls := s.calls ++ [out] } := by
  by_cases hroom : (accepted s.calls).length = maxU64
  · have hsame : accepted (s.calls ++ [out]) = accepted s.calls := accepted_concat_of_full hroom out
    have hjob := h.retains.output_exhausted hroom out
    rw [← hsame] at hjob hroom
    refine ⟨hjob, ?_, fun _ ↦ .inr hroom, ?_, fun init batch rest hsent hbatch ↦ ?_⟩
    · simp only [hsame]
      exact h.cursor
    · simp only [hsame]
      exact h.sent
    · obtain ⟨hrest, hclosed, hcursor, -⟩ := h.final init batch rest hsent hbatch
      exact ⟨hrest, hclosed, by simp only [hsame]; exact hcursor, .inr hroom⟩
  · have hnext := accepted_concat_of_room hroom out
    have hopen : ¬ s.Over := by
      rintro (hdone | hfull)
      · rw [hworker] at hdone
        cases hdone
      · exact hroom hfull
    have hjob := h.retains.output hroom hout
    rw [← hnext] at hjob
    refine ⟨hjob, ?_, fun hfinished ↦ ?_, fun hgaps ↦ ?_, fun init batch rest hsent hbatch ↦ ?_⟩
    · simp only [hnext, List.length_append]
      exact Nat.le_trans h.cursor (Nat.le_add_right _ _)
    · apply absurd (h.finished _) hopen
      simp only [Job.output, h.retains.next, if_neg hroom] at hfinished
      exact hfinished
    · simp only [hnext, Job.chunksOf_concat]
      rw [List.take_append_of_le_length (by rw [Job.length_chunksOf]; exact h.cursor)]
      exact h.sent hgaps
    · exact absurd (h.final init batch rest hsent hbatch).2.2.2 hopen

private theorem Serves.serve (h : Serves base64 s) (hopen : s.closed = false) :
    Serves base64 s.serve := by
  obtain ⟨batch, heq, hreads⟩ := h.retains.read h.cursor
  unfold Remote.serve
  rw [heq]
  simp only
  refine ⟨?_, hreads.cursor_le h.cursor, fun hfinished ↦ h.finished ?_, fun hgaps ↦ ?_,
    fun init final rest hsent hfinal ↦ ?_⟩
  · simp only
    split
    · exact h.retains.cancel false
    · exact h.retains
  · simp only at hfinished
    split at hfinished
    · rw [finished_cancel] at hfinished
      exact hfinished
    · exact hfinished
  · have hbefore := h.sent fun other hother ↦ hgaps other (List.mem_append_left _ hother)
    obtain ⟨⟨rest, hrest⟩, hcursor⟩ := hreads.of_gap_eq_false (hgaps batch (by simp))
    simp only [List.flatMap_append, hbefore, hcursor, List.take_add, ← hrest, List.take_left]
    simp
  · -- Nothing sent before was final, or serve had ended.
    have hlast : rest = [] ∧ final = batch := by
      cases rest using List.reverseRecOn with
      | nil =>
        obtain ⟨-, hone⟩ := List.append_inj' hsent rfl
        exact ⟨rfl, (List.cons.inj hone).1.symm⟩
      | append_singleton rest last =>
        rw [← List.cons_append, ← List.append_assoc] at hsent
        obtain ⟨hbefore, -⟩ := List.append_inj' hsent rfl
        have hclosed := (h.final init final rest hbefore hfinal).2.1
        rw [hopen] at hclosed
        cases hclosed
    obtain ⟨rfl, rfl⟩ := hlast
    have hdone := hfinal
    simp only [JobRead.isFinal, Bool.and_eq_true, beq_iff_eq, hreads.summary] at hdone
    exact ⟨rfl, hfinal, hdone.2.trans h.retains.next, h.finished hdone.1⟩

private theorem serves_step (s : Remote) (e : Event) (s' : Remote) (h : Serves base64 s)
    (_ : anyStep s e) (hs : s.step base64 e = some s') : Serves base64 s' := by
  cases e with
  | launch pid =>
    obtain ⟨hworker, ⟨⟩⟩ := Option.ite_none_right_eq_some.mp hs
    refine h.of_job (h.retains.setStatus _) (fun hdone ↦ ?_) (fun hfinished ↦ ?_)
    · rw [hworker] at hdone
      cases hdone
    · cases hfinished
  | output out =>
    obtain ⟨⟨hworker, hout⟩, ⟨⟩⟩ := Option.ite_none_right_eq_some.mp hs
    exact h.output hworker hout
  | finish status =>
    obtain ⟨-, ⟨⟩⟩ := Option.ite_none_right_eq_some.mp hs
    exact h.of_job (h.retains.setStatus _) (fun _ ↦ rfl) (fun _ ↦ .inl rfl)
  | cancel timedOut =>
    obtain rfl := Option.some.inj hs
    refine h.of_job (h.retains.cancel _) id fun hfinished ↦ ?_
    rw [finished_cancel] at hfinished
    exact h.finished hfinished
  | serve =>
    simp only [step] at hs
    split at hs
    · cases hs
    · next hopen =>
      obtain rfl := Option.some.inj hs
      exact h.serve (by simpa using hopen)

end Remote

/-! ### Lines -/

private theorem readLines_of_fits {body : List UInt8} (hbody : newline ∉ body)
    (rest line : List UInt8) (hfits : line.length + body.length + 1 < lineLimit) :
    readLines line (body ++ newline :: rest) = (line ++ body ++ [newline]) :: readLines [] rest := by
  induction body generalizing line with
  | nil => simp [readLines]
  | cons byte body ih =>
    rw [List.mem_cons, not_or] at hbody
    rw [List.length_cons] at hfits
    have hmore : ¬ (byte = newline ∨ line.length + 1 = lineLimit) := by
      rintro (heq | hfull)
      · exact hbody.1 heq.symm
      · omega
    rw [List.cons_append, readLines, if_neg hmore, ih hbody.2 (line ++ [byte]) (by simp; omega)]
    simp

private theorem readLines_of_not_fits {body : List UInt8} (hbody : newline ∉ body)
    (rest line : List UInt8) (hline : newline ∉ line) (hlen : line.length < lineLimit)
    (hrest : rest = [] ∨ lineLimit ≤ line.length + body.length + 1) :
    ∃ first others, readLines line (body ++ rest) = first :: others ∧
      ¬ (first.length < lineLimit ∧ first.getLast? = some newline) := by
  induction body generalizing line with
  | nil =>
    cases rest with
    | nil =>
      refine ⟨line, [], rfl, fun hfirst ↦ ?_⟩
      exact hline (List.mem_of_getLast? hfirst.2)
    | cons byte rest =>
      have hfull : line.length + 1 = lineLimit := by
        simp only [reduceCtorEq, false_or, List.length_nil] at hrest
        omega
      refine ⟨line ++ [byte], readLines [] rest, by simp [readLines, hfull], fun hfirst ↦ ?_⟩
      rw [List.length_append, List.length_singleton] at hfirst
      omega
  | cons byte body ih =>
    rw [List.mem_cons, not_or] at hbody
    by_cases hfull : line.length + 1 = lineLimit
    · refine ⟨line ++ [byte], readLines [] (body ++ rest), by simp [readLines, hfull],
        fun hfirst ↦ ?_⟩
      rw [List.length_append, List.length_singleton] at hfirst
      omega
    · have hmore : ¬ (byte = newline ∨ line.length + 1 = lineLimit) := by
        rintro (heq | hlimit)
        · exact hbody.1 heq.symm
        · exact hfull hlimit
      rw [List.cons_append, readLines, if_neg hmore]
      apply ih hbody.2
      · simp only [List.mem_append, List.mem_singleton, not_or]
        exact ⟨hline, fun heq ↦ hbody.1 heq⟩
      · rw [List.length_append, List.length_singleton]
        omega
      · rw [List.length_cons] at hrest
        rw [List.length_append, List.length_singleton]
        exact hrest.imp_right fun hlimit ↦ by omega

/-! ### The relay -/

namespace Relayed

variable {base64 : Base64} {json : JsonLine}

/-- The output that a chunk carries. -/
private def outputOf (base64 : Base64) (chunk : JobChunk) : Option Output :=
  (base64.decode chunk.data).map (⟨chunk.stream, ·⟩)

private theorem outputOf_chunksOf (log : List Output) :
    (Job.chunksOf base64 log).map (outputOf base64) = log.map some := by
  induction log using List.reverseRecOn with
  | nil => rfl
  | append_singleton log out ih =>
    rw [Job.chunksOf_concat, List.map_append, List.map_append, ih]
    simp [outputOf, base64.decode_encode]

variable {r r' : Relayed}

private theorem calls_of_deliver {chunks : List JobChunk} (h : r.deliver base64 chunks = .ok r') :
    ∃ outs, chunks.map (outputOf base64) = outs.map some ∧ r'.calls = r.calls ++ outs := by
  induction chunks generalizing r with
  | nil =>
    obtain rfl := Except.ok.inj h
    exact ⟨[], rfl, by simp⟩
  | cons chunk chunks ih =>
    simp only [deliver] at h
    split at h
    · cases h
    · next bytes hbytes =>
      obtain ⟨outs, houts, hcalls⟩ := ih h
      refine ⟨⟨chunk.stream, bytes⟩ :: outs, ?_, ?_⟩
      · simp [outputOf, hbytes, houts]
      · simp [hcalls]

private theorem run_line {batch : JobRead} {lines : List (List UInt8)}
    (hbatch : json.RoundTrips batch) (h : r.run base64 json (json.line batch :: lines) = .ok r') :
    batch.gap = false ∧ ∃ outs, batch.chunks.map (outputOf base64) = outs.map some ∧
      (batch.isFinal = true ∧ r'.calls = r.calls ++ outs ∨
        ∃ next : Relayed, next.calls = r.calls ++ outs ∧
          next.run base64 json lines = .ok r') := by
  unfold run at h
  split at h
  · rw [hbatch.decode] at h
    simp only at h
    split at h
    · cases h
    · next hgap =>
      split at h
      · cases h
      · next delivered hdelivered =>
        obtain ⟨outs, houts, hcalls⟩ := calls_of_deliver hdelivered
        refine ⟨by simpa using hgap, outs, houts, ?_⟩
        split at h
        · next hfinal =>
          obtain rfl := Except.ok.inj h
          exact .inl ⟨hfinal, hcalls⟩
        · split at h
          · refine .inr ⟨_, ?_, h⟩
            exact hcalls
          · refine .inr ⟨_, ?_, h⟩
            exact hcalls
  · cases h

private theorem run_incomplete {lines : List (List UInt8)} {first : List UInt8}
    {others : List (List UInt8)} (hlines : lines = first :: others)
    (hfirst : ¬ (first.length < lineLimit ∧ first.getLast? = some newline)) :
    r.run base64 json lines ≠ .ok r' := by
  rw [hlines]
  unfold run
  rw [if_neg fun hline ↦ hfirst hline.2]
  exact fun h ↦ by cases h

private theorem delivered_of_run {sent : List JobRead}
    (hjson : ∀ batch ∈ sent, json.RoundTrips batch) {stream : List UInt8}
    (hstream : stream <+: json.wire sent) (h : r.run base64 json (readLines [] stream) = .ok r') :
    ∃ init final rest outs, sent = init ++ final :: rest ∧ final.isFinal = true ∧
      (∀ batch ∈ init ++ [final], batch.gap = false) ∧
      ((init ++ [final]).flatMap (·.chunks)).map (outputOf base64) = outs.map some ∧
      r'.calls = r.calls ++ outs := by
  induction sent generalizing stream r with
  | nil =>
    obtain rfl : stream = [] := List.prefix_nil.mp hstream
    exact absurd h (run_incomplete rfl (by simp))
  | cons batch sent ih =>
    have hbatch := hjson batch List.mem_cons_self
    have hwire : json.wire (batch :: sent) = json.line batch ++ json.wire sent := by
      simp [JsonLine.wire]
    rw [hwire] at hstream
    by_cases hwhole : json.line batch <+: stream
    · obtain ⟨others, rfl⟩ := hwhole
      have hothers := (List.prefix_append_right_inj _).mp hstream
      by_cases hfits : (json.encode batch).length + 1 < lineLimit
      · have hlines : readLines [] (json.line batch ++ others) =
            json.line batch :: readLines [] others := by
          rw [JsonLine.line, List.append_assoc, List.singleton_append,
            readLines_of_fits hbatch.newline others [] (by simpa using hfits), List.nil_append]
        rw [hlines] at h
        obtain ⟨hgap, outs, houts, ⟨hfinal, hcalls⟩ | ⟨next, hnext, hrun⟩⟩ := run_line hbatch h
        · refine ⟨[], batch, sent, outs, rfl, hfinal, by simpa using hgap, ?_, hcalls⟩
          simpa using houts
        · obtain ⟨init, final, rest, more, rfl, hfinal, hgaps, hmore, hcalls⟩ :=
            ih (fun other hother ↦ hjson other (List.mem_cons_of_mem _ hother)) hothers hrun
          refine ⟨batch :: init, final, rest, outs ++ more, rfl, hfinal, ?_, ?_, ?_⟩
          · intro other hother
            rw [List.cons_append, List.mem_cons] at hother
            obtain rfl | hother := hother
            · exact hgap
            · exact hgaps other hother
          · rw [List.cons_append, List.flatMap_cons, List.map_append, houts, hmore,
              List.map_append]
          · rw [hcalls, hnext, List.append_assoc]
      · rw [JsonLine.line, List.append_assoc] at h
        obtain ⟨first, rest, hlines, hfirst⟩ := readLines_of_not_fits hbatch.newline
          ([newline] ++ others) [] (by simp) (by decide)
          (.inr (by simp only [List.length_nil]; omega))
        exact absurd h (run_incomplete hlines hfirst)
    · have hcut : stream <+: json.encode batch := by
        have hline : stream <+: json.line batch :=
          (List.prefix_or_prefix_of_prefix hstream (List.prefix_append _ _)).resolve_right hwhole
        obtain rfl | hcut := List.prefix_concat_iff.mp hline
        · exact absurd (List.prefix_refl _) hwhole
        · exact hcut
      obtain ⟨first, rest, hlines, hfirst⟩ := readLines_of_not_fits
        (fun hmem ↦ hbatch.newline (hcut.subset hmem)) [] [] (by simp) (by decide) (.inl rfl)
      rw [List.append_nil] at hlines
      exact absurd h (run_incomplete hlines hfirst)

private theorem calls_of_run {id host program cwd : String} {remote : Remote}
    (hremote : Reaches (Remote.step base64) anyStep (Remote.new id host program cwd) remote)
    (hjson : ∀ batch ∈ remote.sent, json.RoundTrips batch) {stream : List UInt8}
    (hstream : stream <+: json.wire remote.sent) {job : Job} {relayed : Relayed}
    (h : Relayed.run base64 json ⟨job, []⟩ (readLines [] stream) = .ok relayed) :
    relayed.calls = accepted remote.calls := by
  have hserves := hremote.invariant (Remote.serves_new id host program cwd) Remote.serves_step
  obtain ⟨init, final, rest, outs, hsent, hfinal, hgaps, houts, hcalls⟩ :=
    delivered_of_run hjson hstream h
  obtain ⟨rfl, -, hcursor, -⟩ := hserves.final init final rest hsent hfinal
  have hchunks := hserves.sent (by rw [hsent]; exact hgaps)
  rw [hcursor, List.take_of_length_le (by simp), hsent] at hchunks
  rw [hchunks, outputOf_chunksOf] at houts
  rw [hcalls, List.nil_append]
  exact (List.map_injective_iff.mpr (fun _ _ heq ↦ Option.some.inj heq) houts).symm

end Relayed

/-- Job output is delivered once and in order, or reported lost, also by the relay of a remote
job. -/
theorem job_output_delivered_once_or_reported (base64 : Base64) :
    (∀ (id host program cwd : String) (history : List Op), Reading.FromReaders history →
      (Reading.run base64 (Job.new id host program cwd) history).Reliable base64) ∧
    ∀ (json : JsonLine) (id host program cwd : String) (remote : Remote),
      Reaches (Remote.step base64) anyStep (Remote.new id host program cwd) remote →
      (∀ batch ∈ remote.sent, json.RoundTrips batch) →
      ∀ (stream : List UInt8) (job : Job) (relayed : Relayed), stream <+: json.wire remote.sent →
        Relayed.run base64 json ⟨job, []⟩ (readLines [] stream) = .ok relayed →
        relayed.calls = accepted remote.calls ∧
          (remote.calls.length < 2 ^ 64 → relayed.calls = remote.calls) := by
  refine ⟨fun id host program cwd history hreaders ↦
    Reading.reliable_run base64 id host program cwd hreaders, ?_⟩
  intro json id host program cwd remote hremote hjson stream job relayed hstream hrun
  have hcalls := Relayed.calls_of_run hremote hjson hstream hrun
  refine ⟨hcalls, fun hlen ↦ ?_⟩
  rw [hcalls, accepted, List.take_of_length_le]
  rw [maxU64]
  omega

/-- A job that prints a word and ends before it is read. -/
private def printed : List Remote.Event :=
  [.launch 7, .output ⟨.stdout, [104, 105]⟩, .finish (.exited (some 0) none), .serve]

private def printedRead : JobRead where
  job := ⟨"j", "Local", "p", "/", .exited (some 0) none, false, false, 1, 0⟩
  chunks := [⟨1, .stdout, [97, 71, 107, 61]⟩]
  cursor := 1
  gap := false

private def printedJson : List UInt8 :=
  ["\x7b\"job\":\x7b\"id\":\"j\",\"host\":\"Local\",\"program\":\"p\",\"cwd\":\"/\",",
    "\"status\":\x7b\"state\":\"exited\",\"code\":0,\"signal\":null\x7d,",
    "\"cancel_requested\":false,\"timed_out\":false,\"next_cursor\":1,\"retained_from\":0,",
    "\"transfer\":null\x7d,\"chunks\":[\x7b\"sequence\":1,\"stream\":\"stdout\",",
    "\"data\":\"aGk=\"\x7d],\"cursor\":1,\"gap\":false\x7d"].flatMap (·.toUTF8.data.toList)

/-- JSON on that read. -/
private def printedLine : JsonLine where
  encode _ := printedJson
  decode line := if line = printedJson ++ [newline] then some printedRead else none

private theorem roundTrips_printedRead : printedLine.RoundTrips printedRead :=
  ⟨by decide +kernel, by simp [printedLine, JsonLine.line]⟩

private theorem run_printed (job : Job) : ∃ relayed, relayed.calls = [⟨.stdout, [104, 105]⟩] ∧
    Relayed.run .standard printedLine ⟨job, []⟩
      (readLines [] (printedLine.wire [printedRead])) = .ok relayed := by
  have hfits : (printedLine.encode printedRead).length + 1 < lineLimit := by decide +kernel
  have hlines : readLines [] (printedLine.wire [printedRead]) =
      [printedLine.line printedRead, []] := by
    rw [JsonLine.wire, List.flatMap_singleton, JsonLine.line,
      readLines_of_fits roundTrips_printedRead.newline [] [] (by simpa using hfits),
      List.nil_append, readLines]
  have hline : 0 < (printedLine.line printedRead).length ∧
      (printedLine.line printedRead).length < lineLimit ∧
      (printedLine.line printedRead).getLast? = some newline := by
    simpa [JsonLine.line] using hfits
  have hdeliver : ∃ delivered, delivered.calls = [⟨.stdout, [104, 105]⟩] ∧
      Relayed.deliver .standard ⟨job, []⟩ printedRead.chunks = .ok delivered := ⟨_, rfl, rfl⟩
  obtain ⟨delivered, hcalls, hdelivered⟩ := hdeliver
  refine ⟨(delivered.mergeFlags printedRead.job).setStatus printedRead.job.status, hcalls, ?_⟩
  rw [hlines, Relayed.run, if_pos hline, roundTrips_printedRead.decode]
  simp only [hdelivered]
  rfl

/-- The word is delivered: a reader gets it, and so does the relay's local job. -/
theorem job_output_delivered_once_or_reported_printed :
    (Reading.run .standard (Job.new "j" "Local" "p" "/")
        [.output ⟨.stdout, [104, 105]⟩, .read]).Reliable .standard ∧
    ∃ remote relayed,
      Reaches (Remote.step .standard) anyStep (Remote.new "j" "Local" "p" "/") remote ∧
      Relayed.run .standard printedLine ⟨Job.new "k" "host" "p" "/", []⟩
        (readLines [] (printedLine.wire remote.sent)) = .ok relayed ∧
      relayed.calls = [⟨.stdout, [104, 105]⟩] ∧
      (relayed.calls = accepted remote.calls ∧
        (remote.calls.length < 2 ^ 64 → relayed.calls = remote.calls)) := by
  obtain ⟨hreader, hrelay⟩ := job_output_delivered_once_or_reported .standard
  refine ⟨hreader _ _ _ _ _ (by simp [Reading.FromReaders, readerBuffer]), ?_⟩
  have hrun : ((runEvents (Remote.step .standard) anyTest (Remote.new "j" "Local" "p" "/")
      printed).map fun remote ↦ decide (remote.sent = [printedRead])) = some true := by
    decide +kernel
  obtain ⟨remote, hremote, hsent⟩ := exists_reaches_anyStep hrun
  rw [decide_eq_true_eq] at hsent
  obtain ⟨relayed, hcalls, hok⟩ := run_printed (Job.new "k" "host" "p" "/")
  rw [← hsent] at hok
  refine ⟨remote, relayed, hremote, hok, hcalls, ?_⟩
  apply hrelay printedLine _ _ _ _ remote hremote _ _ _ relayed (List.prefix_refl _) hok
  intro batch hbatch
  rw [hsent, List.mem_singleton] at hbatch
  rw [hbatch]
  exact roundTrips_printedRead

end Bootty.Host
