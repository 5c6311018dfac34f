import Bootty.Base.Machine
import Bootty.Host.Jobs
import Mathlib.Data.List.Nodup

/-!
# The registry of jobs

Model of `JobRegistry` (`crates/bootty-host/src/jobs.rs:265–315, 364–514`): jobs are started and
forgotten while their own threads change them, and the owner retires. The registry holds its lock
while a job is started, so nobody else reads or changes the table then; whether the owner is active
is read at the beginning of that, and may change before its end.
-/

namespace Bootty.Host

open Bootty.Base

/-- What a call of `start_work` is given: a refusal of the job's description, the texts of the
summary, the random part of its identity or a failure to get one, and whether the deadline is in
range. -/
structure StartRequest where
  refusal : Option String
  host : String
  program : String
  cwd : String
  random : Except String String
  deadlineInRange : Bool

/-- A change that a job's own threads make. -/
inductive JobChange where
  | status (status : JobStatus)
  | output (out : Output)
  | cancel (timedOut : Bool)

/-- How far the owner is with `retire`: the flag is cleared, then the jobs are collected, then they
are cancelled one by one. -/
inductive RetirePhase where
  | running
  | cleared
  | cancelling (ids : List String)
  deriving DecidableEq, Repr

/-- The table, the flag, the call of `start_work` that has the lock, and the owner. -/
structure JobRegistry where
  jobs : List (String × Job)
  active : Bool
  starting : Option StartRequest
  retire : RetirePhase

/-- What the threads of jobs and owner do. -/
inductive RegistryEvent where
  /-- `start_work` takes the lock and looks whether the owner is active. -/
  | check (request : StartRequest)
  /-- The rest of `start_work`. -/
  | insert
  | change (id : String) (change : JobChange)
  | cancel (id : String)
  | forget (id : String)
  | clear
  | collect
  | cancelNext

/-- One change of a job. -/
def JobChange.apply (base64 : Base64) (job : Job) : JobChange → Job
  | .status value => job.setStatus value
  | .output out => job.output base64 out
  | .cancel timedOut => job.cancel timedOut

namespace JobRegistry

/-- How many jobs may run. -/
def runningLimit : Nat := 8

/-- How many jobs are kept. -/
def historyLimit : Nat := 64

/-- How many bytes the summaries may have. -/
def metadataLimit : Nat := 512 * 1024

/-- A registry without jobs. -/
def new : JobRegistry := ⟨[], true, none, .running⟩

/-- The entry of an unfinished job. -/
def unfinished (entry : String × Job) : Bool := !entry.2.summary.status.finished

/-- `start_work` once the owner is known to be active, `jobs.rs:371–446`. The length of the encoded
summaries is given. -/
def insertJob (encodedLen : List JobSummary → Nat) (jobs : List (String × Job))
    (request : StartRequest) : Except String JobSummary × List (String × Job) :=
  if runningLimit ≤ jobs.countP unfinished then
    (.error "at most eight jobs may run per owner", jobs)
  else if historyLimit ≤ jobs.length then
    (.error "job history is full; forget completed jobs before starting another", jobs)
  else
    match request.random with
    | .error error => (.error ("job identity: " ++ error), jobs)
    | .ok random =>
      let id := "job-" ++ random
      let job := Job.new id request.host request.program request.cwd
      if metadataLimit < encodedLen (jobs.map (·.2.summary) ++ [job.summary]) then
        (.error "Job metadata history is full; forget completed jobs", jobs)
      else if !request.deadlineInRange then (.error "job deadline is out of range", jobs)
      else (.ok job.summary, jobs.filter (·.1 != id) ++ [(id, job)])

/-- `forget`, `jobs.rs:491–514`. -/
def forgetJob (jobs : List (String × Job)) (id : String) :
    Except String Unit × List (String × Job) :=
  match jobs.find? (·.1 == id) with
  | none => (.error "unknown job", jobs)
  | some entry =>
    if unfinished entry then (.error "cancel and wait for the job before forgetting it", jobs)
    else (.ok (), jobs.filter (·.1 != id))

/-- A job of the table changes. -/
def changeJob (jobs : List (String × Job)) (id : String) (f : Job → Job) : List (String × Job) :=
  jobs.map fun entry ↦ if entry.1 = id then (entry.1, f entry.2) else entry

variable (base64 : Base64) (encodedLen : List JobSummary → Nat)

/-- One event, where it can happen. -/
def step (s : JobRegistry) : RegistryEvent → Option JobRegistry
  | .check request =>
    if s.starting.isNone then
      if request.refusal.isNone && s.active then some { s with starting := some request }
      else some s
    else none
  | .insert =>
    s.starting.map fun request ↦
      { s with jobs := (insertJob encodedLen s.jobs request).2, starting := none }
  | .change id change =>
    some { s with jobs := changeJob s.jobs id (change.apply base64) }
  | .cancel id => some { s with jobs := changeJob s.jobs id (Job.cancel · false) }
  | .forget id =>
    if s.starting.isNone then some { s with jobs := (forgetJob s.jobs id).2 } else none
  | .clear =>
    if s.retire = .running then some { s with active := false, retire := .cleared } else none
  | .collect =>
    if s.retire = .cleared ∧ s.starting.isNone then
      some { s with retire := .cancelling (s.jobs.map Prod.fst) }
    else none
  | .cancelNext =>
    match s.retire with
    | .cancelling (id :: rest) =>
      some { s with jobs := changeJob s.jobs id (Job.cancel · false), retire := .cancelling rest }
    | _ => none

/-- A job's threads do not take back that it has finished. -/
def KeepsFinished (s : JobRegistry) : RegistryEvent → Prop
  | .change id (.status status) => ∀ job, (id, job) ∈ s.jobs →
    job.summary.status.finished = true → status.finished = true
  | _ => True

/-! ### What an operation does to the table -/

/-- The job has been told to stop, or has stopped. -/
def Stopped (job : Job) : Prop :=
  job.summary.cancelRequested = true ∨ job.summary.status.finished = true

variable {base64 : Base64} {encodedLen : List JobSummary → Nat}

private theorem cancel_stopped (job : Job) (timedOut : Bool) : Stopped (job.cancel timedOut) := by
  rw [Job.cancel]
  split
  · next hfinished => exact .inr hfinished
  · exact .inl rfl

private theorem cancel_status (job : Job) (timedOut : Bool) :
    (job.cancel timedOut).summary.status = job.summary.status := by
  rw [Job.cancel]
  split <;> rfl

private theorem output_spec (base64 : Base64) (job : Job) (out : Output) :
    (job.summary.status.finished = true → (job.output base64 out).summary.status.finished = true) ∧
    (Stopped job → Stopped (job.output base64 out)) := by
  rw [Job.output]
  split
  · exact ⟨fun _ ↦ rfl, fun _ ↦ .inr rfl⟩
  · exact ⟨id, id⟩

variable {job : Job}

/-- A change that the threads make keeps what has stopped, and what has finished. -/
theorem apply_spec {s : JobRegistry} {id : String} {change : JobChange}
    (hallowed : s.KeepsFinished (.change id change)) (hmem : (id, job) ∈ s.jobs) :
    (job.summary.status.finished = true →
      (change.apply base64 job).summary.status.finished = true) ∧
    (Stopped job → Stopped (change.apply base64 job)) := by
  cases change with
  | status status =>
    have hkeeps := hallowed job hmem
    exact ⟨hkeeps, fun hstopped ↦ hstopped.imp_right hkeeps⟩
  | output out => exact output_spec base64 job out
  | cancel timedOut =>
    refine ⟨fun hfinished ↦ ?_, fun _ ↦ cancel_stopped job timedOut⟩
    rwa [JobChange.apply, cancel_status]

/-- The changes of a table that keep its jobs and let none that has finished go on. -/
structure Tame (s : List (String × Job)) (id : String) (f : Job → Job) : Prop where
  finished : ∀ job, (id, job) ∈ s → job.summary.status.finished = true →
    (f job).summary.status.finished = true
  stopped : ∀ job, (id, job) ∈ s → Stopped job → Stopped (f job)

private theorem tame_cancel (jobs : List (String × Job)) (id : String) (timedOut : Bool) :
    Tame jobs id (Job.cancel · timedOut) :=
  ⟨fun job _ hfinished ↦ by rwa [cancel_status], fun job _ _ ↦ cancel_stopped job timedOut⟩

variable {jobs : List (String × Job)} {f : Job → Job}

private theorem mem_changeJob {id other : String} (h : (other, job) ∈ changeJob jobs id f) :
    other ≠ id ∧ (other, job) ∈ jobs ∨
      other = id ∧ ∃ before, (id, before) ∈ jobs ∧ job = f before := by
  obtain ⟨entry, hentry, heq⟩ := List.mem_map.mp h
  by_cases hid : entry.1 = id
  · rw [if_pos hid, Prod.mk.injEq] at heq
    obtain ⟨hother, hjob⟩ := heq
    refine .inr ⟨hother.symm.trans hid, entry.2, ?_, hjob.symm⟩
    rwa [← hid]
  · rw [if_neg hid] at heq
    subst heq
    exact .inl ⟨hid, hentry⟩

private theorem exists_mem_changeJob (id : String) (f : Job → Job) {other : String}
    (h : (other, job) ∈ jobs) :
    ∃ job', (other, job') ∈ changeJob jobs id f := by
  refine ⟨if other = id then f job else job, List.mem_map.mpr ⟨(other, job), h, ?_⟩⟩
  split <;> rfl

private theorem Tame.countP {id : String} (h : Tame jobs id f) :
    (changeJob jobs id f).countP unfinished ≤ jobs.countP unfinished := by
  rw [changeJob, List.countP_map]
  refine List.countP_mono_left fun entry hentry hafter ↦ ?_
  rw [Function.comp_apply] at hafter
  by_cases hid : entry.1 = id
  · rw [if_pos hid] at hafter
    cases hfinished : entry.2.summary.status.finished with
    | false => rw [unfinished, hfinished, Bool.not_false]
    | true =>
      have hkept := h.finished entry.2 (hid ▸ hentry) hfinished
      rw [unfinished, hkept] at hafter
      cases hafter
  · rwa [if_neg hid] at hafter

private theorem insertJob_cases (encodedLen : List JobSummary → Nat) (jobs : List (String × Job))
    (request : StartRequest) :
    (insertJob encodedLen jobs request).2 = jobs ∨
      jobs.countP unfinished < runningLimit ∧ jobs.length < historyLimit ∧ ∃ id job,
        (insertJob encodedLen jobs request).2 = jobs.filter (·.1 != id) ++ [(id, job)] := by
  rw [insertJob]
  split
  · exact .inl rfl
  · next hrunning =>
    split
    · exact .inl rfl
    · next hhistory =>
      split
      · exact .inl rfl
      · simp only
        split
        · exact .inl rfl
        · split
          · exact .inl rfl
          · exact .inr ⟨Nat.lt_of_not_le hrunning, Nat.lt_of_not_le hhistory, _, _, rfl⟩

private theorem forgetJob_cases (jobs : List (String × Job)) (id : String) :
    (forgetJob jobs id).2 = jobs ∨
      (∃ entry, jobs.find? (·.1 == id) = some entry ∧ unfinished entry = false) ∧
        (forgetJob jobs id).2 = jobs.filter (·.1 != id) := by
  rw [forgetJob]
  split
  · exact .inl rfl
  · next entry hfind =>
    split
    · exact .inl rfl
    · next hfinished => exact .inr ⟨⟨entry, hfind, by simpa using hfinished⟩, rfl⟩

/-! ### Every run -/

/-- The table is bounded, names a job once, and the owner that has collected the jobs has left none
running that it has not told to stop or is not about to. -/
structure Sound (s : JobRegistry) : Prop where
  running : s.jobs.countP unfinished ≤ runningLimit
  history : s.jobs.length ≤ historyLimit
  nodup : (s.jobs.map Prod.fst).Nodup
  active : s.retire ≠ .running → s.active = false
  alone : ∀ ids, s.retire = .cancelling ids → s.starting = none
  stopped : ∀ ids, s.retire = .cancelling ids → ∀ id job, (id, job) ∈ s.jobs →
    id ∈ ids ∨ Stopped job

variable {s s' : JobRegistry}

private theorem sound_new : new.Sound := by
  constructor
  · exact Nat.zero_le _
  · exact Nat.zero_le _
  · exact List.nodup_nil
  · exact fun h ↦ absurd rfl h
  · exact fun _ h ↦ by cases h
  · exact fun _ h ↦ by cases h

private theorem map_fst_changeJob (jobs : List (String × Job)) (id : String) (f : Job → Job) :
    (changeJob jobs id f).map Prod.fst = jobs.map Prod.fst := by
  rw [changeJob, List.map_map]
  refine List.map_congr_left fun entry _ ↦ ?_
  rw [Function.comp_apply]
  split <;> rfl

private theorem Sound.change {id : String} (h : s.Sound) (htame : Tame s.jobs id f) :
    Sound { s with jobs := changeJob s.jobs id f } := by
  refine ⟨htame.countP.trans h.running, ?_, ?_, h.active, h.alone, fun ids hids other job hmem ↦ ?_⟩
  · rw [changeJob, List.length_map]
    exact h.history
  · rw [map_fst_changeJob]
    exact h.nodup
  · have hmem' : (other, job) ∈ changeJob s.jobs id f := hmem
    rcases mem_changeJob hmem' with ⟨-, hbefore⟩ | ⟨rfl, before, hbefore, rfl⟩
    · exact h.stopped ids hids other job hbefore
    · exact (h.stopped ids hids other before hbefore).imp id (htame.stopped before hbefore)

private theorem Sound.filter (h : s.Sound) (id : String) :
    Sound { s with jobs := s.jobs.filter (·.1 != id) } := by
  refine ⟨List.filter_sublist.countP_le.trans h.running,
    (List.length_filter_le ..).trans h.history, h.nodup.sublist (List.filter_sublist.map _),
    h.active, h.alone, fun ids hids other job hmem ↦ ?_⟩
  exact h.stopped ids hids other job (List.mem_filter.mp hmem).1

private theorem sound_insert (h : s.Sound) (hstep : s.step base64 encodedLen .insert = some s') :
    s'.Sound := by
  obtain ⟨request, hstarting, rfl⟩ := Option.map_eq_some_iff.mp hstep
  have hretire : ∀ ids, s.retire ≠ .cancelling ids := by
    intro ids hids
    rw [h.alone ids hids] at hstarting
    cases hstarting
  rcases insertJob_cases encodedLen s.jobs request with hsame | ⟨hrunning, hhistory, id, job, heq⟩
  · rw [hsame]
    exact ⟨h.running, h.history, h.nodup, h.active, fun _ _ ↦ rfl, h.stopped⟩
  · rw [heq]
    refine ⟨?_, ?_, ?_, h.active, fun _ _ ↦ rfl, fun ids hids ↦ absurd hids (hretire ids)⟩
    · have hfilter : (s.jobs.filter (·.1 != id)).countP unfinished ≤ s.jobs.countP unfinished :=
        List.filter_sublist.countP_le
      rw [List.countP_append, List.countP_singleton]
      split <;> omega
    · have hfilter := List.length_filter_le (fun entry ↦ entry.1 != id) s.jobs
      rw [List.length_append, List.length_singleton]
      omega
    · rw [List.map_append, List.nodup_append]
      refine ⟨h.nodup.sublist (List.filter_sublist.map _), by simp, ?_⟩
      intro other hother new hnew hsame
      obtain ⟨entry, hentry, rfl⟩ := List.mem_map.mp hother
      have hne := (List.mem_filter.mp hentry).2
      rw [List.map_singleton, List.mem_singleton] at hnew
      rw [hsame, hnew, bne_self_eq_false] at hne
      cases hne

private theorem sound_step {e : RegistryEvent} (h : s.Sound) (hallowed : s.KeepsFinished e)
    (hstep : s.step base64 encodedLen e = some s') : s'.Sound := by
  cases e with
  | check request =>
    obtain ⟨-, heq⟩ := Option.ite_none_right_eq_some.mp hstep
    split at heq
    · next hactive =>
      obtain rfl := Option.some.inj heq
      rw [Bool.and_eq_true] at hactive
      refine ⟨h.running, h.history, h.nodup, h.active, fun ids hids ↦ ?_, h.stopped⟩
      have hretire : s.retire = .cancelling ids := hids
      have hinactive := h.active (by rw [hretire]; exact RetirePhase.noConfusion)
      rw [hactive.2] at hinactive
      cases hinactive
    · obtain rfl := Option.some.inj heq
      exact h
  | insert => exact sound_insert h hstep
  | change id change =>
    obtain rfl := Option.some.inj hstep
    exact h.change ⟨fun job hmem ↦ (apply_spec hallowed hmem).1,
      fun job hmem ↦ (apply_spec hallowed hmem).2⟩
  | cancel id =>
    obtain rfl := Option.some.inj hstep
    exact h.change (tame_cancel s.jobs id false)
  | forget id =>
    obtain ⟨-, heq⟩ := Option.ite_none_right_eq_some.mp hstep
    obtain rfl := Option.some.inj heq
    rcases forgetJob_cases s.jobs id with hsame | ⟨-, hfilter⟩
    · rw [hsame]
      exact h
    · rw [hfilter]
      exact h.filter id
  | clear =>
    obtain ⟨hrunning, heq⟩ := Option.ite_none_right_eq_some.mp hstep
    obtain rfl := Option.some.inj heq
    exact ⟨h.running, h.history, h.nodup, fun _ ↦ rfl, by simp, by simp⟩
  | collect =>
    obtain ⟨⟨hcleared, hstarting⟩, heq⟩ := Option.ite_none_right_eq_some.mp hstep
    obtain rfl := Option.some.inj heq
    refine ⟨h.running, h.history, h.nodup, fun _ ↦ h.active (by simp [hcleared]),
      fun _ _ ↦ Option.isNone_iff_eq_none.mp hstarting, fun ids hids id job hmem ↦ .inl ?_⟩
    obtain rfl := RetirePhase.cancelling.inj hids
    exact List.mem_map.mpr ⟨(id, job), hmem, rfl⟩
  | cancelNext =>
    simp only [step] at hstep
    split at hstep
    · next id rest hretire =>
      obtain rfl := Option.some.inj hstep
      have hchanged := h.change (tame_cancel s.jobs id false)
      refine ⟨hchanged.running, hchanged.history, hchanged.nodup,
        fun _ ↦ h.active (by simp [hretire]), fun _ _ ↦ h.alone _ hretire,
        fun ids hids other job hmem ↦ ?_⟩
      obtain rfl := RetirePhase.cancelling.inj hids
      have hmem' : (other, job) ∈ changeJob s.jobs id (Job.cancel · false) := hmem
      rcases mem_changeJob hmem' with ⟨hne, -⟩ | ⟨-, before, -, rfl⟩
      · exact (hchanged.stopped _ hretire other job hmem).imp_left fun hid ↦
          (List.mem_cons.mp hid).resolve_left hne
      · exact .inr (cancel_stopped before false)
    · cases hstep

/-- The id of a job that has not finished stays in the table. Its job does too, unless a new one has
the same random id. -/
theorem keeps_unfinished {e : RegistryEvent} (h : s.Sound)
    (hstep : s.step base64 encodedLen e = some s') {id : String} (hmem : (id, job) ∈ s.jobs)
    (hunfinished : job.summary.status.finished = false) :
    ∃ job', (id, job') ∈ s'.jobs := by
  cases e with
  | check request =>
    obtain ⟨-, heq⟩ := Option.ite_none_right_eq_some.mp hstep
    split at heq <;> obtain rfl := Option.some.inj heq <;> exact ⟨job, hmem⟩
  | insert =>
    obtain ⟨request, -, rfl⟩ := Option.map_eq_some_iff.mp hstep
    rcases insertJob_cases encodedLen s.jobs request with hsame | ⟨-, -, other, new, heq⟩
    · rw [hsame]
      exact ⟨job, hmem⟩
    · rw [heq]
      by_cases hid : id = other
      · exact ⟨new, List.mem_append_right _ (by rw [hid]; exact List.mem_singleton_self _)⟩
      · exact ⟨job, List.mem_append_left _ (List.mem_filter.mpr ⟨hmem, by simpa using hid⟩)⟩
  | change other change =>
    obtain rfl := Option.some.inj hstep
    exact exists_mem_changeJob other (change.apply base64) hmem
  | cancel other =>
    obtain rfl := Option.some.inj hstep
    exact exists_mem_changeJob other (Job.cancel · false) hmem
  | forget other =>
    obtain ⟨-, heq⟩ := Option.ite_none_right_eq_some.mp hstep
    obtain rfl := Option.some.inj heq
    rcases forgetJob_cases s.jobs other with hsame | ⟨⟨entry, hfind, hfinished⟩, hfilter⟩
    · rw [hsame]
      exact ⟨job, hmem⟩
    · rw [hfilter]
      refine ⟨job, List.mem_filter.mpr ⟨hmem, ?_⟩⟩
      rw [bne_iff_ne]
      intro hid
      have hentry := List.mem_of_find?_eq_some hfind
      have hname := List.find?_some hfind
      have hname' : entry.1 = id := (beq_iff_eq.mp hname).trans hid.symm
      have hsame : entry = (id, job) :=
        List.inj_on_of_nodup_map h.nodup hentry hmem hname'
      rw [hsame, unfinished, hunfinished] at hfinished
      cases hfinished
  | clear =>
    obtain ⟨-, heq⟩ := Option.ite_none_right_eq_some.mp hstep
    obtain rfl := Option.some.inj heq
    exact ⟨job, hmem⟩
  | collect =>
    obtain ⟨-, heq⟩ := Option.ite_none_right_eq_some.mp hstep
    obtain rfl := Option.some.inj heq
    exact ⟨job, hmem⟩
  | cancelNext =>
    simp only [step] at hstep
    split at hstep
    · obtain rfl := Option.some.inj hstep
      exact exists_mem_changeJob _ (Job.cancel · false) hmem
    · cases hstep

/-- In every run a registry has at most eight unfinished jobs and 64 in all; it lets go of the id of
none that is unfinished; and once its owner has retired every job of it has been told to stop or has
stopped, also one whose start had passed the check before. -/
theorem registry_sound (h : Reaches (step base64 encodedLen) KeepsFinished new s) :
    s.jobs.countP unfinished ≤ runningLimit ∧ s.jobs.length ≤ historyLimit ∧
    (s.jobs.map Prod.fst).Nodup ∧
    (∀ e s', s.step base64 encodedLen e = some s' → ∀ id job, (id, job) ∈ s.jobs →
      job.summary.status.finished = false → ∃ job', (id, job') ∈ s'.jobs) ∧
    (s.retire = .cancelling [] → s.starting = none ∧ s.active = false ∧
      ∀ id job, (id, job) ∈ s.jobs → Stopped job) := by
  have hsound : s.Sound := h.invariant sound_new fun _ _ _ hs hallowed next ↦
    sound_step hs hallowed next
  refine ⟨hsound.running, hsound.history, hsound.nodup,
    fun _ _ hstep _ _ hmem hunfinished ↦ keeps_unfinished hsound hstep hmem hunfinished,
    fun hretire ↦ ⟨hsound.alone _ hretire, hsound.active (by simp [hretire]), ?_⟩⟩
  exact fun id job hmem ↦ (hsound.stopped _ hretire id job hmem).resolve_left List.not_mem_nil

/-- The owner retires while a start has the lock, and the job of that start is told to stop. -/
def sampleEvents : List RegistryEvent :=
  [.check ⟨none, "Local", "make", "/", .ok "1", true⟩, .clear, .insert, .collect, .cancelNext,
    .check ⟨none, "Local", "make", "/", .ok "2", true⟩]

/-- A test that only lets steps pass that change no status. -/
def quietTest (_ : JobRegistry) : RegistryEvent → Bool
  | .change _ _ => false
  | _ => true

private theorem keepsFinished_of_quietTest (s : JobRegistry) (e : RegistryEvent)
    (h : quietTest s e = true) : KeepsFinished s e := by
  cases e with
  | change id change => cases h
  | check | insert | cancel | forget | clear | collect | cancelNext => trivial

theorem registry_sound_sample : ∃ s : JobRegistry, s.jobs.length = 1 ∧
    ∀ id job, (id, job) ∈ s.jobs → Stopped job := by
  have hrun : (runEvents (step .standard List.length) quietTest new sampleEvents).map
      (fun s ↦ s.retire == .cancelling [] && s.jobs.length == 1) = some true := by
    decide +kernel
  obtain ⟨s, hreaches, hgoal⟩ := exists_reaches_of_runEvents keepsFinished_of_quietTest hrun
  rw [Bool.and_eq_true, beq_iff_eq, beq_iff_eq] at hgoal
  obtain ⟨-, -, -, -, hretired⟩ := registry_sound hreaches
  exact ⟨s, hgoal.2, (hretired hgoal.1).2.2⟩

end JobRegistry
end Bootty.Host
