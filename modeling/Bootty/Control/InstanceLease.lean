import Bootty.Base.Machine
import Mathlib.Logic.Function.Basic

/-!
# The lease of the running instance

Model of `ControlInstanceLease` (`crates/bootty-control/src/lease.rs:26–160`). One process at a time
may be the instance that serves the socket. Its descriptor is in a file that is read and written
only under the lock of a second file, which the system frees when its holder dies. A descriptor of a
process that is dead, or that is no descriptor of this program, is removed by whoever finds it. The
sockets themselves are left out.
-/

namespace Bootty.Control

open Bootty.Base

/-- `InstanceDescriptor`. -/
structure InstanceDescriptor where
  instanceId : String
  generation : Nat
  pid : Nat
  windowStateKey : String
  endpoint : String
  startedAtMs : Nat
  protocolVersion : Nat
  deriving DecidableEq, Repr

/-- What all processes of one version of the program agree on. -/
structure LeaseEnv where
  instanceId : String
  protocolVersion : Nat
  endpointForGeneration : Nat → String

/-- A thread that uses the lease: it has the lock and looks for a descriptor, either to claim the
lease or only to see it; it has claimed the lease and still has the lock; it has published its
descriptor; its lease is being dropped, without the lock or with it. -/
inductive LeasePhase where
  | idle
  | looking (pid startedAtMs : Nat) (claims : Bool)
  | claimed (descriptor : InstanceDescriptor)
  | published (descriptor : InstanceDescriptor)
  | dropping (descriptor : InstanceDescriptor)
  | cleaning (descriptor : InstanceDescriptor)
  deriving DecidableEq, Repr

namespace LeasePhase

/-- The descriptor that a phase holds. -/
def lease : LeasePhase → Option InstanceDescriptor
  | .idle | .looking .. => none
  | .claimed d | .published d | .dropping d | .cleaning d => some d

/-- The process of the thread, and when it started. -/
def process : LeasePhase → Option (Nat × Nat)
  | .idle => none
  | .looking pid startedAtMs _ => some (pid, startedAtMs)
  | .claimed d | .published d | .dropping d | .cleaning d => some (d.pid, d.startedAtMs)

/-- The thread has the lock. -/
def Locks : LeasePhase → Prop
  | .looking .. | .claimed _ | .cleaning _ => True
  | .idle | .published _ | .dropping _ => False

/-- The thread has the lease. -/
def Holds : LeasePhase → Prop
  | .claimed _ | .published _ => True
  | .idle | .looking .. | .dropping _ | .cleaning _ => False

end LeasePhase

/-- The process table, the descriptor file (which may hold what is no descriptor), the holder of the
lock and the threads. The last field is not in the code: the tokens generated so far. -/
structure LeaseSystem where
  processes : Nat → Option Nat
  file : Option (Option InstanceDescriptor)
  lock : Option Nat
  threads : Nat → LeasePhase
  tokens : List Nat

/-- What processes and threads do. -/
inductive LeaseEvent where
  | start (pid startedAtMs : Nat)
  | exit (pid : Nat)
  | lockInstance (thread pid : Nat) (claims : Bool)
  /-- `discover_locked`, and what `claim` does with its result. -/
  | look (thread generation : Nat) (windowStateKey : String)
  | publish (thread : Nat) (written : Bool)
  /-- `cleanup`: with the lock that the lease still has, or after another lock. -/
  | drop (thread : Nat)
  | relock (thread : Nat) (locked : Bool)
  | clean (thread : Nat)

namespace LeaseSystem

/-- Any process table and any file, with no thread. -/
def init (processes : Nat → Option Nat) (file : Option (Option InstanceDescriptor)) : LeaseSystem :=
  ⟨processes, file, none, fun _ ↦ .idle, []⟩

variable (env : LeaseEnv)

/-- The check of `lease.rs:117–119`. -/
def validNamespace (d : InstanceDescriptor) : Bool :=
  d.protocolVersion == env.protocolVersion && d.instanceId == env.instanceId &&
    d.endpoint == env.endpointForGeneration d.generation

/-- `discover_locked`: the result, and the file after it. -/
def discoverLocked (processes : Nat → Option Nat) :
    Option (Option InstanceDescriptor) →
      Option InstanceDescriptor × Option (Option InstanceDescriptor)
  | none => (none, none)
  | some none => (none, none)
  | some (some d) =>
    if !validNamespace env d then (none, none)
    else if processes d.pid ≠ some d.startedAtMs then (none, none)
    else (some d, some (some d))

/-- The descriptor that `claim` makes. -/
def descriptor (pid startedAtMs generation : Nat) (windowStateKey : String) : InstanceDescriptor :=
  ⟨env.instanceId, generation, pid, windowStateKey, env.endpointForGeneration generation,
    startedAtMs, env.protocolVersion⟩

/-- One thread gets into another phase. -/
def setThread (s : LeaseSystem) (thread : Nat) (phase : LeasePhase) : LeaseSystem :=
  { s with threads := Function.update s.threads thread phase }

/-- `remove_descriptor_if_matches`. -/
def removeDescriptorIfMatches (file : Option (Option InstanceDescriptor))
    (expected : InstanceDescriptor) : Option (Option InstanceDescriptor) :=
  if file = some (some expected) then none else file

/-- The threads of a process end with it. -/
def exitThread (pid : Nat) (phase : LeasePhase) : LeasePhase :=
  if phase.process.map Prod.fst = some pid then .idle else phase

/-- One event, where it can happen. -/
def step (s : LeaseSystem) : LeaseEvent → Option LeaseSystem
  | .start pid startedAtMs =>
    if s.processes pid = none then
      some { s with processes := Function.update s.processes pid (some startedAtMs) }
    else none
  | .exit pid =>
    some { s with
      processes := Function.update s.processes pid none
      threads := fun thread ↦ exitThread pid (s.threads thread)
      lock := s.lock.filter fun thread ↦ exitThread pid (s.threads thread) ≠ .idle }
  | .lockInstance thread pid claims =>
    match s.threads thread, s.processes pid, s.lock with
    | .idle, some startedAtMs, none =>
      some ({ s with lock := some thread }.setThread thread (.looking pid startedAtMs claims))
    | _, _, _ => none
  | .look thread generation windowStateKey =>
    match s.threads thread with
    | .looking pid startedAtMs claims =>
      let (found, file) := discoverLocked env s.processes s.file
      if claims ∧ found = none then
        some ({ s with file, tokens := generation :: s.tokens }.setThread thread
          (.claimed (descriptor env pid startedAtMs generation windowStateKey)))
      else some ({ s with file, lock := none }.setThread thread .idle)
    | _ => none
  | .publish thread written =>
    match s.threads thread with
    | .claimed d =>
      if written then
        some ({ s with file := some (some d), lock := none }.setThread thread (.published d))
      else some ({ s with lock := none }.setThread thread (.dropping d))
    | _ => none
  | .drop thread =>
    match s.threads thread with
    | .claimed d => some (s.setThread thread (.cleaning d))
    | .published d => some (s.setThread thread (.dropping d))
    | _ => none
  | .relock thread locked =>
    match s.threads thread, s.lock with
    | .dropping d, none =>
      if locked then some ({ s with lock := some thread }.setThread thread (.cleaning d))
      else some (s.setThread thread .idle)
    | _, _ => none
  | .clean thread =>
    match s.threads thread with
    | .cleaning d =>
      some ({ s with file := removeDescriptorIfMatches s.file d, lock := none }.setThread thread
        .idle)
    | _ => none

/-- The random tokens of two leases differ. -/
def FreshTokens (s : LeaseSystem) : LeaseEvent → Prop
  | .look _ generation _ => generation ∉ s.tokens
  | _ => True

/-! ### The invariant -/

/-- The lock has the holder that the threads say, a published descriptor of a running process is in
the file, and no thread has claimed the lease while another has published. -/
structure Sound (s : LeaseSystem) : Prop where
  lock : ∀ n, (s.threads n).Locks ↔ s.lock = some n
  live : ∀ n pid startedAtMs, (s.threads n).process = some (pid, startedAtMs) →
    s.processes pid = some startedAtMs
  published : ∀ n d, s.threads n = .published d → s.file = some (some d)
  valid : ∀ n d, (s.threads n).lease = some d → validNamespace env d = true
  tokens : ∀ n d, (s.threads n).lease = some d → d.generation ∈ s.tokens
  apart : ∀ n m d d', (s.threads n).lease = some d → (s.threads m).lease = some d' →
    d.generation = d'.generation → n = m
  claimed : ∀ n m d d', s.threads n = .claimed d → s.threads m ≠ .published d'

variable {env : LeaseEnv} {s s' : LeaseSystem}

private theorem threads_setThread_self (s : LeaseSystem) (n : Nat) (phase : LeasePhase) :
    (s.setThread n phase).threads n = phase :=
  Function.update_self ..

private theorem threads_setThread_ne (s : LeaseSystem) {n m : Nat} (phase : LeasePhase)
    (h : m ≠ n) :
    (s.setThread n phase).threads m = s.threads m :=
  Function.update_of_ne h ..

private theorem sound_init (processes : Nat → Option Nat)
    (file : Option (Option InstanceDescriptor)) :
    Sound env (init processes file) := by
  constructor
  · exact fun _ ↦ ⟨fun h ↦ absurd h id, fun h ↦ by cases h⟩
  · exact fun _ _ _ h ↦ by cases h
  · exact fun _ _ h ↦ by cases h
  · exact fun _ _ h ↦ by cases h
  · exact fun _ _ h ↦ by cases h
  · exact fun _ _ _ _ h ↦ by cases h
  · exact fun _ _ _ _ h ↦ by cases h

/-- What a thread does to the lock when it goes to a phase: nothing, or it takes the free lock, or
it frees its own. -/
inductive LockMove (s : LeaseSystem) (n : Nat) (phase : LeasePhase) : Option Nat → Prop
  | keep (same : phase.Locks ↔ (s.threads n).Locks) : LockMove s n phase s.lock
  | take (free : s.lock = none) (locks : phase.Locks) : LockMove s n phase (some n)
  | release (own : s.lock = some n) (frees : ¬phase.Locks) : LockMove s n phase none

private theorem LockMove.lock (h : s.Sound env) {n : Nat} {phase : LeasePhase} {lock : Option Nat}
    (hmove : LockMove s n phase lock) :
    (phase.Locks ↔ lock = some n) ∧ ∀ m, m ≠ n → ((s.threads m).Locks ↔ lock = some m) := by
  cases hmove with
  | keep same => exact ⟨same.trans (h.lock n), fun m _ ↦ h.lock m⟩
  | take free locks =>
    refine ⟨iff_of_true locks rfl, fun m hne ↦ ?_⟩
    rw [h.lock m, free]
    exact iff_of_false (by simp) fun heq ↦ hne (Option.some.inj heq).symm
  | release own frees =>
    refine ⟨iff_of_false frees (by simp), fun m hne ↦ ?_⟩
    rw [h.lock m, own]
    exact iff_of_false (fun heq ↦ hne (Option.some.inj heq).symm) (by simp)

/-- One thread goes to another phase, and has a lease of its own there if it has one. -/
theorem Sound.setThread (h : s.Sound env) {n : Nat} {phase : LeasePhase} {lock : Option Nat}
    {file : Option (Option InstanceDescriptor)} {tokens : List Nat}
    (hmove : LockMove s n phase lock)
    (hlive : ∀ pid startedAtMs, phase.process = some (pid, startedAtMs) →
      s.processes pid = some startedAtMs)
    (hself : ∀ d, phase = .published d → file = some (some d) ∧ ∃ d', s.threads n = .claimed d')
    (hfile : ∀ m d, m ≠ n → s.threads m = .published d → file = some (some d))
    (htokens : s.tokens ⊆ tokens)
    (hlease : ∀ d, phase.lease = some d → validNamespace env d = true ∧ d.generation ∈ tokens ∧
      ∀ m d', m ≠ n → (s.threads m).lease = some d' → d.generation ≠ d'.generation)
    (hclaimed : ∀ d, phase = .claimed d → ∀ m d', m ≠ n → s.threads m ≠ .published d') :
    Sound env ({ s with file, lock, tokens }.setThread n phase) := by
  obtain ⟨hlockSelf, hlockOther⟩ := hmove.lock h
  have hn : ({ s with file, lock, tokens }.setThread n phase).threads n = phase :=
    threads_setThread_self ..
  have hm : ∀ m, m ≠ n →
      ({ s with file, lock, tokens }.setThread n phase).threads m = s.threads m :=
    fun m hne ↦ threads_setThread_ne _ _ hne
  constructor
  · intro m
    by_cases hsame : m = n
    · rw [hsame, hn]
      exact hlockSelf
    · rw [hm m hsame]
      exact hlockOther m hsame
  · intro m pid startedAtMs hprocess
    by_cases hsame : m = n
    · rw [hsame, hn] at hprocess
      exact hlive pid startedAtMs hprocess
    · rw [hm m hsame] at hprocess
      exact h.live m pid startedAtMs hprocess
  · intro m d hpublished
    by_cases hsame : m = n
    · rw [hsame, hn] at hpublished
      exact (hself d hpublished).1
    · rw [hm m hsame] at hpublished
      exact hfile m d hsame hpublished
  · intro m d hd
    by_cases hsame : m = n
    · rw [hsame, hn] at hd
      exact (hlease d hd).1
    · rw [hm m hsame] at hd
      exact h.valid m d hd
  · intro m d hd
    by_cases hsame : m = n
    · rw [hsame, hn] at hd
      exact (hlease d hd).2.1
    · rw [hm m hsame] at hd
      exact htokens (h.tokens m d hd)
  · intro m k d d' hd hd' hgeneration
    by_cases hsame : m = n <;> by_cases hsame' : k = n
    · exact hsame.trans hsame'.symm
    · rw [hsame, hn] at hd
      rw [hm k hsame'] at hd'
      exact absurd hgeneration ((hlease d hd).2.2 k d' hsame' hd')
    · rw [hm m hsame] at hd
      rw [hsame', hn] at hd'
      exact absurd hgeneration.symm ((hlease d' hd').2.2 m d hsame hd)
    · rw [hm m hsame] at hd
      rw [hm k hsame'] at hd'
      exact h.apart m k d d' hd hd' hgeneration
  · intro m k d d' hd hd'
    by_cases hsame : m = n <;> by_cases hsame' : k = n
    · rw [hsame, hn] at hd
      rw [hsame', hn, hd] at hd'
      cases hd'
    · rw [hsame, hn] at hd
      rw [hm k hsame'] at hd'
      exact hclaimed d hd k d' hsame' hd'
    · rw [hm m hsame] at hd
      rw [hsame', hn] at hd'
      obtain ⟨-, own, hown⟩ := hself d' hd'
      have hlocked := (h.lock m).mp (by rw [hd]; trivial)
      have hlocked' := (h.lock n).mp (by rw [hown]; trivial)
      exact hsame (Option.some.inj (hlocked.symm.trans hlocked'))
    · rw [hm m hsame] at hd
      rw [hm k hsame'] at hd'
      exact h.claimed m k d d' hd hd'

/-- A thread keeps its lease or has none any more. -/
theorem Sound.move (h : s.Sound env) {n : Nat} {phase : LeasePhase} {lock : Option Nat}
    {file : Option (Option InstanceDescriptor)} (hmove : LockMove s n phase lock)
    (hlive : ∀ pid startedAtMs, phase.process = some (pid, startedAtMs) →
      s.processes pid = some startedAtMs)
    (hself : ∀ d, phase = .published d → file = some (some d) ∧ ∃ d', s.threads n = .claimed d')
    (hfile : ∀ m d, m ≠ n → s.threads m = .published d → file = some (some d))
    (hlease : ∀ d, phase.lease = some d → (s.threads n).lease = some d)
    (hclaimed : ∀ d, phase ≠ .claimed d) :
    Sound env ({ s with file, lock }.setThread n phase) :=
  h.setThread hmove hlive hself hfile (fun _ hmem ↦ hmem)
    (fun d hd ↦ ⟨h.valid n d (hlease d hd), h.tokens n d (hlease d hd), fun m d' hne hd' hsame ↦
      hne (h.apart n m d d' (hlease d hd) hd' hsame).symm⟩)
    fun d hd ↦ absurd hd (hclaimed d)

/-! ### The steps -/

/-- A descriptor is found, and stays; or there is none of a running process, and the file goes. -/
theorem discoverLocked_cases (env : LeaseEnv) (processes : Nat → Option Nat)
    (file : Option (Option InstanceDescriptor)) :
    discoverLocked env processes file = (none, none) ∧
      (∀ d, file = some (some d) → validNamespace env d = true →
        processes d.pid ≠ some d.startedAtMs) ∨
    ∃ d, file = some (some d) ∧ processes d.pid = some d.startedAtMs ∧
      discoverLocked env processes file = (some d, file) := by
  rcases file with _ | _ | d
  · exact .inl ⟨rfl, by simp⟩
  · exact .inl ⟨rfl, by simp⟩
  · rw [discoverLocked]
    by_cases hvalid : validNamespace env d = true
    · by_cases hlive : processes d.pid = some d.startedAtMs
      · exact .inr ⟨d, rfl, hlive, by simp [hvalid, hlive]⟩
      · refine .inl ⟨by simp [hvalid, hlive], fun d' hd' _ ↦ ?_⟩
        obtain rfl := Option.some.inj (Option.some.inj hd')
        exact hlive
    · refine .inl ⟨by simp [hvalid], fun d' hd' hvalid' ↦ ?_⟩
      obtain rfl := Option.some.inj (Option.some.inj hd')
      exact absurd hvalid' hvalid

private theorem Sound.discover (h : s.Sound env) {m : Nat} {d : InstanceDescriptor}
    (hpublished : s.threads m = .published d) :
    discoverLocked env s.processes s.file = (some d, some (some d)) := by
  have hfile := h.published m d hpublished
  have hvalid := h.valid m d (by rw [hpublished]; rfl)
  have hlive := h.live m d.pid d.startedAtMs (by rw [hpublished]; rfl)
  rcases discoverLocked_cases env s.processes s.file with ⟨-, hnone⟩ | ⟨d', hd', -, heq⟩
  · exact absurd hlive (hnone d hfile hvalid)
  · rw [hfile] at hd'
    obtain rfl := Option.some.inj (Option.some.inj hd')
    rw [heq, hfile]

private theorem sound_start {pid startedAtMs : Nat} (h : s.Sound env)
    (hstep : s.step env (.start pid startedAtMs) = some s') : s'.Sound env := by
  obtain ⟨hfree, heq⟩ := Option.ite_none_right_eq_some.mp hstep
  obtain rfl := Option.some.inj heq
  refine ⟨h.lock, fun n other time hprocess ↦ ?_, h.published, h.valid, h.tokens, h.apart,
    h.claimed⟩
  have hlive := h.live n other time hprocess
  have hne : other ≠ pid := by
    rintro rfl
    rw [hfree] at hlive
    cases hlive
  exact (Function.update_of_ne hne ..).trans hlive

private theorem exitThread_cases (pid : Nat) (phase : LeasePhase) :
    exitThread pid phase = .idle ∨
      exitThread pid phase = phase ∧ ∀ startedAtMs, phase.process ≠ some (pid, startedAtMs) := by
  rw [exitThread]
  by_cases hown : phase.process.map Prod.fst = some pid
  · exact .inl (if_pos hown)
  · refine .inr ⟨if_neg hown, fun startedAtMs hprocess ↦ hown ?_⟩
    rw [hprocess]
    rfl

/-- A process ends, with its threads and their lock. -/
theorem sound_exit {pid : Nat} (h : s.Sound env) (hstep : s.step env (.exit pid) = some s') :
    s'.Sound env := by
  obtain rfl := Option.some.inj hstep
  have hkept : ∀ n, exitThread pid (s.threads n) ≠ .idle →
      exitThread pid (s.threads n) = s.threads n :=
    fun n hne ↦ (exitThread_cases pid (s.threads n)).elim (absurd · hne) And.left
  have hlease : ∀ n d, (exitThread pid (s.threads n)).lease = some d →
      (s.threads n).lease = some d := by
    intro n d hd
    rcases exitThread_cases pid (s.threads n) with hidle | ⟨hsame, -⟩
    · rw [hidle] at hd
      cases hd
    · rwa [hsame] at hd
  have hphase : ∀ n phase, phase ≠ .idle → exitThread pid (s.threads n) = phase →
      s.threads n = phase :=
    fun n phase hne heq ↦ (hkept n (heq ▸ hne)).symm.trans heq
  constructor
  · intro n
    show (exitThread pid (s.threads n)).Locks ↔ _
    rw [Option.filter_eq_some_iff, ← h.lock n, decide_eq_true_eq]
    constructor
    · intro hlocks
      have hne : exitThread pid (s.threads n) ≠ .idle := by
        intro hidle
        rw [hidle] at hlocks
        exact hlocks
      exact ⟨hkept n hne ▸ hlocks, hne⟩
    · rintro ⟨hlocks, hne⟩
      rwa [hkept n hne]
  · intro n other startedAtMs hprocess
    have hexit : (exitThread pid (s.threads n)).process = some (other, startedAtMs) := hprocess
    rcases exitThread_cases pid (s.threads n) with hidle | ⟨hsame, hother⟩
    · rw [hidle] at hexit
      cases hexit
    · rw [hsame] at hexit
      have hne : other ≠ pid := by
        rintro rfl
        exact hother startedAtMs hexit
      exact (Function.update_of_ne hne ..).trans (h.live n other startedAtMs hexit)
  · exact fun n d hd ↦ h.published n d (hphase n _ LeasePhase.noConfusion hd)
  · exact fun n d hd ↦ h.valid n d (hlease n d hd)
  · exact fun n d hd ↦ h.tokens n d (hlease n d hd)
  · exact fun n m d d' hd hd' ↦ h.apart n m d d' (hlease n d hd) (hlease m d' hd')
  · exact fun n m d d' hd hd' ↦ h.claimed n m d d' (hphase n _ LeasePhase.noConfusion hd)
      (hphase m _ LeasePhase.noConfusion hd')

private theorem sound_lockInstance {n pid : Nat} {claims : Bool} (h : s.Sound env)
    (hstep : s.step env (.lockInstance n pid claims) = some s') : s'.Sound env := by
  simp only [step] at hstep
  split at hstep
  · next startedAtMs hidle hpid hfree =>
    obtain rfl := Option.some.inj hstep
    refine h.move (.take hfree trivial) (fun other time hprocess ↦ ?_) (fun d hd ↦ by cases hd)
      (fun m d _ hd ↦ h.published m d hd) (fun d hd ↦ by cases hd) (fun d hd ↦ by cases hd)
    obtain ⟨rfl, rfl⟩ := Prod.mk.inj (Option.some.inj hprocess)
    exact hpid
  · cases hstep

private theorem sound_look {n generation : Nat} {windowStateKey : String} (h : s.Sound env)
    (hfresh : generation ∉ s.tokens)
    (hstep : s.step env (.look n generation windowStateKey) = some s') : s'.Sound env := by
  simp only [step] at hstep
  split at hstep
  · next pid startedAtMs claims hlooking =>
    have hown : s.lock = some n := (h.lock n).mp (by rw [hlooking]; trivial)
    have hfile : ∀ m d, m ≠ n → s.threads m = .published d →
        (discoverLocked env s.processes s.file).2 = some (some d) := by
      intro m d _ hd
      rw [h.discover hd]
    split at hstep
    · next hclaims =>
      obtain rfl := Option.some.inj hstep
      have hlive := h.live n pid startedAtMs (by rw [hlooking]; rfl)
      refine h.setThread ?_ (fun other time hprocess ↦ ?_) (fun d hd ↦ by cases hd) hfile
        (List.subset_cons_self _ _) (fun d hd ↦ ?_) (fun d _ m d' _ hd' ↦ ?_)
      · exact .keep (by rw [hlooking]; exact Iff.rfl)
      · obtain ⟨rfl, rfl⟩ := Prod.mk.inj (Option.some.inj hprocess)
        exact hlive
      · obtain rfl := Option.some.inj hd
        refine ⟨by simp [validNamespace, descriptor], List.mem_cons_self, ?_⟩
        rintro m d' - hd' hsame
        have htoken : generation = d'.generation := hsame
        exact hfresh (htoken ▸ h.tokens m d' hd')
      · rw [h.discover hd'] at hclaims
        cases hclaims.2
    · obtain rfl := Option.some.inj hstep
      exact h.move (.release hown id) (fun _ _ hprocess ↦ by cases hprocess)
        (fun d hd ↦ by cases hd) hfile (fun d hd ↦ by cases hd) (fun d hd ↦ by cases hd)
  · cases hstep

private theorem sound_publish {n : Nat} {written : Bool} (h : s.Sound env)
    (hstep : s.step env (.publish n written) = some s') : s'.Sound env := by
  simp only [step] at hstep
  split at hstep
  · next d hclaimed =>
    have hown : s.lock = some n := (h.lock n).mp (by rw [hclaimed]; trivial)
    have hlive : ∀ pid startedAtMs, some (d.pid, d.startedAtMs) = some (pid, startedAtMs) →
        s.processes pid = some startedAtMs :=
      fun pid startedAtMs hprocess ↦ h.live n pid startedAtMs (by rw [hclaimed]; exact hprocess)
    split at hstep
    · obtain rfl := Option.some.inj hstep
      refine h.move (.release hown id) hlive (fun d' hd' ↦ ?_)
        (fun m d' _ hd' ↦ absurd hd' (h.claimed n m d d' hclaimed))
        (fun d' hd' ↦ by rw [hclaimed]; exact hd') (fun d' hd' ↦ by cases hd')
      obtain rfl := LeasePhase.published.inj hd'
      exact ⟨rfl, d, hclaimed⟩
    · obtain rfl := Option.some.inj hstep
      exact h.move (.release hown id) hlive (fun d' hd' ↦ by cases hd')
        (fun m d' _ hd' ↦ h.published m d' hd') (fun d' hd' ↦ by rw [hclaimed]; exact hd')
        (fun d' hd' ↦ by cases hd')
  · cases hstep

private theorem sound_drop {n : Nat} (h : s.Sound env) (hstep : s.step env (.drop n) = some s') :
    s'.Sound env := by
  simp only [step] at hstep
  split at hstep
  · next d hclaimed =>
    obtain rfl := Option.some.inj hstep
    exact h.move (.keep (by rw [hclaimed]; exact Iff.rfl))
      (fun pid time hprocess ↦ h.live n pid time (by rw [hclaimed]; exact hprocess))
      (fun d' hd' ↦ by cases hd') (fun m d' _ hd' ↦ h.published m d' hd')
      (fun d' hd' ↦ by rw [hclaimed]; exact hd') (fun d' hd' ↦ by cases hd')
  · next d hpublished =>
    obtain rfl := Option.some.inj hstep
    exact h.move (.keep (by rw [hpublished]; exact Iff.rfl))
      (fun pid time hprocess ↦ h.live n pid time (by rw [hpublished]; exact hprocess))
      (fun d' hd' ↦ by cases hd') (fun m d' _ hd' ↦ h.published m d' hd')
      (fun d' hd' ↦ by rw [hpublished]; exact hd') (fun d' hd' ↦ by cases hd')
  · cases hstep

private theorem sound_relock {n : Nat} {locked : Bool} (h : s.Sound env)
    (hstep : s.step env (.relock n locked) = some s') : s'.Sound env := by
  simp only [step] at hstep
  split at hstep
  · next d hdropping hfree =>
    split at hstep
    · obtain rfl := Option.some.inj hstep
      exact h.move (.take hfree trivial)
        (fun pid time hprocess ↦ h.live n pid time (by rw [hdropping]; exact hprocess))
        (fun d' hd' ↦ by cases hd') (fun m d' _ hd' ↦ h.published m d' hd')
        (fun d' hd' ↦ by rw [hdropping]; exact hd') (fun d' hd' ↦ by cases hd')
    · obtain rfl := Option.some.inj hstep
      exact h.move (.keep (by rw [hdropping]; exact Iff.rfl))
        (fun _ _ hprocess ↦ by cases hprocess) (fun d' hd' ↦ by cases hd')
        (fun m d' _ hd' ↦ h.published m d' hd') (fun d' hd' ↦ by cases hd')
        (fun d' hd' ↦ by cases hd')
  · cases hstep

/-- A lease that is dropped removes no descriptor but its own. -/
theorem sound_clean {n : Nat} (h : s.Sound env) (hstep : s.step env (.clean n) = some s') :
    s'.Sound env := by
  simp only [step] at hstep
  split at hstep
  · next d hcleaning =>
    obtain rfl := Option.some.inj hstep
    have hown : s.lock = some n := (h.lock n).mp (by rw [hcleaning]; trivial)
    refine h.move (.release hown id) (fun _ _ hprocess ↦ by cases hprocess)
      (fun d' hd' ↦ by cases hd') (fun m d' hne hd' ↦ ?_) (fun d' hd' ↦ by cases hd')
      (fun d' hd' ↦ by cases hd')
    have hfile := h.published m d' hd'
    rw [removeDescriptorIfMatches, if_neg]
    · exact hfile
    · rw [hfile]
      intro hsame
      obtain rfl := Option.some.inj (Option.some.inj hsame)
      exact hne (h.apart m n d' d' (by rw [hd']; rfl) (by rw [hcleaning]; rfl) rfl)
  · cases hstep

/-- In every run of processes that start, claim, publish, drop and die, one thread at most has the
lease, and whoever looks for the instance while a running one is published finds it. -/
theorem lease_exclusive {processes : Nat → Option Nat} {file : Option (Option InstanceDescriptor)}
    (h : Reaches (step env) FreshTokens (init processes file) s) :
    (∀ n m, (s.threads n).Holds → (s.threads m).Holds → n = m) ∧
    (∀ n d, s.threads n = .published d → s.processes d.pid = some d.startedAtMs ∧
      discoverLocked env s.processes s.file = (some d, s.file)) ∧
    ∀ n, (s.threads n).Locks ↔ s.lock = some n := by
  have hsound : s.Sound env := by
    refine h.invariant (sound_init processes file) fun s e s' hs hfresh hstep ↦ ?_
    cases e with
    | start => exact sound_start hs hstep
    | exit => exact sound_exit hs hstep
    | lockInstance => exact sound_lockInstance hs hstep
    | look => exact sound_look hs hfresh hstep
    | publish => exact sound_publish hs hstep
    | drop => exact sound_drop hs hstep
    | relock => exact sound_relock hs hstep
    | clean => exact sound_clean hs hstep
  refine ⟨fun n m hn hm ↦ ?_, fun n d hd ↦ ⟨?_, ?_⟩, hsound.lock⟩
  · cases hphase : s.threads n with
    | idle | looking | dropping | cleaning => simp [hphase, LeasePhase.Holds] at hn
    | claimed d =>
      cases hphase' : s.threads m with
      | idle | looking | dropping | cleaning => simp [hphase', LeasePhase.Holds] at hm
      | published d' => exact absurd hphase' (hsound.claimed n m d d' hphase)
      | claimed d' =>
        have hlocked := (hsound.lock n).mp (by rw [hphase]; trivial)
        have hlocked' := (hsound.lock m).mp (by rw [hphase']; trivial)
        exact Option.some.inj (hlocked.symm.trans hlocked')
    | published d =>
      cases hphase' : s.threads m with
      | idle | looking | dropping | cleaning => simp [hphase', LeasePhase.Holds] at hm
      | claimed d' => exact absurd hphase (hsound.claimed m n d' d hphase')
      | published d' =>
        have hfile := hsound.published n d hphase
        rw [hsound.published m d' hphase'] at hfile
        obtain rfl := Option.some.inj (Option.some.inj hfile)
        exact hsound.apart n m d' d' (by rw [hphase]; rfl) (by rw [hphase']; rfl) rfl
  · exact hsound.live n d.pid d.startedAtMs (by rw [hd]; rfl)
  · rw [hsound.discover hd, hsound.published n d hd]

/-- An environment for runs. -/
def sampleEnv : LeaseEnv := ⟨"bootty", 1, fun generation ↦ toString generation⟩

/-- The first instance dies, and the second removes its descriptor and publishes its own. -/
def sampleEvents : List LeaseEvent :=
  [.start 10 5, .lockInstance 0 10 true, .look 0 77 "a", .publish 0 true, .exit 10, .start 11 6,
    .lockInstance 1 11 true, .look 1 78 "b", .publish 1 true]

/-- The test of `FreshTokens`. -/
def freshTest (s : LeaseSystem) : LeaseEvent → Bool
  | .look _ generation _ => !s.tokens.contains generation
  | _ => true

private theorem freshTokens_of_freshTest (s : LeaseSystem) (e : LeaseEvent)
    (h : freshTest s e = true) :
    FreshTokens s e := by
  cases e with
  | look n generation windowStateKey =>
    simpa [freshTest, FreshTokens] using h
  | start | exit | lockInstance | publish | drop | relock | clean => trivial

/-- One thread holds the lease, and no other. -/
theorem lease_exclusive_sample : ∃ s : LeaseSystem, (s.threads 1).Holds ∧
    ∀ n, (s.threads n).Holds → n = 1 := by
  have hrun : (runEvents (step sampleEnv) freshTest (init (fun _ ↦ none) none) sampleEvents).map
      (fun s ↦ s.threads 1 == .published (descriptor sampleEnv 11 6 78 "b")) = some true := by
    decide +kernel
  obtain ⟨s, hreaches, hgoal⟩ := exists_reaches_of_runEvents freshTokens_of_freshTest hrun
  have hholds : (s.threads 1).Holds := by
    rw [beq_iff_eq.mp hgoal]
    trivial
  exact ⟨s, hholds, fun n hn ↦ (lease_exclusive hreaches).1 n 1 hn hholds⟩

end LeaseSystem
end Bootty.Control
