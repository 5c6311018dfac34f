import Bootty.Base.BoundedNat
import Bootty.Base.Machine
import Mathlib.Algebra.GroupWithZero.Nat
import Mathlib.Logic.Function.Basic

/-!
# The cache of Git facts

Model of `GitFactsCache` (`crates/bootty-git/src/facts.rs:17–576`): entries under the keys of their
owners, and the threads that read branches, diffs and pull requests for them. A thread asks Git and
GitHub without the lock and publishes what they answer under it, so anything may happen between. An
`Arc` that is compared by its address is a number that no other one has. Times are nanoseconds.
-/

namespace Bootty.Git

open Bootty.Base

/-- A second, in nanoseconds. -/
def second : ℕ := 10 ^ 9

/-- `facts.rs:19`. -/
def liveFactInterval : ℕ := second / 4

/-- `facts.rs:20`. -/
def focusedFactInterval : ℕ := 5 * second

/-- `facts.rs:21`. -/
def backgroundFactInterval : ℕ := 30 * second

/-- `facts.rs:22`. -/
def forcedDiffInterval : ℕ := 60 * second

/-- `facts.rs:25`. -/
def refreshSpacing : ℕ := second / 2

/-- `facts.rs:27`. -/
def coldRefreshBurst : ℕ := 1

/-- `facts.rs:29`. -/
def coldRefreshSpacing : ℕ := second / 20

/-- `facts.rs:30`. -/
def factCacheTtl : ℕ := 5 * 60 * second

/-- `facts.rs:33`. -/
def focusedPullRequestInterval : ℕ := 60 * second

/-- `facts.rs:34`. -/
def backgroundPullRequestInterval : ℕ := 5 * 60 * second

/-- `usize::MAX` of a 64-bit target. -/
def usizeMax : ℕ := 2 ^ 64 - 1

/-- `facts.rs:53–59`. -/
inductive BranchStatus where
  | unknown
  | current
  | stale
  deriving DecidableEq, Repr

/-- `facts.rs:37–51`. -/
structure GitFacts (PullRequest : Type) where
  branch : Option String
  branchStatus : BranchStatus
  diffAdded : Option ℕ
  diffRemoved : Option ℕ
  worktreeRevision : ℕ
  project : Option String
  pullRequest : Option PullRequest
  deriving DecidableEq, Repr

/-- `GitFacts::default`. -/
def GitFacts.default {PullRequest : Type} : GitFacts PullRequest :=
  ⟨none, .unknown, none, none, 0, none, none⟩

/-- `facts.rs:107–113`. -/
structure PullRequestAsk where
  asked : Option (String × ℕ)
  running : Bool

/-- The branch is the one that was asked about last. -/
def PullRequestAsk.isAbout (ask : PullRequestAsk) (branch : String) : Bool :=
  ask.asked.any fun asked ↦ decide (asked.1 = branch)

/-- `facts.rs:115–120`. -/
inductive ProjectFact where
  | unresolved
  | resolved (path : Option String)

namespace ProjectFact

/-- `facts.rs:123–128`. -/
def path : ProjectFact → Option String
  | unresolved => none
  | resolved path => path

/-- Whether the fact is not known yet. -/
def isUnresolved : ProjectFact → Bool
  | unresolved => true
  | resolved _ => false

end ProjectFact

/-- `facts.rs:87–105`. Beside the fields of the source, `createdAt` is the call that created the
entry. -/
structure CachedFacts (PullRequest : Type) where
  identity : String
  incarnation : ℕ
  facts : GitFacts PullRequest
  seenAt : ℕ
  liveAt : Option ℕ
  liveRevision : ℕ
  refreshedAt : Option ℕ
  diffAt : Option ℕ
  diffRevision : ℕ
  diffCounted : Bool
  liveRunning : Bool
  diffRunning : Bool
  project : ProjectFact
  pullRequest : PullRequestAsk
  createdAt : ℕ

/-- `facts.rs:167–173`. -/
structure RefreshSchedule where
  lastFactRefresh : Option ℕ
  lastColdRefresh : Option ℕ
  coldFrame : Option ℕ
  coldRefreshes : ℕ

/-- `Option::max` of two instants. -/
def latest : Option ℕ → Option ℕ → Option ℕ
  | some a, some b => some (max a b)
  | some a, none => some a
  | none, b => b

namespace RefreshSchedule

/-- `facts.rs:176–195`. -/
def allowsRefresh (schedule : RefreshSchedule) (cold : Bool) (now : ℕ) : Bool :=
  let burstAvailable := !cold || schedule.coldFrame != some now ||
    decide (schedule.coldRefreshes < coldRefreshBurst)
  let last := if cold then latest schedule.lastColdRefresh schedule.lastFactRefresh
    else schedule.lastFactRefresh
  burstAvailable && last.all fun before ↦
    decide ((if cold then coldRefreshSpacing else refreshSpacing) ≤ now - before)

/-- `facts.rs:292–302`. -/
def refreshed (schedule : RefreshSchedule) (cold : Bool) (now : ℕ) : RefreshSchedule :=
  let schedule := { schedule with lastFactRefresh := some now }
  if cold then
    let schedule := { schedule with lastColdRefresh := some now }
    let schedule := if schedule.coldFrame = some now then schedule
      else { schedule with coldFrame := some now, coldRefreshes := 0 }
    { schedule with coldRefreshes := saturatingAdd usizeMax schedule.coldRefreshes 1 }
  else schedule

end RefreshSchedule

/-- What Git and GitHub say to a thread that asks them. -/
structure GitAnswers (PullRequest : Type) where
  linkedCheckoutProject : Option String
  headBranch : Option String
  diffCounts : Option (ℕ × ℕ)
  branchPullRequest : Except String (Option PullRequest)

/-- What a thread was spawned for. -/
inductive Job where
  | live (resolveProject : Bool)
  | diff
  | pullRequest (branch : String)
  deriving DecidableEq, Repr

/-- Whether the thread still runs. -/
def Job.isLive : Job → Bool
  | live _ => true
  | _ => false

/-- What a spawned thread has captured. Beside that, `identity` and `startedAt` are those of the
call that spawned it. -/
structure Worker where
  job : Job
  cacheKey : String
  incarnation : ℕ
  cwd : String
  identity : String
  startedAt : ℕ

namespace CachedFacts

variable {PullRequest : Type}

/-- `facts.rs:132–153`. -/
def new (identity : String) (now revision incarnation createdAt : ℕ) : CachedFacts PullRequest where
  identity := identity
  incarnation := incarnation
  facts := { GitFacts.default with worktreeRevision := revision }
  seenAt := now
  liveAt := none
  liveRevision := 0
  refreshedAt := none
  diffAt := none
  diffRevision := 0
  diffCounted := false
  liveRunning := false
  diffRunning := false
  project := .unresolved
  pullRequest := ⟨none, false⟩
  createdAt := createdAt

/-- `facts.rs:318–321, 376–379`: the facts as they are handed out. -/
def snapshot (entry : CachedFacts PullRequest) : GitFacts PullRequest :=
  { entry.facts with project := entry.project.path }

/-- `facts.rs:447–476`. -/
def liveDue (entry : CachedFacts PullRequest) (cwd : String) (revision interval now : ℕ) :
    Option Job × CachedFacts PullRequest :=
  let liveInterval := if revision ≠ 0 ∧ revision ≠ entry.liveRevision then liveFactInterval
    else interval
  if entry.liveRunning || entry.liveAt.any fun before ↦ decide (now - before < liveInterval) then
    (none, entry)
  else
    let entry := { entry with liveAt := some now, liveRevision := revision }
    if cwd.isEmpty then (none, entry)
    else (some (.live entry.project.isUnresolved), { entry with liveRunning := true })

/-- `facts.rs:304–310`: whether the diff is counted again. -/
def diffDue (entry : CachedFacts PullRequest) (cwd : String) (revision now : ℕ) : Bool :=
  let changed := !entry.diffCounted || revision == 0 || revision != entry.diffRevision
  let forced := entry.diffAt.any fun before ↦ decide (forcedDiffInterval ≤ now - before)
  !cwd.isEmpty && (changed || forced)

/-- `facts.rs:280–316`: the deep pass. -/
def deepDue (entry : CachedFacts PullRequest) (schedule : RefreshSchedule) (cwd : String)
    (revision interval now : ℕ) : Option Job × CachedFacts PullRequest × RefreshSchedule :=
  let due := entry.refreshedAt.all fun before ↦ decide (interval < now - before)
  let cold := entry.refreshedAt.isNone
  if !entry.diffRunning && due && schedule.allowsRefresh cold now then
    let entry := { entry with refreshedAt := some now }
    let schedule := schedule.refreshed cold now
    if entry.diffDue cwd revision now then
      (some .diff,
        { entry with diffRunning := true, diffAt := some now, diffRevision := revision }, schedule)
    else (none, entry, schedule)
  else (none, entry, schedule)

/-- `facts.rs:486–489`: the branch whose pull request may be asked about. -/
def currentBranch (entry : CachedFacts PullRequest) (cwd : String) : Option String :=
  entry.facts.branch.filter fun _ ↦ entry.facts.branchStatus = .current && !cwd.isEmpty

/-- `facts.rs:480–513`. -/
def pullRequestDue (entry : CachedFacts PullRequest) (cwd : String) (selected : Bool) (now : ℕ) :
    Option Job × CachedFacts PullRequest :=
  match entry.currentBranch cwd with
  | none => (none, entry)
  | some branch =>
    let interval := if selected then focusedPullRequestInterval else backgroundPullRequestInterval
    let same := entry.pullRequest.asked.filter fun asked ↦ asked.1 = branch
    if entry.pullRequest.running || same.any fun asked ↦ decide (now - asked.2 < interval) then
      (none, entry)
    else
      let entry := if same.isNone then
          { entry with facts := { entry.facts with pullRequest := none } }
        else entry
      (some (.pullRequest branch), { entry with pullRequest := ⟨some (branch, now), true⟩ })

/-- The threads that a refresh starts. -/
structure Started where
  pullRequest : Option Job
  live : Option Job
  diff : Option Job

/-- `facts.rs:270–317`: what a refresh makes of an entry. -/
def refresh (entry : CachedFacts PullRequest) (schedule : RefreshSchedule) (cwd : String)
    (selected : Bool) (now revision : ℕ) :
    CachedFacts PullRequest × RefreshSchedule × Started :=
  let entry := { entry with
    seenAt := now
    facts := { entry.facts with worktreeRevision := revision } }
  let interval := if selected then focusedFactInterval else backgroundFactInterval
  let (startLive, entry) := entry.liveDue cwd revision interval now
  let (startDiff, entry, schedule) := entry.deepDue schedule cwd revision interval now
  let (startPullRequest, entry) := entry.pullRequestDue cwd selected now
  (entry, schedule, ⟨startPullRequest, startLive, startDiff⟩)

/-- `facts.rs:429–441`. -/
def publishLive (entry : CachedFacts PullRequest) (resolveProject : Bool)
    (answers : GitAnswers PullRequest) : CachedFacts PullRequest :=
  let entry := if resolveProject then
      { entry with project := .resolved answers.linkedCheckoutProject }
    else entry
  let facts := if answers.headBranch.isSome then
      { entry.facts with branch := answers.headBranch, branchStatus := .current }
    else if entry.facts.branch.isSome then { entry.facts with branchStatus := .stale }
    else { entry.facts with branchStatus := .unknown }
  { entry with facts, liveRunning := false }

/-- `facts.rs:568–573`. -/
def publishDiff (entry : CachedFacts PullRequest) (answers : GitAnswers PullRequest) :
    CachedFacts PullRequest :=
  { entry with
    facts := { entry.facts with
      diffAdded := answers.diffCounts.map Prod.fst
      diffRemoved := answers.diffCounts.map Prod.snd }
    diffCounted := true
    diffRunning := false }

/-- `facts.rs:538–548`. -/
def publishPullRequest (entry : CachedFacts PullRequest) (branch : String)
    (answers : GitAnswers PullRequest) : CachedFacts PullRequest :=
  let entry := match answers.branchPullRequest with
    | .ok answer =>
      if entry.pullRequest.isAbout branch then
        { entry with facts := { entry.facts with pullRequest := answer } }
      else entry
    | .error _ => entry
  { entry with pullRequest := { entry.pullRequest with running := false } }

/-- What a thread writes into its entry. -/
def publish (entry : CachedFacts PullRequest) (job : Job) (answers : GitAnswers PullRequest) :
    CachedFacts PullRequest :=
  match job with
  | .live resolveProject => entry.publishLive resolveProject answers
  | .diff => entry.publishDiff answers
  | .pullRequest branch => entry.publishPullRequest branch answers

end CachedFacts

/-- `facts.rs:156–165`, with the threads that are not done and what Git and GitHub have said to
them. Beside that, `calls` counts the calls, and `answered` are the threads that were answered. -/
structure GitFactsCache (PullRequest : Type) where
  entries : String → Option (CachedFacts PullRequest)
  schedule : RefreshSchedule
  retired : Bool
  incarnations : ℕ
  threads : ℕ
  workers : ℕ → Option (Worker × Option (GitAnswers PullRequest))
  calls : ℕ
  answered : List (Worker × GitAnswers PullRequest)

/-- The arguments of `refresh_with_identity`, and the revision that the watcher of the tree knows. -/
structure FactsRequest where
  cacheKey : String
  cwd : String
  selected : Bool
  now : ℕ
  identity : String
  revision : ℕ

/-- `facts.rs:61–72`. -/
structure GitSessionFactsInput where
  scopeKey : String
  sessionId : String
  cwd : Option String
  panePid : Option ℕ
  process : Option String
  selected : Bool

/-- `facts.rs:74–86`. -/
structure GitSessionFacts (PullRequest : Type) where
  panePid : Option ℕ
  branch : Option String
  branchStatus : BranchStatus
  diffAdded : Option ℕ
  diffRemoved : Option ℕ
  worktreeRevision : ℕ
  project : Option String
  displayProcess : Option String
  pullRequest : Option PullRequest

namespace FactsRequest

/-- The two parts of an identity, which a NUL separates. -/
def joined (key part : String) : String := key ++ "\x00" ++ part

/-- `facts.rs:237–240`. -/
def ofRefresh (cacheKey cwd : String) (selected : Bool) (now revision : ℕ) : FactsRequest :=
  ⟨cacheKey, cwd, selected, now, joined cacheKey cwd, revision⟩

/-- `facts.rs:345–352`. -/
def ofSession (input : GitSessionFactsInput) (now revision : ℕ) : FactsRequest :=
  let cacheKey := joined input.scopeKey input.sessionId
  let cwd := input.cwd.getD ""
  ⟨cacheKey, cwd, input.selected, now,
    joined (joined cacheKey cwd) (toString (input.panePid.getD 0)), revision⟩

end FactsRequest

namespace GitFactsCache

variable {PullRequest : Type}

/-- `facts.rs:225–233`. -/
def new : GitFactsCache PullRequest where
  entries _ := none
  schedule := ⟨none, none, none, 0⟩
  retired := false
  incarnations := 0
  threads := 0
  workers _ := none
  calls := 0
  answered := []

/-- `facts.rs:264–269`: the entry of the identity, created where it is missing or another one. -/
def entryFor (cache : GitFactsCache PullRequest) (request : FactsRequest) (revision : ℕ) :
    CachedFacts PullRequest × GitFactsCache PullRequest :=
  match (cache.entries request.cacheKey).filter fun entry ↦ entry.identity = request.identity with
  | some entry => (entry, cache)
  | none =>
    (.new request.identity request.now revision cache.incarnations cache.calls,
      { cache with incarnations := cache.incarnations + 1 })

/-- `thread::spawn`. -/
def spawn (cache : GitFactsCache PullRequest) (request : FactsRequest) (incarnation : ℕ)
    (job : Option Job) : GitFactsCache PullRequest :=
  match job with
  | none => cache
  | some job =>
    { cache with
      threads := cache.threads + 1
      workers := Function.update cache.workers cache.threads (some
        (⟨job, request.cacheKey, incarnation, request.cwd, request.identity, cache.calls⟩, none)) }

/-- `facts.rs:242–337`. -/
def refreshWithIdentity (cache : GitFactsCache PullRequest) (request : FactsRequest) :
    GitFacts PullRequest × GitFactsCache PullRequest :=
  let cache := { cache with calls := cache.calls + 1 }
  if cache.retired then (.default, cache)
  else
    let revision := if request.cwd.isEmpty then 0 else request.revision
    let (entry, cache) := cache.entryFor request revision
    let (entry, schedule, started) :=
      entry.refresh cache.schedule request.cwd request.selected request.now revision
    let cache := { cache with
      schedule
      entries := Function.update cache.entries request.cacheKey (some entry) }
    let cache := cache.spawn request entry.incarnation started.pullRequest
    let cache := cache.spawn request entry.incarnation started.live
    let cache := cache.spawn request entry.incarnation started.diff
    (entry.snapshot, cache)

/-- `facts.rs:237–240`. -/
def refresh (cache : GitFactsCache PullRequest) (cacheKey cwd : String) (selected : Bool)
    (now revision : ℕ) : GitFacts PullRequest × GitFactsCache PullRequest :=
  cache.refreshWithIdentity (.ofRefresh cacheKey cwd selected now revision)

/-- `facts.rs:345–368`. -/
def refreshSession (cache : GitFactsCache PullRequest) (input : GitSessionFactsInput)
    (now revision : ℕ) : GitSessionFacts PullRequest × GitFactsCache PullRequest :=
  let (facts, cache) := cache.refreshWithIdentity (.ofSession input now revision)
  ({ panePid := input.panePid
     branch := facts.branch
     branchStatus := facts.branchStatus
     diffAdded := facts.diffAdded
     diffRemoved := facts.diffRemoved
     worktreeRevision := facts.worktreeRevision
     project := facts.project
     pullRequest := facts.pullRequest
     displayProcess := input.process.filter fun process ↦
       input.sessionId.startsWith "$" && !process.isEmpty }, cache)

/-- `facts.rs:370–381`. -/
def get (cache : GitFactsCache PullRequest) (cacheKey : String) (now : ℕ) :
    Option (GitFacts PullRequest) × GitFactsCache PullRequest :=
  match cache.entries cacheKey with
  | none => (none, cache)
  | some entry =>
    (some entry.snapshot,
      { cache with
        entries := Function.update cache.entries cacheKey (some { entry with seenAt := now }) })

/-- `facts.rs:392–397`. -/
def prune (cache : GitFactsCache PullRequest) (now : ℕ) : GitFactsCache PullRequest :=
  { cache with
    entries := fun key ↦ (cache.entries key).filter fun entry ↦
      decide (now - entry.seenAt ≤ factCacheTtl) }

/-- `facts.rs:402–404`. -/
def retire (cache : GitFactsCache PullRequest) : GitFactsCache PullRequest :=
  { cache with retired := true }

/-- `facts.rs:417–424, 527–533, 557–563`: a thread is answered, unless the cache is retired. -/
def answer (cache : GitFactsCache PullRequest) (thread : ℕ) (answers : GitAnswers PullRequest) :
    Option (GitFactsCache PullRequest) :=
  match cache.workers thread with
  | some (worker, none) =>
    if cache.retired then
      some { cache with workers := Function.update cache.workers thread none }
    else
      some { cache with
        workers := Function.update cache.workers thread (some (worker, some answers))
        answered := (worker, answers) :: cache.answered }
  | _ => none

/-- `facts.rs:425–443, 534–550, 564–575`: a thread that was answered writes into its entry, where
that is still the one it was spawned for. -/
def publish (cache : GitFactsCache PullRequest) (thread : ℕ) :
    Option (GitFactsCache PullRequest) :=
  match cache.workers thread with
  | some (worker, some answers) =>
    let entries := match cache.entries worker.cacheKey with
      | some entry =>
        if entry.incarnation = worker.incarnation then
          Function.update cache.entries worker.cacheKey (some (entry.publish worker.job answers))
        else cache.entries
      | none => cache.entries
    some { cache with entries, workers := Function.update cache.workers thread none }
  | _ => none

end GitFactsCache

/-- What happens to a cache. -/
inductive FactsEvent (PullRequest : Type) where
  | refresh (cacheKey cwd : String) (selected : Bool) (now revision : ℕ)
  | refreshSession (input : GitSessionFactsInput) (now revision : ℕ)
  | get (cacheKey : String) (now : ℕ)
  | answer (thread : ℕ) (answers : GitAnswers PullRequest)
  | publish (thread : ℕ)
  | prune (now : ℕ)
  | retire

/-- The call of `refresh_with_identity` that an event makes. -/
def FactsEvent.request {PullRequest : Type} : FactsEvent PullRequest → Option FactsRequest
  | .refresh cacheKey cwd selected now revision =>
    some (.ofRefresh cacheKey cwd selected now revision)
  | .refreshSession input now revision => some (.ofSession input now revision)
  | _ => none

/-- The cache after an event that can happen. -/
def GitFactsCache.step {PullRequest : Type} (cache : GitFactsCache PullRequest) :
    FactsEvent PullRequest → Option (GitFactsCache PullRequest)
  | .refresh cacheKey cwd selected now revision =>
    some (cache.refresh cacheKey cwd selected now revision).2
  | .refreshSession input now revision => some (cache.refreshSession input now revision).2
  | .get cacheKey now => some (cache.get cacheKey now).2
  | .answer thread answers => cache.answer thread answers
  | .publish thread => cache.publish thread
  | .prune now => some (cache.prune now)
  | .retire => some cache.retire

end Bootty.Git
