import Bootty.Git.Facts
import Mathlib.Tactic.Common

/-!
# Where Git facts come from

Every fact that the cache hands out for an identity (`crates/bootty-git/src/facts.rs:242–576`) was
said to a thread that was spawned for that identity since its entry was created. The pull request is
that of the branch beside it in runs where no refresh meets an ask that a checkout has outrun.
-/

namespace Bootty.Git

open Bootty.Base

variable {PullRequest : Type}

/-- Something was said to a thread that was spawned for the identity since the call. -/
def AnsweredFor (answered : List (Worker × GitAnswers PullRequest)) (identity : String)
    (createdAt : ℕ) (told : Job → GitAnswers PullRequest → Prop) : Prop :=
  ∃ worker answers, (worker, answers) ∈ answered ∧ worker.identity = identity ∧
    createdAt ≤ worker.startedAt ∧ told worker.job answers

/-- What is known of the tree was said for the identity since the call. -/
structure Produced (answered : List (Worker × GitAnswers PullRequest)) (identity : String)
    (createdAt : ℕ) (facts : GitFacts PullRequest) : Prop where
  branch : ∀ branch, facts.branch = some branch →
    AnsweredFor answered identity createdAt fun job answers ↦
      job.isLive = true ∧ answers.headBranch = some branch
  diff : facts.diffAdded = none ∧ facts.diffRemoved = none ∨
    AnsweredFor answered identity createdAt fun job answers ↦ job = .diff ∧
      answers.diffCounts.map Prod.fst = facts.diffAdded ∧
      answers.diffCounts.map Prod.snd = facts.diffRemoved
  project : ∀ project, facts.project = some project →
    AnsweredFor answered identity createdAt fun job answers ↦
      job = .live true ∧ answers.linkedCheckoutProject = some project

/-- The pull request, if there is one, was said for a branch of a kind. -/
def AskedFor (answered : List (Worker × GitAnswers PullRequest)) (identity : String)
    (createdAt : ℕ) (facts : GitFacts PullRequest) (kind : String → Prop) : Prop :=
  ∀ pullRequest, facts.pullRequest = some pullRequest → ∃ branch, kind branch ∧
    AnsweredFor answered identity createdAt fun job answers ↦
      job = .pullRequest branch ∧ answers.branchPullRequest = .ok (some pullRequest)

section Answered

variable {answered answered' : List (Worker × GitAnswers PullRequest)} {identity : String}
  {createdAt : ℕ} {facts : GitFacts PullRequest}

private theorem AnsweredFor.mono {told : Job → GitAnswers PullRequest → Prop}
    (h : AnsweredFor answered identity createdAt told) (hmono : answered ⊆ answered') :
    AnsweredFor answered' identity createdAt told := by
  have ⟨worker, answers, hmem, htold⟩ := h
  exact ⟨worker, answers, hmono hmem, htold⟩

private theorem Produced.mono (h : Produced answered identity createdAt facts)
    (hmono : answered ⊆ answered') : Produced answered' identity createdAt facts where
  branch branch hbranch := (h.branch branch hbranch).mono hmono
  diff := h.diff.imp_right fun hdiff ↦ hdiff.mono hmono
  project project hproject := (h.project project hproject).mono hmono

private theorem AskedFor.mono {kind : String → Prop}
    (h : AskedFor answered identity createdAt facts kind)
    (hmono : answered ⊆ answered') : AskedFor answered' identity createdAt facts kind := by
  intro pullRequest hpullRequest
  have ⟨branch, hkind, hasked⟩ := h pullRequest hpullRequest
  exact ⟨branch, hkind, hasked.mono hmono⟩

end Answered

/-! ### What the parts of a refresh do to an entry -/

variable {answers : GitAnswers PullRequest}

namespace CachedFacts

variable {entry after : CachedFacts PullRequest}

/-- Only the schedule of an entry changed. -/
structure Rescheduled (entry after : CachedFacts PullRequest) : Prop where
  identity : after.identity = entry.identity
  incarnation : after.incarnation = entry.incarnation
  createdAt : after.createdAt = entry.createdAt
  facts : after.facts = entry.facts
  project : after.project = entry.project
  pullRequest : after.pullRequest = entry.pullRequest

/-- A thread that reads the branch is started where none is running. -/
theorem liveDue_spec (cwd : String) (revision interval now : ℕ) :
    Rescheduled entry (entry.liveDue cwd revision interval now).2 ∧
      ((entry.liveDue cwd revision interval now).1 = none ∧
          (entry.liveDue cwd revision interval now).2.liveRunning = entry.liveRunning ∨
        (∃ resolveProject, (entry.liveDue cwd revision interval now).1 =
            some (.live resolveProject)) ∧
          entry.liveRunning = false ∧
          (entry.liveDue cwd revision interval now).2.liveRunning = true) := by
  rw [liveDue]
  dsimp only
  generalize (if revision ≠ 0 ∧ revision ≠ entry.liveRevision then liveFactInterval
    else interval) = liveInterval
  split
  case isTrue => exact ⟨⟨rfl, rfl, rfl, rfl, rfl, rfl⟩, .inl ⟨rfl, rfl⟩⟩
  case isFalse hidle =>
    simp only [Bool.or_eq_true, not_or, Bool.not_eq_true] at hidle
    split
    case isTrue => exact ⟨⟨rfl, rfl, rfl, rfl, rfl, rfl⟩, .inl ⟨rfl, rfl⟩⟩
    case isFalse => exact ⟨⟨rfl, rfl, rfl, rfl, rfl, rfl⟩, .inr ⟨⟨_, rfl⟩, hidle.1, rfl⟩⟩

/-- A thread that counts the diff is started, or none is. -/
theorem deepDue_spec (schedule : RefreshSchedule) (cwd : String) (revision interval now : ℕ) :
    Rescheduled entry (entry.deepDue schedule cwd revision interval now).2.1 ∧
      (entry.deepDue schedule cwd revision interval now).2.1.liveRunning = entry.liveRunning ∧
      ∀ job, (entry.deepDue schedule cwd revision interval now).1 = some job → job = .diff := by
  rw [deepDue]
  dsimp only
  split
  · split
    · exact ⟨⟨rfl, rfl, rfl, rfl, rfl, rfl⟩, rfl, fun job hjob ↦ (Option.some.inj hjob).symm⟩
    · exact ⟨⟨rfl, rfl, rfl, rfl, rfl, rfl⟩, rfl, nofun⟩
  · exact ⟨⟨rfl, rfl, rfl, rfl, rfl, rfl⟩, rfl, nofun⟩

/-- What was asked about a pull request last is about the branch that was read last. -/
def AsksCurrent (entry : CachedFacts PullRequest) : Prop :=
  ∀ asked, entry.pullRequest.asked = some asked → entry.facts.branch = some asked.1

/-- The branch is current and no thread reads it, where it was not asked about. -/
def Outrun (entry : CachedFacts PullRequest) : Prop :=
  ∀ asked, entry.pullRequest.asked = some asked → entry.facts.branch ≠ some asked.1 →
    entry.facts.branch.isSome = true ∧ entry.facts.branchStatus = .current ∧
      entry.liveRunning = false

/-- An ask leaves the other facts, and forgets the pull request of another branch. -/
structure Asked (entry after : CachedFacts PullRequest) : Prop where
  identity : after.identity = entry.identity
  incarnation : after.incarnation = entry.incarnation
  createdAt : after.createdAt = entry.createdAt
  liveRunning : after.liveRunning = entry.liveRunning
  project : after.project = entry.project
  branch : after.facts.branch = entry.facts.branch
  diff : after.facts.diffAdded = entry.facts.diffAdded ∧
    after.facts.diffRemoved = entry.facts.diffRemoved
  pullRequest : after.facts.pullRequest = none ∨
    after.facts.pullRequest = entry.facts.pullRequest ∧
      after.pullRequest.asked.map Prod.fst = entry.pullRequest.asked.map Prod.fst

private theorem Asked.refl : Asked entry entry :=
  ⟨rfl, rfl, rfl, rfl, rfl, rfl, ⟨rfl, rfl⟩, .inr ⟨rfl, rfl⟩⟩

private theorem pullRequestDue_spec (cwd : String) (selected : Bool) (now : ℕ) :
    Asked entry (entry.pullRequestDue cwd selected now).2 ∧
      ∀ job, (entry.pullRequestDue cwd selected now).1 = some job → job.isLive = false := by
  rw [pullRequestDue]
  split
  case h_1 => exact ⟨.refl, by rintro _ ⟨⟩⟩
  case h_2 branch hbranch =>
    dsimp only
    generalize (if selected = true then focusedPullRequestInterval
      else backgroundPullRequestInterval) = interval
    split
    case isTrue => exact ⟨.refl, by rintro _ ⟨⟩⟩
    case isFalse hdue =>
      refine ⟨?_, fun job hjob ↦ by rw [← Option.some.inj hjob]; rfl⟩
      cases hsame : entry.pullRequest.asked.filter fun asked ↦ decide (asked.1 = branch) with
      | none => exact ⟨rfl, rfl, rfl, rfl, rfl, rfl, ⟨rfl, rfl⟩, .inl rfl⟩
      | some asked =>
        rw [Option.filter_eq_some_iff, decide_eq_true_eq] at hsame
        refine ⟨rfl, rfl, rfl, rfl, rfl, rfl, ⟨rfl, rfl⟩, .inr ⟨rfl, ?_⟩⟩
        rw [hsame.1]
        exact congrArg some hsame.2.symm

/-- Where no ask is out and the branch is current, it is the one that is asked about. -/
theorem asksCurrent_pullRequestDue {cwd : String} (selected : Bool) (now : ℕ)
    (h : entry.AsksCurrent ∨ entry.facts.branch.isSome = true ∧
      entry.facts.branchStatus = .current ∧ entry.pullRequest.running = false ∧
      cwd.isEmpty = false) : (entry.pullRequestDue cwd selected now).2.AsksCurrent := by
  rw [pullRequestDue]
  split
  case h_1 hnone =>
    rcases h with hcurrent | ⟨hsome, hstatus, _, hcwd⟩
    · exact hcurrent
    · obtain ⟨branch, hbranch⟩ := Option.isSome_iff_exists.mp hsome
      rw [currentBranch, hbranch, hstatus, hcwd] at hnone
      cases hnone
  case h_2 branch hbranch =>
    rw [currentBranch, Option.filter_eq_some_iff] at hbranch
    dsimp only
    generalize (if selected = true then focusedPullRequestInterval
      else backgroundPullRequestInterval) = interval
    split
    case isTrue hbusy =>
      rcases h with hcurrent | ⟨_, _, hrunning, _⟩
      · exact hcurrent
      · -- Without an ask out, it is the last ask about the same branch that is too recent.
        rw [hrunning, Bool.false_or, Option.any_eq_true] at hbusy
        obtain ⟨asked, hsame, _⟩ := hbusy
        rw [Option.filter_eq_some_iff, decide_eq_true_eq] at hsame
        intro other hother
        rw [hsame.1, Option.some.injEq] at hother
        rw [hbranch.1, ← hother, hsame.2]
    case isFalse =>
      intro asked hasked
      rw [← Option.some.inj hasked]
      cases entry.pullRequest.asked.filter fun asked ↦ decide (asked.1 = branch) with
      | none => exact hbranch.1
      | some => exact hbranch.1

/-- The last ask of the entry was about a branch. -/
def LastAsked (entry : CachedFacts PullRequest) (branch : String) : Prop :=
  entry.pullRequest.asked.map Prod.fst = some branch

/-- What the entry holds was said for its identity since it was created. -/
structure Sourced (answered : List (Worker × GitAnswers PullRequest))
    (entry : CachedFacts PullRequest) : Prop where
  produced : Produced answered entry.identity entry.createdAt entry.snapshot
  asked : AskedFor answered entry.identity entry.createdAt entry.facts entry.LastAsked

section Sourced

variable {answered answered' : List (Worker × GitAnswers PullRequest)}

private theorem Sourced.mono (h : Sourced answered entry) (hmono : answered ⊆ answered') :
    Sourced answered' entry :=
  ⟨h.produced.mono hmono, h.asked.mono hmono⟩

private theorem sourced_new (identity : String) (now revision incarnation createdAt : ℕ) :
    Sourced answered (new identity now revision incarnation createdAt) :=
  ⟨⟨nofun, .inl ⟨rfl, rfl⟩, nofun⟩, nofun⟩

/-- The facts that are looked at are the same. -/
theorem Sourced.congr (h : Sourced answered entry) (hidentity : after.identity = entry.identity)
    (hcreatedAt : after.createdAt = entry.createdAt)
    (hproject : after.project = entry.project)
    (hbranch : after.facts.branch = entry.facts.branch)
    (hdiff : after.facts.diffAdded = entry.facts.diffAdded ∧
      after.facts.diffRemoved = entry.facts.diffRemoved)
    (hpullRequest : after.facts.pullRequest = none ∨
      after.facts.pullRequest = entry.facts.pullRequest ∧
        after.pullRequest.asked.map Prod.fst = entry.pullRequest.asked.map Prod.fst) :
    Sourced answered after := by
  have ⟨⟨hbranch', hdiff', hproject'⟩, hasked⟩ := h
  refine ⟨⟨?_, ?_, ?_⟩, ?_⟩
  · intro branch h'
    rw [hidentity, hcreatedAt]
    exact hbranch' branch (hbranch.symm.trans h')
  · rw [hidentity, hcreatedAt]
    simp only [snapshot] at hdiff' ⊢
    rw [hdiff.1, hdiff.2]
    exact hdiff'
  · intro project h'
    rw [hidentity, hcreatedAt]
    simp only [snapshot] at hproject' h'
    rw [hproject] at h'
    exact hproject' project h'
  · rw [hidentity, hcreatedAt]
    intro pullRequest h'
    rcases hpullRequest with hnone | ⟨hsame, hlast⟩
    · rw [hnone] at h'
      cases h'
    · have ⟨branch, hbranch, htold⟩ := hasked pullRequest (hsame.symm.trans h')
      exact ⟨branch, hlast.trans hbranch, htold⟩

private theorem Sourced.rescheduled (h : Sourced answered entry) (hsame : Rescheduled entry after) :
    Sourced answered after := by
  apply h.congr hsame.identity hsame.createdAt hsame.project
  · rw [hsame.facts]
  · rw [hsame.facts]
    exact ⟨rfl, rfl⟩
  · rw [hsame.facts, hsame.pullRequest]
    exact .inr ⟨rfl, rfl⟩

private theorem Sourced.ask (h : Sourced answered entry) (hasked : Asked entry after) :
    Sourced answered after :=
  h.congr hasked.identity hasked.createdAt hasked.project hasked.branch hasked.diff
    hasked.pullRequest

/-- What a refresh leaves of an entry, and what it starts. -/
structure Refreshes (entry : CachedFacts PullRequest) (cwd : String) (after : CachedFacts PullRequest)
    (started : Started) : Prop where
  identity : after.identity = entry.identity
  incarnation : after.incarnation = entry.incarnation
  createdAt : after.createdAt = entry.createdAt
  sourced : ∀ answered, entry.Sourced answered → after.Sourced answered
  liveRunning : entry.liveRunning = true → after.liveRunning = true
  live : started.live.isSome = true → entry.liveRunning = false ∧ after.liveRunning = true
  others : ∀ job, started.pullRequest = some job ∨ started.diff = some job → job.isLive = false
  asksCurrent : (entry.Outrun ∧ ∀ asked, entry.pullRequest.asked = some asked →
    entry.facts.branch ≠ some asked.1 →
    entry.pullRequest.running = false ∧ cwd.isEmpty = false) → after.AsksCurrent

private theorem refresh_spec (entry : CachedFacts PullRequest) (schedule : RefreshSchedule)
    (cwd : String)
    (selected : Bool) (now revision : ℕ) :
    Refreshes entry cwd (entry.refresh schedule cwd selected now revision).1
      (entry.refresh schedule cwd selected now revision).2.2 := by
  rw [refresh]
  dsimp only
  generalize (if selected = true then focusedFactInterval else backgroundFactInterval) = interval
  generalize hseen : { entry with
    seenAt := now
    facts := { entry.facts with worktreeRevision := revision } } = seen
  have ⟨hlive, hstart⟩ := seen.liveDue_spec cwd revision interval now
  generalize seen.liveDue cwd revision interval now = live at hlive hstart ⊢
  have ⟨hdeep, hreads, hdiff⟩ := live.2.deepDue_spec schedule cwd revision interval now
  generalize live.2.deepDue schedule cwd revision interval now = deep at hdeep hreads hdiff ⊢
  have ⟨hask, hother⟩ := deep.2.1.pullRequestDue_spec cwd selected now
  have hseenSourced : ∀ answered, entry.Sourced answered → seen.Sourced answered := by
    intro answered hsourced
    rw [← hseen]
    exact hsourced.congr rfl rfl rfl rfl ⟨rfl, rfl⟩ (.inr ⟨rfl, rfl⟩)
  have hseenReads : seen.liveRunning = entry.liveRunning := by rw [← hseen]
  refine ⟨?_, ?_, ?_, ?_, ?_, ?_, ?_, ?_⟩
  · rw [hask.identity, hdeep.identity, hlive.identity, ← hseen]
  · rw [hask.incarnation, hdeep.incarnation, hlive.incarnation, ← hseen]
  · rw [hask.createdAt, hdeep.createdAt, hlive.createdAt, ← hseen]
  · intro answered hsourced
    exact (((hseenSourced answered hsourced).rescheduled hlive).rescheduled hdeep).ask hask
  · intro hrunning
    rw [hask.liveRunning, hreads]
    rcases hstart with ⟨_, hsame⟩ | ⟨_, _, hreading⟩
    · rw [hsame, hseenReads, hrunning]
    · exact hreading
  · intro hstarted
    rw [hask.liveRunning, hreads]
    rcases hstart with ⟨hnone, _⟩ | ⟨_, hidle, hreading⟩
    · rw [hnone] at hstarted
      cases hstarted
    · exact ⟨hseenReads ▸ hidle, hreading⟩
  · rintro job (hjob | hjob)
    · exact hother job hjob
    · rw [hdiff job hjob]
      rfl
  · rintro ⟨houtrun, hsettled⟩
    have hfacts : deep.2.1.facts.branch = entry.facts.branch ∧
        deep.2.1.facts.branchStatus = entry.facts.branchStatus := by
      rw [hdeep.facts, hlive.facts, ← hseen]
      exact ⟨rfl, rfl⟩
    have hasks : deep.2.1.pullRequest = entry.pullRequest := by
      rw [hdeep.pullRequest, hlive.pullRequest, ← hseen]
    apply asksCurrent_pullRequestDue
    rw [AsksCurrent, hasks, hfacts.1, hfacts.2]
    by_cases hcurrent : ∀ asked, entry.pullRequest.asked = some asked →
        entry.facts.branch = some asked.1
    · exact .inl hcurrent
    · simp only [not_forall] at hcurrent
      have ⟨asked, hasked, hother⟩ := hcurrent
      have ⟨hsome, hstatus, _⟩ := houtrun asked hasked hother
      have ⟨hrunning, hcwd⟩ := hsettled asked hasked hother
      exact .inr ⟨hsome, hstatus, hrunning, hcwd⟩

/-- Publishing does not change whose entry it is. -/
theorem publish_owner (entry : CachedFacts PullRequest) (job : Job)
    (answers : GitAnswers PullRequest) :
    (entry.publish job answers).identity = entry.identity ∧
      (entry.publish job answers).incarnation = entry.incarnation ∧
      (entry.publish job answers).createdAt = entry.createdAt := by
  cases job with
  | live resolveProject => cases resolveProject <;> exact ⟨rfl, rfl, rfl⟩
  | diff => exact ⟨rfl, rfl, rfl⟩
  | pullRequest branch =>
    rw [publish, publishPullRequest]
    cases answers.branchPullRequest with
    | error => exact ⟨rfl, rfl, rfl⟩
    | ok answer =>
      dsimp only
      split <;> exact ⟨rfl, rfl, rfl⟩

/-- Only a thread that reads the branch says that it is done with that. -/
theorem publish_liveRunning (entry : CachedFacts PullRequest) {job : Job} (h : job.isLive = false) :
    (entry.publish job answers).liveRunning = entry.liveRunning := by
  cases job with
  | live => cases h
  | diff => rfl
  | pullRequest branch =>
    rw [publish, publishPullRequest]
    cases answers.branchPullRequest with
    | error => rfl
    | ok answer =>
      dsimp only
      split <;> rfl

/-- A thread that read the branch leaves what the others know. -/
theorem publishLive_spec (entry : CachedFacts PullRequest) (resolveProject : Bool)
    (answers : GitAnswers PullRequest) :
    (entry.publishLive resolveProject answers).facts.branch =
        answers.headBranch.or entry.facts.branch ∧
      (answers.headBranch.isSome = true →
        (entry.publishLive resolveProject answers).facts.branchStatus = .current) ∧
      (entry.publishLive resolveProject answers).project =
        (if resolveProject then .resolved answers.linkedCheckoutProject else entry.project) ∧
      (entry.publishLive resolveProject answers).facts.diffAdded = entry.facts.diffAdded ∧
      (entry.publishLive resolveProject answers).facts.diffRemoved = entry.facts.diffRemoved ∧
      (entry.publishLive resolveProject answers).facts.pullRequest = entry.facts.pullRequest ∧
      (entry.publishLive resolveProject answers).pullRequest = entry.pullRequest := by
  cases hbranch : answers.headBranch <;> cases hbefore : entry.facts.branch <;>
    cases resolveProject <;> simp [publishLive, hbranch, hbefore]

/-- What a thread of the entry was told is published. -/
theorem Sourced.publish {worker : Worker} (h : Sourced answered entry)
    (hmem : (worker, answers) ∈ answered) (hidentity : entry.identity = worker.identity)
    (hcreated : entry.createdAt ≤ worker.startedAt) :
    Sourced answered (entry.publish worker.job answers) := by
  have htold : ∀ told : Job → GitAnswers PullRequest → Prop, told worker.job answers →
      AnsweredFor answered entry.identity entry.createdAt told := fun _ htold ↦
    ⟨worker, answers, hmem, hidentity.symm, hcreated, htold⟩
  have ⟨⟨hbranch, hdiff, hproject⟩, hasked⟩ := h
  have ⟨hidentity', _, hcreated'⟩ := entry.publish_owner worker.job answers
  cases hjob : worker.job with
  | live resolveProject =>
    rw [hjob] at htold
    have ⟨hbranch', _, hproject', hadded, hremoved, hpullRequest', hask⟩ :=
      publishLive_spec entry resolveProject answers
    rw [hjob] at hidentity' hcreated'
    refine ⟨⟨?_, ?_, ?_⟩, ?_⟩ <;> rw [hidentity', hcreated']
    · intro branch h'
      have hread : answers.headBranch.or entry.facts.branch = some branch := hbranch'.symm.trans h'
      rcases Option.or_eq_some_iff.mp hread with hnew | ⟨_, hold⟩
      · exact htold _ ⟨rfl, hnew⟩
      · exact hbranch branch hold
    · have hsame : (entry.publishLive resolveProject answers).snapshot.diffAdded =
            entry.snapshot.diffAdded ∧
          (entry.publishLive resolveProject answers).snapshot.diffRemoved =
            entry.snapshot.diffRemoved := ⟨hadded, hremoved⟩
      rw [CachedFacts.publish, hsame.1, hsame.2]
      exact hdiff
    · intro project h'
      have hpath : (if resolveProject then ProjectFact.resolved answers.linkedCheckoutProject
          else entry.project).path = some project := by
        rw [← hproject']
        exact h'
      cases resolveProject with
      | true => exact htold _ ⟨rfl, hpath⟩
      | false => exact hproject project hpath
    · intro pullRequest h'
      have ⟨branch, hlast, hanswer⟩ := hasked pullRequest (hpullRequest'.symm.trans h')
      refine ⟨branch, ?_, hanswer⟩
      have hlast' : entry.pullRequest.asked.map Prod.fst = some branch := hlast
      rw [← hask] at hlast'
      exact hlast'
  | diff =>
    rw [hjob] at htold
    exact ⟨⟨hbranch, .inr (htold _ ⟨rfl, rfl, rfl⟩), hproject⟩, hasked⟩
  | pullRequest branch =>
    rw [hjob] at htold
    rw [CachedFacts.publish, publishPullRequest]
    cases hanswer : answers.branchPullRequest with
    | error => exact ⟨⟨hbranch, hdiff, hproject⟩, hasked⟩
    | ok answer =>
      dsimp only
      split
      case isFalse => exact ⟨⟨hbranch, hdiff, hproject⟩, hasked⟩
      case isTrue habout =>
        refine ⟨⟨hbranch, hdiff, hproject⟩, ?_⟩
        intro pullRequest hpullRequest
        rw [PullRequestAsk.isAbout, Option.any_eq_true] at habout
        have ⟨asked, hlast, hsame⟩ := habout
        refine ⟨branch, ?_, htold _ ⟨rfl, ?_⟩⟩
        · rw [LastAsked]
          dsimp only
          rw [hlast]
          exact congrArg some (of_decide_eq_true hsame)
        · rw [hanswer, ← hpullRequest]

end Sourced
end CachedFacts

/-! ### What holds of a cache -/

namespace GitFactsCache

variable {cache after : GitFactsCache PullRequest} {request : FactsRequest}
  {entry : CachedFacts PullRequest} {thread : ℕ}

/-- Entries hold what was said for them, and a thread may write into an entry only where it was
spawned for its identity. One thread at most reads the branch for an entry. -/
structure Tracked (cache : GitFactsCache PullRequest) : Prop where
  entries : ∀ key entry, cache.entries key = some entry →
    entry.incarnation < cache.incarnations ∧ entry.createdAt ≤ cache.calls ∧
      entry.Sourced cache.answered
  spawned : ∀ thread worker answers, cache.workers thread = some (worker, answers) →
    thread < cache.threads ∧ worker.incarnation < cache.incarnations ∧
      ∀ told, answers = some told → (worker, told) ∈ cache.answered
  owned : ∀ thread worker answers entry, cache.workers thread = some (worker, answers) →
    cache.entries worker.cacheKey = some entry → entry.incarnation = worker.incarnation →
    entry.identity = worker.identity ∧ entry.createdAt ≤ worker.startedAt ∧
      (worker.job.isLive = true → entry.liveRunning = true)
  single : ∀ thread thread' worker worker' answers answers',
    cache.workers thread = some (worker, answers) →
    cache.workers thread' = some (worker', answers') →
    worker.job.isLive = true → worker'.job.isLive = true →
    worker.cacheKey = worker'.cacheKey → worker.incarnation = worker'.incarnation →
    thread = thread'

private theorem tracked_new : Tracked (new : GitFactsCache PullRequest) := by
  have hworkers : ∀ thread worker answers,
      (new : GitFactsCache PullRequest).workers thread ≠ some (worker, answers) := by
    intro thread worker answers h
    cases h
  refine ⟨?_, ?_, ?_, ?_⟩
  · intro key entry h
    cases h
  · intro thread worker answers h
    exact absurd h (hworkers _ _ _)
  · intro thread worker answers _ h
    exact absurd h (hworkers _ _ _)
  · intro thread _ worker _ answers _ h
    exact absurd h (hworkers _ _ _)

/-- An entry is put under its key. -/
def put (cache : GitFactsCache PullRequest) (key : String) (entry : CachedFacts PullRequest) :
    GitFactsCache PullRequest :=
  { cache with entries := Function.update cache.entries key (some entry) }

variable {key : String}

private theorem put_entries_self : (cache.put key entry).entries key = some entry :=
  Function.update_self ..

/-- An entry of its own source is put where the threads that may write into it were spawned for
its identity. -/
theorem Tracked.put (h : Tracked cache) (hincarnation : entry.incarnation < cache.incarnations)
    (hcreated : entry.createdAt ≤ cache.calls) (hsourced : entry.Sourced cache.answered)
    (howned : ∀ thread worker answers, cache.workers thread = some (worker, answers) →
      worker.cacheKey = key → entry.incarnation = worker.incarnation →
      entry.identity = worker.identity ∧ entry.createdAt ≤ worker.startedAt ∧
        (worker.job.isLive = true → entry.liveRunning = true)) :
    Tracked (cache.put key entry) := by
  refine ⟨?_, h.spawned, ?_, h.single⟩
  · intro other entry' hentry
    rw [GitFactsCache.put] at hentry
    dsimp only at hentry
    by_cases hother : other = key
    · rw [hother, Function.update_self, Option.some.injEq] at hentry
      rw [← hentry]
      exact ⟨hincarnation, hcreated, hsourced⟩
    · rw [Function.update_of_ne hother] at hentry
      exact h.entries other entry' hentry
  · intro thread worker answers entry' hworker hentry hsame
    rw [GitFactsCache.put] at hentry
    dsimp only at hentry
    by_cases hkey : worker.cacheKey = key
    · rw [hkey, Function.update_self, Option.some.injEq] at hentry
      rw [← hentry] at hsame ⊢
      exact howned thread worker answers hworker hkey hsame
    · rw [Function.update_of_ne hkey] at hentry
      exact h.owned thread worker answers entry' hworker hentry hsame

/-! #### Threads -/

variable {job : Option Job}

/-- A thread that is spawned is a new one of the request. -/
theorem workers_spawn {incarnation : ℕ} {worker : Worker}
    {answers : Option (GitAnswers PullRequest)}
    (h : (cache.spawn request incarnation job).workers thread = some (worker, answers)) :
    cache.workers thread = some (worker, answers) ∨
      thread = cache.threads ∧ job = some worker.job ∧ answers = none ∧
        worker.cacheKey = request.cacheKey ∧ worker.incarnation = incarnation ∧
        worker.identity = request.identity ∧ worker.startedAt = cache.calls := by
  cases job with
  | none => exact .inl h
  | some job =>
    dsimp only [GitFactsCache.spawn] at h
    by_cases hthread : thread = cache.threads
    · rw [hthread, Function.update_self, Option.some.injEq, Prod.mk.injEq] at h
      obtain ⟨rfl, rfl⟩ := h
      exact .inr ⟨hthread, rfl, rfl, rfl, rfl, rfl, rfl⟩
    · rw [Function.update_of_ne hthread] at h
      exact .inl h

/-- Spawning changes only the threads. -/
theorem spawn_spec (cache : GitFactsCache PullRequest) (request : FactsRequest) (incarnation : ℕ)
    (job : Option Job) :
    (cache.spawn request incarnation job).entries = cache.entries ∧
      (cache.spawn request incarnation job).incarnations = cache.incarnations ∧
      (cache.spawn request incarnation job).calls = cache.calls ∧
      (cache.spawn request incarnation job).answered = cache.answered ∧
      (cache.spawn request incarnation job).retired = cache.retired ∧
      cache.threads ≤ (cache.spawn request incarnation job).threads ∧
      (job.isSome = true → cache.threads < (cache.spawn request incarnation job).threads) := by
  cases job with
  | none => exact ⟨rfl, rfl, rfl, rfl, rfl, Nat.le_refl _, nofun⟩
  | some job => exact ⟨rfl, rfl, rfl, rfl, rfl, Nat.le_succ _, fun _ ↦ Nat.lt_succ_self _⟩

/-- No thread reads the branch for what was created so. -/
def NoReader (cache : GitFactsCache PullRequest) (key : String) (incarnation : ℕ) : Prop :=
  ∀ thread worker answers, cache.workers thread = some (worker, answers) →
    worker.job.isLive = true → worker.cacheKey = key → worker.incarnation ≠ incarnation

private theorem NoReader.spawn {incarnation incarnation' : ℕ} (h : cache.NoReader key incarnation)
    (hjob : ∀ job', job = some job' → job'.isLive = false) :
    (cache.spawn request incarnation' job).NoReader key incarnation := by
  intro thread worker answers hworker hlive
  rcases workers_spawn hworker with hold | ⟨_, hnew, _⟩
  · exact h thread worker answers hold hlive
  · rw [hjob worker.job hnew] at hlive
    cases hlive

/-- A thread is spawned for the entry of the request. -/
theorem Tracked.spawn (h : Tracked cache) (hentry : cache.entries request.cacheKey = some entry)
    (hidentity : entry.identity = request.identity)
    (hlive : ∀ job', job = some job' → job'.isLive = true → entry.liveRunning = true ∧
      cache.NoReader request.cacheKey entry.incarnation) :
    Tracked (cache.spawn request entry.incarnation job) := by
  have ⟨hentries, hincarnations, hcalls, hanswered, _, hthreads, hthreads'⟩ :=
    cache.spawn_spec request entry.incarnation job
  have ⟨hincarnation, hcreated, _⟩ := h.entries _ _ hentry
  refine ⟨?_, ?_, ?_, ?_⟩
  · rw [hentries, hincarnations, hcalls, hanswered]
    exact h.entries
  · intro thread worker answers hworker
    rw [hincarnations, hanswered]
    rcases workers_spawn hworker with hold | ⟨hthread, hjob, hnone, _, hsame, _⟩
    · have ⟨hlt, hrest⟩ := h.spawned thread worker answers hold
      exact ⟨Nat.lt_of_lt_of_le hlt hthreads, hrest⟩
    · refine ⟨?_, by rwa [hsame], fun told htold ↦ ?_⟩
      · rw [hthread]
        exact hthreads' (by rw [hjob]; rfl)
      · rw [hnone] at htold
        cases htold
  · intro thread worker answers entry' hworker hentry' hsame
    rw [hentries] at hentry'
    rcases workers_spawn hworker with hold | ⟨_, hjob, _, hkey, _, hidentity', hstarted⟩
    · exact h.owned thread worker answers entry' hold hentry' hsame
    · rw [hkey, hentry, Option.some.injEq] at hentry'
      rw [← hentry', hidentity', hstarted]
      exact ⟨hidentity, hcreated, fun hreads ↦ (hlive worker.job hjob hreads).1⟩
  · intro thread thread' worker worker' answers answers' hworker hworker' hreads hreads' hkey hsame
    rcases workers_spawn hworker with hold | ⟨hthread, hjob, _, hnewKey, hnew, _⟩
    · rcases workers_spawn hworker' with hold' | ⟨_, hjob', _, hnewKey', hnew', _⟩
      · exact h.single thread thread' worker worker' answers answers' hold hold' hreads hreads'
          hkey hsame
      · have ⟨_, hnone⟩ := hlive _ hjob' hreads'
        exact absurd (hsame.trans hnew')
          (hnone thread worker answers hold hreads (hkey.trans hnewKey'))
    · rcases workers_spawn hworker' with hold' | ⟨hthread', _⟩
      · have ⟨_, hnone⟩ := hlive _ hjob hreads
        exact absurd (hsame.symm.trans hnew)
          (hnone thread' worker' answers' hold' hreads' (hkey.symm.trans hnewKey))
      · rw [hthread, hthread']

/-! #### A refresh -/

private theorem Tracked.call (h : Tracked cache) : Tracked
    { cache with calls := cache.calls + 1 } := by
  refine ⟨?_, h.spawned, h.owned, h.single⟩
  intro key entry hentry
  have ⟨hincarnation, hcreated, hsourced⟩ := h.entries key entry hentry
  exact ⟨hincarnation, Nat.le_succ_of_le hcreated, hsourced⟩

/-- The entry that a refresh is about. -/
structure EntryFor (cache : GitFactsCache PullRequest) (request : FactsRequest)
    (entry : CachedFacts PullRequest) (base : GitFactsCache PullRequest) : Prop where
  identity : entry.identity = request.identity
  tracked : Tracked (base.put request.cacheKey entry)
  entries : base.entries = cache.entries
  known : cache.entries request.cacheKey = some entry ∨ entry.pullRequest.asked = none

private theorem Tracked.entryFor (h : Tracked cache) (request : FactsRequest) (revision : ℕ) :
    EntryFor cache request (cache.entryFor request revision).1
      (cache.entryFor request revision).2 := by
  rw [GitFactsCache.entryFor]
  split
  case h_1 entry hfound =>
    rw [Option.filter_eq_some_iff, decide_eq_true_eq] at hfound
    have ⟨hentry, hidentity⟩ := hfound
    have ⟨hincarnation, hcreated, hsourced⟩ := h.entries _ _ hentry
    refine ⟨hidentity, h.put hincarnation hcreated hsourced ?_, rfl, .inl hentry⟩
    intro thread worker answers hworker hkey hsame
    exact h.owned thread worker answers entry hworker (hkey ▸ hentry) hsame
  case h_2 =>
    have hbase : Tracked { cache with incarnations := cache.incarnations + 1 } := by
      refine ⟨?_, ?_, h.owned, h.single⟩
      · intro key entry hentry
        have ⟨hincarnation, hrest⟩ := h.entries key entry hentry
        exact ⟨Nat.lt_succ_of_lt hincarnation, hrest⟩
      · intro thread worker answers hworker
        have ⟨hthread, hincarnation, hrest⟩ := h.spawned thread worker answers hworker
        exact ⟨hthread, Nat.lt_succ_of_lt hincarnation, hrest⟩
    refine ⟨rfl, hbase.put (Nat.lt_succ_self _) (Nat.le_refl _) (CachedFacts.sourced_new ..) ?_,
      rfl, .inr rfl⟩
    -- No thread has the incarnation that was made just now.
    intro thread worker answers hworker _ hsame
    have ⟨_, hincarnation, _⟩ := h.spawned thread worker answers hworker
    have hfresh : cache.incarnations = worker.incarnation := hsame
    omega

/-- What a refresh makes of the entry, which stays that of its identity. -/
theorem Tracked.reput (h : Tracked (cache.put request.cacheKey entry))
    {entry' : CachedFacts PullRequest} (hidentity : entry'.identity = entry.identity)
    (hincarnation : entry'.incarnation = entry.incarnation)
    (hcreated : entry'.createdAt = entry.createdAt) (hsourced : entry'.Sourced cache.answered)
    (hlive : entry.liveRunning = true → entry'.liveRunning = true) :
    Tracked (cache.put request.cacheKey entry') := by
  have ⟨hincarnation', hcreated', _⟩ := h.entries _ _ put_entries_self
  have htwice : (cache.put request.cacheKey entry).put request.cacheKey entry' =
      cache.put request.cacheKey entry' := by
    rw [GitFactsCache.put, GitFactsCache.put]
    dsimp only
    rw [Function.update_idem]
    rfl
  rw [← htwice]
  apply h.put
  · rwa [hincarnation]
  · rwa [hcreated]
  · exact hsourced
  · intro thread worker answers hworker hkey hsame
    have hentry : (cache.put request.cacheKey entry).entries worker.cacheKey = some entry := by
      rw [hkey]
      exact put_entries_self
    have ⟨howner, hstarted, hreads⟩ :=
      h.owned thread worker answers entry hworker hentry (hincarnation.symm.trans hsame)
    exact ⟨hidentity.trans howner, hcreated ▸ hstarted, fun hjob ↦ hlive (hreads hjob)⟩

/-- Where the entry says so, no thread reads the branch for it. -/
theorem Tracked.noReader (h : Tracked cache) (hentry : cache.entries key = some entry)
    (hidle : entry.liveRunning = false) :
    cache.NoReader key entry.incarnation := by
  intro thread worker answers hworker hreads hkey hsame
  have ⟨_, _, hlive⟩ :=
    h.owned thread worker answers entry hworker (hkey ▸ hentry) hsame.symm
  rw [hlive hreads] at hidle
  cases hidle

/-- After a checkout, which is seen where the branch is not the one asked about last, no ask is out
and there is a directory to ask in. -/
def settled (cache : GitFactsCache PullRequest) (request : FactsRequest) : Bool :=
  (cache.entries request.cacheKey).all fun entry ↦
    entry.identity != request.identity || entry.pullRequest.asked.all fun asked ↦
      entry.facts.branch == some asked.1 ||
        (!entry.pullRequest.running && !request.cwd.isEmpty)

private theorem settled_iff : cache.settled request = true ↔
    ∀ entry, cache.entries request.cacheKey = some entry → entry.identity = request.identity →
      ∀ asked, entry.pullRequest.asked = some asked → entry.facts.branch ≠ some asked.1 →
        entry.pullRequest.running = false ∧ request.cwd.isEmpty = false := by
  simp only [settled, Option.all_eq_true, Bool.or_eq_true, bne_iff_ne, beq_iff_eq,
    Bool.and_eq_true, Bool.not_eq_true', ne_eq]
  apply forall₂_congr
  intro entry _
  rw [or_iff_not_imp_left, not_not]
  apply imp_congr_right
  intro _
  apply forall₂_congr
  intro asked _
  exact or_iff_not_imp_left

/-- What a refresh returns and leaves. -/
structure Refreshed (cache : GitFactsCache PullRequest) (request : FactsRequest)
    (facts : GitFacts PullRequest) (after : GitFactsCache PullRequest)
    (entry : CachedFacts PullRequest) : Prop where
  entries : after.entries = Function.update cache.entries request.cacheKey (some entry)
  identity : entry.identity = request.identity
  snapshot : facts = entry.snapshot
  tracked : Tracked after
  settled : (∀ before, cache.entries request.cacheKey = some before → before.Outrun) →
    cache.settled request = true → entry.AsksCurrent

private theorem Tracked.refresh (h : Tracked cache) (hretired : cache.retired = false)
    (request : FactsRequest) :
    ∃ entry, Refreshed cache request (cache.refreshWithIdentity request).1
      (cache.refreshWithIdentity request).2 entry := by
  rw [refreshWithIdentity]
  dsimp only
  rw [if_neg (by rw [hretired]; exact Bool.false_ne_true)]
  generalize (if request.cwd.isEmpty = true then 0 else request.revision) = revision
  have hfound := h.call.entryFor request revision
  generalize GitFactsCache.entryFor { cache with calls := cache.calls + 1 } request revision =
    found at hfound ⊢
  obtain ⟨entry, base⟩ := found
  dsimp only at hfound ⊢
  have hrefreshes := entry.refresh_spec base.schedule request.cwd request.selected request.now
    revision
  generalize entry.refresh base.schedule request.cwd request.selected request.now revision =
    refreshed at hrefreshes ⊢
  obtain ⟨refreshed, schedule, started⟩ := refreshed
  dsimp only at hrefreshes ⊢
  have ⟨hincarnation, hcreated, hsourced⟩ := hfound.tracked.entries _ _ put_entries_self
  have hput : Tracked (base.put request.cacheKey refreshed) :=
    hfound.tracked.reput hrefreshes.identity hrefreshes.incarnation hrefreshes.createdAt
      (hrefreshes.sourced _ hsourced) hrefreshes.liveRunning
  have hidentity : refreshed.identity = request.identity :=
    hrefreshes.identity.trans hfound.identity
  -- The threads are spawned from the cache with the new schedule.
  generalize hspawning : { base with
    schedule
    entries := Function.update base.entries request.cacheKey (some refreshed) } = spawning
  have hentries : spawning.entries = (base.put request.cacheKey refreshed).entries := by
    rw [← hspawning]
    rfl
  have htracked : Tracked spawning := by
    rw [← hspawning]
    exact ⟨hput.entries, hput.spawned, hput.owned, hput.single⟩
  have hentry : spawning.entries request.cacheKey = some refreshed := by
    rw [hentries]
    exact put_entries_self
  have hreader : started.live.isSome = true → refreshed.liveRunning = true ∧
      spawning.NoReader request.cacheKey refreshed.incarnation := by
    intro hstarted
    have ⟨hidle, hreading⟩ := hrefreshes.live hstarted
    have hnone := hfound.tracked.noReader put_entries_self hidle
    rw [hrefreshes.incarnation, ← hspawning]
    exact ⟨hreading, hnone⟩
  have hother : ∀ job, started.pullRequest = some job → job.isLive = false :=
    fun job hjob ↦ hrefreshes.others job (.inl hjob)
  have hdiff : ∀ job, started.diff = some job → job.isLive = false :=
    fun job hjob ↦ hrefreshes.others job (.inr hjob)
  have ⟨hsame₁, _⟩ := spawning.spawn_spec request refreshed.incarnation started.pullRequest
  have htracked₁ : Tracked (spawning.spawn request refreshed.incarnation started.pullRequest) := by
    apply htracked.spawn hentry hidentity
    intro job hjob hlive
    rw [hother job hjob] at hlive
    cases hlive
  have hreader₁ : started.live.isSome = true → refreshed.liveRunning = true ∧
      (spawning.spawn request refreshed.incarnation started.pullRequest).NoReader
        request.cacheKey refreshed.incarnation :=
    fun hstarted ↦ ⟨(hreader hstarted).1, (hreader hstarted).2.spawn hother⟩
  generalize spawning.spawn request refreshed.incarnation started.pullRequest = spawned₁ at *
  have ⟨hsame₂, _⟩ := spawned₁.spawn_spec request refreshed.incarnation started.live
  have htracked₂ : Tracked (spawned₁.spawn request refreshed.incarnation started.live) := by
    apply htracked₁.spawn (hsame₁ ▸ hentry) hidentity
    intro job hjob _
    exact hreader₁ (by rw [hjob]; rfl)
  generalize spawned₁.spawn request refreshed.incarnation started.live = spawned₂ at *
  have ⟨hsame₃, _⟩ := spawned₂.spawn_spec request refreshed.incarnation started.diff
  have htracked₃ : Tracked (spawned₂.spawn request refreshed.incarnation started.diff) := by
    apply htracked₂.spawn (by rw [hsame₂, hsame₁]; exact hentry) hidentity
    intro job hjob hlive
    rw [hdiff job hjob] at hlive
    cases hlive
  refine ⟨refreshed, ?_, hidentity, rfl, htracked₃, ?_⟩
  · rw [hsame₃, hsame₂, hsame₁, hentries, GitFactsCache.put, hfound.entries]
  · intro houtrun hsettled
    apply hrefreshes.asksCurrent
    rcases hfound.known with hknown | hnone
    · exact ⟨houtrun entry hknown, settled_iff.mp hsettled entry hknown hfound.identity⟩
    · constructor
      · intro asked hasked
        rw [hnone] at hasked
        cases hasked
      · intro asked hasked
        rw [hnone] at hasked
        cases hasked

/-! #### Other events -/

/-- A thread is answered. -/
theorem Tracked.answer (h : Tracked cache) (hanswer : cache.answer thread answers = some after) :
    Tracked after ∧ after.entries = cache.entries := by
  rw [GitFactsCache.answer] at hanswer
  split at hanswer
  case h_2 => cases hanswer
  case h_1 worker hworker =>
    have hkept : ∀ (told : Option (Worker × Option (GitAnswers PullRequest)))
        (answered : List (Worker × GitAnswers PullRequest)), cache.answered ⊆ answered →
        (∀ worker' answers', told = some (worker', answers') → worker' = worker ∧
          ∀ told', answers' = some told' → (worker', told') ∈ answered) →
        Tracked { cache with workers := Function.update cache.workers thread told, answered } := by
      intro told answered hmono htold
      have hback : ∀ thread' worker' answers',
          Function.update cache.workers thread told thread' = some (worker', answers') →
          ∃ before, cache.workers thread' = some (worker', before) ∧
            ∀ told', answers' = some told' → (worker', told') ∈ answered := by
        intro thread' worker' answers' hworker'
        by_cases hthread : thread' = thread
        · rw [hthread, Function.update_self] at hworker'
          have ⟨hsame, hin⟩ := htold worker' answers' hworker'
          rw [hthread, hsame]
          exact ⟨none, hworker, hsame ▸ hin⟩
        · rw [Function.update_of_ne hthread] at hworker'
          have ⟨_, _, hin⟩ := h.spawned thread' worker' answers' hworker'
          exact ⟨answers', hworker', fun told' htold' ↦ hmono (hin told' htold')⟩
      refine ⟨?_, ?_, ?_, ?_⟩
      · intro key entry hentry
        have ⟨hincarnation, hcreated, hsourced⟩ := h.entries key entry hentry
        exact ⟨hincarnation, hcreated, hsourced.mono hmono⟩
      · intro thread' worker' answers' hworker'
        have ⟨before, hbefore, hin⟩ := hback thread' worker' answers' hworker'
        have ⟨hthread, hincarnation, _⟩ := h.spawned thread' worker' before hbefore
        exact ⟨hthread, hincarnation, hin⟩
      · intro thread' worker' answers' entry hworker'
        have ⟨before, hbefore, _⟩ := hback thread' worker' answers' hworker'
        exact h.owned thread' worker' before entry hbefore
      · intro thread₁ thread₂ worker₁ worker₂ answers₁ answers₂ hworker₁ hworker₂
        have ⟨before₁, hbefore₁, _⟩ := hback thread₁ worker₁ answers₁ hworker₁
        have ⟨before₂, hbefore₂, _⟩ := hback thread₂ worker₂ answers₂ hworker₂
        exact h.single thread₁ thread₂ worker₁ worker₂ before₁ before₂ hbefore₁ hbefore₂
    split at hanswer
    case isTrue =>
      rw [← Option.some.inj hanswer]
      exact ⟨hkept none cache.answered (fun _ hmem ↦ hmem) nofun, rfl⟩
    case isFalse =>
      rw [← Option.some.inj hanswer]
      refine ⟨hkept _ _ (List.subset_cons_self _ _) ?_, rfl⟩
      intro worker' answers' htold
      obtain ⟨rfl, rfl⟩ := Prod.mk.inj (Option.some.inj htold)
      refine ⟨rfl, fun told' htold' ↦ ?_⟩
      rw [← Option.some.inj htold']
      exact List.mem_cons_self

/-- A thread publishes, where its entry is still there. -/
theorem publish_eq_some (hpublish : cache.publish thread = some after) :
    ∃ worker answers, cache.workers thread = some (worker, some answers) ∧
      (after = { cache with workers := Function.update cache.workers thread none } ∨
        ∃ entry, cache.entries worker.cacheKey = some entry ∧
          entry.incarnation = worker.incarnation ∧
          after = GitFactsCache.put
            { cache with workers := Function.update cache.workers thread none }
            worker.cacheKey (entry.publish worker.job answers)) := by
  rw [publish] at hpublish
  split at hpublish
  case h_2 => cases hpublish
  case h_1 worker answers hworker =>
    refine ⟨worker, answers, hworker, ?_⟩
    rw [← Option.some.inj hpublish]
    cases hentry : cache.entries worker.cacheKey with
    | none => exact .inl rfl
    | some entry =>
      dsimp only
      split
      case isTrue hsame => exact .inr ⟨entry, rfl, hsame, rfl⟩
      case isFalse => exact .inl rfl

private theorem Tracked.done (h : Tracked cache) (thread : ℕ) :
    Tracked { cache with workers := Function.update cache.workers thread none } := by
  have hback : ∀ thread' told, Function.update cache.workers thread none thread' = some told →
      cache.workers thread' = some told := by
    intro thread' told htold
    by_cases hthread : thread' = thread
    · rw [hthread, Function.update_self] at htold
      cases htold
    · rwa [Function.update_of_ne hthread] at htold
  refine ⟨h.entries, ?_, ?_, ?_⟩
  · intro thread' worker answers hworker
    exact h.spawned thread' worker answers (hback _ _ hworker)
  · intro thread' worker answers entry hworker
    exact h.owned thread' worker answers entry (hback _ _ hworker)
  · intro thread₁ thread₂ worker₁ worker₂ answers₁ answers₂ hworker₁ hworker₂
    exact h.single thread₁ thread₂ worker₁ worker₂ answers₁ answers₂ (hback _ _ hworker₁)
      (hback _ _ hworker₂)

private theorem Tracked.publish (h : Tracked cache) (hpublish : cache.publish thread = some after) :
    Tracked after := by
  have ⟨worker, answers, hworker, hafter⟩ := publish_eq_some hpublish
  rcases hafter with rfl | ⟨entry, hentry, hsame, rfl⟩
  · exact h.done thread
  · have ⟨_, _, hanswered⟩ := h.spawned thread worker _ hworker
    have ⟨hidentity, hstarted, hreads⟩ := h.owned thread worker _ entry hworker hentry hsame
    have ⟨hincarnation, hcreated, hsourced⟩ := h.entries _ _ hentry
    have ⟨hidentity', hincarnation', hcreated'⟩ := entry.publish_owner worker.job answers
    apply (h.done thread).put
    · rwa [hincarnation']
    · rwa [hcreated']
    · exact hsourced.publish (hanswered answers rfl) hidentity hstarted
    · intro thread' worker' answers' hworker' hkey hsame'
      rw [hincarnation'] at hsame'
      have hother : thread' ≠ thread := by
        rintro rfl
        dsimp only at hworker'
        rw [Function.update_self] at hworker'
        cases hworker'
      dsimp only at hworker'
      rw [Function.update_of_ne hother] at hworker'
      have ⟨howner, hstarted', hreads'⟩ :=
        h.owned thread' worker' answers' entry hworker' (hkey ▸ hentry) hsame'
      refine ⟨hidentity'.trans howner, hcreated' ▸ hstarted', fun hlive' ↦ ?_⟩
      cases hlive : worker.job.isLive with
      | true =>
        exact absurd (h.single thread' thread worker' worker answers' _ hworker' hworker hlive'
          hlive hkey (hsame'.symm.trans hsame)) hother
      | false => rw [entry.publish_liveRunning hlive, hreads' hlive']

private theorem Tracked.get (h : Tracked cache) (key : String) (now : ℕ) :
    Tracked (cache.get key now).2 := by
  rw [GitFactsCache.get]
  split
  · exact h
  case h_2 entry hentry =>
    have ⟨hincarnation, hcreated, hsourced⟩ := h.entries key entry hentry
    show Tracked (cache.put key { entry with seenAt := now })
    refine h.put hincarnation hcreated ?_ ?_
    · exact hsourced.congr rfl rfl rfl rfl ⟨rfl, rfl⟩ (.inr ⟨rfl, rfl⟩)
    · intro thread worker answers hworker hkey hsame
      exact h.owned thread worker answers entry hworker (hkey ▸ hentry) hsame

private theorem Tracked.prune (h : Tracked cache) (now : ℕ) : Tracked (cache.prune now) := by
  have hback : ∀ key entry, (cache.prune now).entries key = some entry →
      cache.entries key = some entry := fun key entry hentry ↦
    (Option.filter_eq_some_iff.mp hentry).1
  refine ⟨?_, h.spawned, ?_, h.single⟩
  · intro key entry hentry
    exact h.entries key entry (hback key entry hentry)
  · intro thread worker answers entry hworker hentry
    exact h.owned thread worker answers entry hworker (hback _ _ hentry)

/-- A refresh of a retired cache. -/
theorem refreshWithIdentity_retired (hretired : cache.retired = true) :
    cache.refreshWithIdentity request = (.default, { cache with calls := cache.calls + 1 }) := by
  rw [refreshWithIdentity]
  dsimp only
  rw [if_pos hretired]

private theorem Tracked.refreshWithIdentity (h : Tracked cache) (request : FactsRequest) :
    Tracked (cache.refreshWithIdentity request).2 := by
  cases hretired : cache.retired with
  | true =>
    rw [refreshWithIdentity_retired hretired]
    exact h.call
  | false =>
    have ⟨entry, hrefreshed⟩ := h.refresh hretired request
    exact hrefreshed.tracked

private theorem Tracked.step (h : Tracked cache) {event : FactsEvent PullRequest}
    (hstep : cache.step event = some after) : Tracked after := by
  cases event with
  | refresh cacheKey cwd selected now revision =>
    rw [← Option.some.inj hstep]
    exact h.refreshWithIdentity _
  | refreshSession input now revision =>
    rw [← Option.some.inj hstep]
    exact h.refreshWithIdentity _
  | get cacheKey now =>
    rw [← Option.some.inj hstep]
    exact h.get cacheKey now
  | answer thread answers => exact (h.answer hstep).1
  | publish thread => exact h.publish hstep
  | prune now =>
    rw [← Option.some.inj hstep]
    exact h.prune now
  | retire =>
    rw [← Option.some.inj hstep]
    exact ⟨h.entries, h.spawned, h.owned, h.single⟩

/-! #### The pull request of the branch -/

/-- Every entry whose branch was not asked about is about to be asked about. -/
def Followed (cache : GitFactsCache PullRequest) : Prop :=
  ∀ key entry, cache.entries key = some entry → entry.Outrun

private theorem Followed.put (h : Followed cache) (hentry : entry.Outrun) :
    Followed (cache.put key entry) := by
  intro other entry' hentry'
  rw [GitFactsCache.put] at hentry'
  dsimp only at hentry'
  by_cases hother : other = key
  · rw [hother, Function.update_self, Option.some.injEq] at hentry'
    rwa [← hentry']
  · rw [Function.update_of_ne hother] at hentry'
    exact h other entry' hentry'

private theorem Followed.refreshWithIdentity (h : Followed cache) (htracked : Tracked cache)
    (hsettled : cache.settled request = true) :
    Followed (cache.refreshWithIdentity request).2 := by
  cases hretired : cache.retired with
  | true =>
    rw [refreshWithIdentity_retired hretired]
    exact h
  | false =>
    have ⟨entry, hrefreshed⟩ := htracked.refresh hretired request
    have hcurrent := hrefreshed.settled (fun before hbefore ↦ h _ before hbefore) hsettled
    have hput : Followed (cache.put request.cacheKey entry) :=
      h.put fun asked hasked hother ↦ absurd (hcurrent asked hasked) hother
    intro key entry' hentry'
    rw [hrefreshed.entries] at hentry'
    exact hput key entry' hentry'

private theorem Followed.publish (h : Followed cache) (htracked : Tracked cache)
    (hpublish : cache.publish thread = some after) : Followed after := by
  have ⟨worker, answers, hworker, hafter⟩ := publish_eq_some hpublish
  rcases hafter with rfl | ⟨entry, hentry, hsame, rfl⟩
  · exact h
  · have ⟨_, _, hreads⟩ := htracked.owned thread worker _ entry hworker hentry hsame
    have houtrun := h _ _ hentry
    have hdone : Followed { cache with workers := Function.update cache.workers thread none } := h
    apply hdone.put
    cases hjob : worker.job with
    | live resolveProject =>
      have ⟨hbranch, hcurrent, _, _, _, _, hask⟩ :=
        entry.publishLive_spec resolveProject answers
      intro asked hasked hother
      have hasked' : entry.pullRequest.asked = some asked := by
        rw [← hask]
        exact hasked
      have hother' : answers.headBranch.or entry.facts.branch ≠ some asked.1 := by
        rw [← hbranch]
        exact hother
      rw [CachedFacts.publish, hbranch]
      cases hread : answers.headBranch with
      | some branch => exact ⟨rfl, hcurrent (by rw [hread]; rfl), rfl⟩
      | none =>
        -- The branch was another one before, but then no thread was reading it.
        rw [hread, Option.none_or] at hother'
        have ⟨_, _, hidle⟩ := houtrun asked hasked' hother'
        rw [hreads (by rw [hjob]; rfl)] at hidle
        cases hidle
    | diff => exact houtrun
    | pullRequest branch =>
      rw [CachedFacts.publish, CachedFacts.publishPullRequest]
      cases answers.branchPullRequest with
      | error => exact houtrun
      | ok answer =>
        dsimp only
        split <;> exact houtrun

/-- A refresh does not meet an ask that a checkout has outrun. -/
def settledEvent (cache : GitFactsCache PullRequest) (event : FactsEvent PullRequest) : Bool :=
  event.request.all cache.settled

private theorem Followed.step (h : Followed cache) (htracked : Tracked cache)
    {event : FactsEvent PullRequest} (hsettled : cache.settledEvent event = true)
    (hstep : cache.step event = some after) : Followed after := by
  cases event with
  | refresh cacheKey cwd selected now revision =>
    rw [← Option.some.inj hstep]
    exact h.refreshWithIdentity htracked hsettled
  | refreshSession input now revision =>
    rw [← Option.some.inj hstep]
    exact h.refreshWithIdentity htracked hsettled
  | get cacheKey now =>
    rw [← Option.some.inj hstep]
    rw [GitFactsCache.step, GitFactsCache.get] at *
    split
    · exact h
    case h_2 entry hentry => exact h.put (h _ entry hentry)
  | answer thread answers =>
    intro key entry hentry
    rw [(htracked.answer hstep).2] at hentry
    exact h key entry hentry
  | publish thread => exact h.publish htracked hstep
  | prune now =>
    rw [← Option.some.inj hstep]
    intro key entry hentry
    exact h key entry (Option.filter_eq_some_iff.mp hentry).1
  | retire =>
    rw [← Option.some.inj hstep]
    exact h

/-- What is handed out by a refresh: nothing after the cache was retired, and else what was said
for the entry of the identity since that was created, with a pull request of a kind of branch. It
is about `refresh` and `refresh_session`; `get` asks for nothing and is not covered. -/
def HandsOut (cache : GitFactsCache PullRequest) (request : FactsRequest)
    (kind : GitFacts PullRequest → String → Prop) : Prop :=
  cache.retired = true ∧ (cache.refreshWithIdentity request).1 = .default ∨
    ∃ entry, (cache.refreshWithIdentity request).2.entries request.cacheKey = some entry ∧
      entry.identity = request.identity ∧
      Produced (cache.refreshWithIdentity request).2.answered request.identity entry.createdAt
        (cache.refreshWithIdentity request).1 ∧
      AskedFor (cache.refreshWithIdentity request).2.answered request.identity entry.createdAt
        (cache.refreshWithIdentity request).1 (kind (cache.refreshWithIdentity request).1)

private theorem Tracked.handsOut (h : Tracked cache) (request : FactsRequest)
    {kind : GitFacts PullRequest → String → Prop}
    (hkind : ∀ entry, Refreshed cache request (cache.refreshWithIdentity request).1
      (cache.refreshWithIdentity request).2 entry →
      ∀ branch, entry.LastAsked branch → kind entry.snapshot branch) :
    cache.HandsOut request kind := by
  cases hretired : cache.retired with
  | true =>
    left
    rw [refreshWithIdentity_retired hretired]
    exact ⟨hretired, rfl⟩
  | false =>
    right
    have ⟨entry, hrefreshed⟩ := h.refresh hretired request
    have hentry : (cache.refreshWithIdentity request).2.entries request.cacheKey = some entry := by
      rw [hrefreshed.entries]
      exact Function.update_self ..
    have ⟨_, _, hproduced, hasked⟩ := hrefreshed.tracked.entries _ _ hentry
    rw [hrefreshed.identity] at hproduced hasked
    refine ⟨entry, hentry, hrefreshed.identity, ?_, ?_⟩
    · rw [hrefreshed.snapshot]
      exact hproduced
    · intro pullRequest hpullRequest
      rw [hrefreshed.snapshot] at hpullRequest ⊢
      have ⟨branch, hlast, htold⟩ := hasked pullRequest hpullRequest
      exact ⟨branch, hkind entry hrefreshed branch hlast, htold⟩

/-- What a refresh hands out was said for its identity since the entry was created, and where no
refresh met an ask that a checkout had outrun, the pull request was asked for the branch. -/
theorem handsOut_of_reaches :
    (∀ cache : GitFactsCache PullRequest, Reaches step anyStep new cache →
      ∀ request, cache.HandsOut request fun _ _ ↦ True) ∧
    ∀ cache : GitFactsCache PullRequest,
      Reaches step (fun cache event ↦ cache.settledEvent event = true) new cache →
      ∀ request, cache.settled request = true →
        cache.HandsOut request fun facts branch ↦ facts.branch = some branch := by
  constructor
  · intro cache hrun request
    have htracked : Tracked cache :=
      hrun.invariant tracked_new fun _ _ _ h _ hstep ↦ h.step hstep
    exact htracked.handsOut request fun _ _ _ _ ↦ trivial
  · intro cache hrun request hsettled
    have hboth : Tracked cache ∧ Followed cache :=
      hrun.invariant (I := fun cache ↦ Tracked cache ∧ Followed cache)
        ⟨tracked_new, fun _ _ h ↦ by cases h⟩ fun _ _ _ h hallowed hstep ↦
          ⟨h.1.step hstep, h.2.step h.1 hallowed hstep⟩
    apply hboth.1.handsOut request
    intro entry hrefreshed branch hlast
    have hcurrent := hrefreshed.settled (fun before hbefore ↦ hboth.2 _ before hbefore) hsettled
    have ⟨asked, hasked, hsame⟩ := Option.map_eq_some_iff.mp hlast
    rw [← hsame]
    exact hcurrent asked hasked

/-- What Git and GitHub say where a branch is checked out. -/
private def onBranch (branch : String) : GitAnswers ℕ := ⟨none, some branch, none, .ok (some 7)⟩

/-- The branch is read, its pull request is asked about, and that is answered. -/
private def askedOnMain : List (FactsEvent ℕ) :=
  [.refresh "k" "/r" true 0 0, .answer 0 (onBranch "main"), .publish 0,
    .refresh "k" "/r" true second 0, .answer 2 (onBranch "main"), .publish 2]

/-- The pull request of the branch that is checked out. -/
theorem handsOut_of_reaches_main : ∃ cache : GitFactsCache ℕ,
    (cache.refreshWithIdentity (.ofRefresh "k" "/r" true (2 * second) 0)).1.pullRequest = some 7 ∧
      cache.HandsOut (.ofRefresh "k" "/r" true (2 * second) 0) fun facts branch ↦
        facts.branch = some branch := by
  have ⟨cache, hrun, hgoal⟩ := exists_reaches_of_runEvents (fun _ _ htest ↦ htest)
    (show (runEvents step settledEvent (new : GitFactsCache ℕ) askedOnMain).map (fun cache ↦
      cache.settled (.ofRefresh "k" "/r" true (2 * second) 0) &&
        (cache.refreshWithIdentity (.ofRefresh "k" "/r" true (2 * second) 0)).1.pullRequest ==
          some 7) = some true by decide +kernel)
  rw [Bool.and_eq_true, beq_iff_eq] at hgoal
  exact ⟨cache, hgoal.2, handsOut_of_reaches.2 cache hrun _ hgoal.1⟩

/-- A checkout while the pull request of the old branch is asked about again. -/
private def checkedOutMeanwhile : List (FactsEvent ℕ) :=
  askedOnMain ++ [.refresh "k" "/r" true (61 * second) 0, .answer 4 (onBranch "feature"),
    .publish 4]

/-- The pull request of the old branch is handed out with the new branch. -/
theorem not_handsOut_of_reaches : ¬ ∀ cache : GitFactsCache ℕ, Reaches step anyStep new cache →
    ∀ request, cache.HandsOut request fun facts branch ↦ facts.branch = some branch := by
  intro h
  have ⟨cache, hrun, hgoal⟩ := exists_reaches_anyStep
    (show (runEvents step anyTest (new : GitFactsCache ℕ) checkedOutMeanwhile).map (fun cache ↦
      let handed := cache.refreshWithIdentity (.ofRefresh "k" "/r" true (62 * second) 0)
      !cache.retired && handed.1.branch == some "feature" && handed.1.pullRequest == some 7 &&
        handed.2.answered.all fun told ↦ told.1.job != .pullRequest "feature") = some true by
      decide +kernel)
  simp only [Bool.and_eq_true, Bool.not_eq_true', beq_iff_eq, List.all_eq_true, bne_iff_ne] at hgoal
  have ⟨⟨⟨hretired, hbranch⟩, hpullRequest⟩, hanswered⟩ := hgoal
  rcases h cache hrun (.ofRefresh "k" "/r" true (62 * second) 0) with
    ⟨hretired', _⟩ | ⟨entry, _, _, _, hasked⟩
  · rw [hretired] at hretired'
    cases hretired'
  · have ⟨branch, hsame, worker, answers, hmem, _, _, hjob, _⟩ := hasked 7 hpullRequest
    dsimp only at hsame
    rw [hbranch, Option.some.injEq] at hsame
    rw [← hsame] at hjob
    exact hanswered _ hmem hjob

end GitFactsCache
end Bootty.Git
