import Bootty.Base.Binary32
import Bootty.Mux.WorkspaceClient

/-!
# Saved and live membership

A command saves its change before it is shown: the closure writes the captured list with the
change applied, and completion applies the change to the live list without writing. Between
the two the saved membership must be the live one with that change on top. `InStep` says so
for every Space; a step that overlaps with such a command can break it, and `noOverlap` is
the condition under which it does not.
-/

namespace Bootty.Mux

open Bootty.Base

variable {K : Type}

namespace WorkspaceClient

/-- The changes of a Space that are saved and not completed. -/
def outstanding (commands : List (PendingMuxCommand K)) (scope : SpaceId) :
    List BindingMembershipMutation :=
  commands.filterMap fun pending ↦
    if pending.scope = scope ∧ pending.phase = .persisted then pending.membership else none

/-! ### Commands in flight -/

private theorem outstanding_split (before after : List (PendingMuxCommand K))
    (pending : PendingMuxCommand K) (scope : SpaceId) :
    outstanding (before ++ pending :: after) scope =
      outstanding before scope ++ (outstanding [pending] scope ++ outstanding after scope) := by
  rw [← List.singleton_append]
  simp only [outstanding, List.filterMap_append]

variable {pending : PendingMuxCommand K} {scope : SpaceId}

/-- A command that is not persisted is not outstanding. -/
theorem outstanding_single
    (h : pending.scope = scope → pending.phase = .persisted → pending.membership = none) :
    outstanding [pending] scope = [] := by
  by_cases hcounts : pending.scope = scope ∧ pending.phase = .persisted
  · simp [outstanding, hcounts, h hcounts.1 hcounts.2]
  · simp [outstanding, hcounts]

variable {commands : List (PendingMuxCommand K)} {n : Nat}

private theorem outstanding_set {pending' : PendingMuxCommand K} (h : commands[n]? = some pending)
    (hsame : outstanding [pending'] scope = outstanding [pending] scope) :
    outstanding (commands.set n pending') scope = outstanding commands scope := by
  obtain ⟨before, after, rfl, rfl⟩ := exists_split_of_getElem? h
  rw [set_split, outstanding_split, outstanding_split, hsame]

/-- A command that was not outstanding becomes the only one. -/
theorem outstanding_set_of_nil {pending' : PendingMuxCommand K} (h : commands[n]? = some pending)
    (hnil : outstanding commands scope = []) :
    outstanding (commands.set n pending') scope = outstanding [pending'] scope := by
  obtain ⟨before, after, rfl, rfl⟩ := exists_split_of_getElem? h
  rw [outstanding_split] at hnil
  simp only [List.append_eq_nil_iff] at hnil
  rw [set_split, outstanding_split, hnil.1, hnil.2.2, List.nil_append, List.append_nil]

private theorem outstanding_eraseIdx (h : commands[n]? = some pending)
    (hnone : outstanding [pending] scope = []) :
    outstanding (commands.eraseIdx n) scope = outstanding commands scope := by
  obtain ⟨before, after, rfl, rfl⟩ := exists_split_of_getElem? h
  rw [eraseIdx_split, outstanding_split, hnone, List.nil_append]
  exact List.filterMap_append

/-! ### What must be saved -/

section Expected

variable [DecidableEq K]

/-- What is saved for a Space with these outstanding changes and this live membership. Two
changes of one Space never fit. -/
def expected : List BindingMembershipMutation → SessionMembership K → Option (List SavedSession)
  | [], sessions => some sessions.saved
  | [mutation], sessions =>
    (applyBindingMembershipMutation mutation sessions).toOption.map SessionMembership.saved
  | _, _ => none

/-- A candidate leaves its Space as it is, or already shows the outstanding change. -/
def fits (client : WorkspaceClient K) (candidate : BindingStateCandidate K) : Bool :=
  (client.runtime.binding candidate.scope).all fun binding ↦
    decide (candidate.sessions = binding.sessions) ||
      decide (expected (outstanding client.commands candidate.scope) candidate.sessions =
        some candidate.sessions.saved)

/-- The closure of a command writes what its completion will show: no other command of the
Space is outstanding, and the change does the same to the captured list as to the live one. -/
def fresh (client : WorkspaceClient K) (pending : PendingMuxCommand K) : Bool :=
  pending.membership.all fun mutation ↦
    (outstanding client.commands pending.scope).isEmpty &&
      (client.runtime.binding pending.scope).all fun binding ↦
        decide (expected [mutation] pending.captured = expected [mutation] binding.sessions)

/-- No operation comes between the closure of a command and its completion, and no closure
writes an outdated list. -/
def noOverlap (host : Host) (client : WorkspaceClient K) : WorkspaceEvent K → Bool
  | .persist n => client.commands[n]?.all client.fresh
  | .complete n _ _ =>
    client.commands[n]?.all fun pending ↦
      (client.runtime.releaseClosedSession pending.scope pending.command).all fun edit ↦
        edit.candidates.all client.fits
  | event => (edit host client.runtime event).all fun edit ↦ edit.candidates.all client.fits

/-- The saved membership of every Space is its live membership with the outstanding change. -/
def Agrees (commands : List (PendingMuxCommand K)) (ws : WorkspaceRuntime K) : Prop :=
  ∀ binding ∈ ws.bindings, expected (outstanding commands binding.scope) binding.sessions =
    some (ws.repository.saved binding.scope)

/-- What every step without overlap keeps. A command with a saved change closes no session. -/
structure InStep (client : WorkspaceClient K) : Prop where
  distinct : client.runtime.Distinct
  paired : ∀ pending ∈ client.commands, pending.membership.isSome →
    ∀ (ws : WorkspaceRuntime K) scope, ws.releaseClosedSession scope pending.command = none
  agrees : client.failed = false → Agrees client.commands client.runtime

/-- A workspace as `WorkspaceRuntime::open` makes it: the live membership is the saved one. -/
structure Opened (client : WorkspaceClient K) : Prop where
  distinct : client.runtime.Distinct
  commands : client.commands = []
  loaded : ∀ binding ∈ client.runtime.bindings,
    binding.sessions = client.runtime.repository.membership binding.scope

variable {client : WorkspaceClient K}

private theorem Opened.inStep (h : client.Opened) : client.InStep := by
  refine ⟨h.distinct, ?_, ?_⟩
  · intro pending hpending
    rw [h.commands] at hpending
    cases hpending
  · intro _ binding hbinding
    rw [h.commands, h.loaded binding hbinding]
    rfl

/-- The outstanding command of a Space that fits is its only one. -/
theorem outstanding_of_expected {mutation : BindingMembershipMutation}
    (h : commands[n]? = some pending) (hsingle : outstanding [pending] scope = [mutation])
    {sessions : SessionMembership K} {saved : List SavedSession}
    (hexpected : expected (outstanding commands scope) sessions = some saved) :
    outstanding commands scope = [mutation] ∧
      outstanding (commands.eraseIdx n) scope = [] := by
  obtain ⟨before, after, rfl, rfl⟩ := exists_split_of_getElem? h
  have herase : outstanding (before ++ after) scope =
      outstanding before scope ++ outstanding after scope := List.filterMap_append
  rw [outstanding_split, hsingle] at hexpected ⊢
  rw [eraseIdx_split, herase]
  cases hbefore : outstanding before scope with
  | nil =>
    cases hafter : outstanding after scope with
    | nil => exact ⟨rfl, rfl⟩
    | cons m ms =>
      rw [hbefore, hafter] at hexpected
      cases hexpected
  | cons m ms =>
    rw [hbefore] at hexpected
    cases ms with
    | nil => cases hexpected
    | cons m' ms' => cases hexpected

/-! ### One step -/

variable {ws : WorkspaceRuntime K}

private theorem Agrees.congr {commands' : List (PendingMuxCommand K)} (h : Agrees commands ws)
    (hsame : ∀ scope, outstanding commands' scope =
      outstanding commands scope) : Agrees commands' ws := by
  intro binding hbinding
  rw [hsame]
  exact h binding hbinding

private theorem Agrees.modifyMux (h : Agrees commands ws) (scope : SpaceId)
    (f : MuxController K → MuxController K) :
    Agrees commands (ws.modifyMux scope f) := by
  intro binding' hbinding'
  obtain ⟨binding, hbinding, hscope, hsessions⟩ := WorkspaceRuntime.mem_modifyMux hbinding'
  rw [hscope, hsessions]
  exact h binding hbinding

/-- A commit of candidates that fit keeps the saved memberships in step. -/
theorem Agrees.committed (h : Agrees client.commands client.runtime)
    (hdistinct : client.runtime.Distinct) {candidates : List (BindingStateCandidate K)}
    (hcommitted : client.runtime.Committed candidates ws)
    (hfits : candidates.all client.fits = true) : Agrees client.commands ws := by
  intro binding' hbinding'
  obtain ⟨binding, hbinding, hscope, hcases⟩ := hcommitted.cases hbinding'
  rw [hscope]
  rcases hcases with ⟨hsessions, hsaved⟩ | ⟨candidate, hmem, hsame, hsessions, hdiffers, hsaved⟩
  · rw [hsessions, hsaved]
    exact h binding hbinding
  · have hfit := List.all_eq_true.mp hfits candidate hmem
    rw [fits, hsame, WorkspaceRuntime.binding_of_mem hdistinct hbinding] at hfit
    simp only [Option.all_some, Bool.or_eq_true, decide_eq_true_eq, hdiffers, false_or] at hfit
    rw [hsessions, hsaved, hfit]

private theorem agrees_shown {result : MuxCommandResult K} {shown : WorkspaceRuntime K}
    (hdistinct : client.runtime.Distinct) (h : Agrees client.commands client.runtime)
    (hlisted : client.commands[n]? = some pending) (hphase : pending.phase = .persisted)
    (hresult : result ≠ .failed)
    (hshown : client.runtime.completeBindingMembershipCommand pending.scope pending.membership
      result = .ok shown) : Agrees (client.commands.eraseIdx n) shown := by
  have hothers : ∀ scope, scope ≠ pending.scope →
      outstanding (client.commands.eraseIdx n) scope = outstanding client.commands scope := by
    intro scope hscope
    apply outstanding_eraseIdx hlisted
    exact outstanding_single fun hsame _ ↦ absurd hsame.symm hscope
  rcases WorkspaceRuntime.shown_cases hshown with
    ⟨rfl, hnone | hfailed | hgone⟩ | ⟨mutation, live, sessions, hmembership, hlive, happly, rfl⟩
  · apply h.congr
    intro scope
    apply outstanding_eraseIdx hlisted
    exact outstanding_single fun _ _ ↦ hnone
  · exact absurd hfailed hresult
  · intro binding hbinding
    rw [hothers]
    · exact h binding hbinding
    · rintro hscope
      rw [← hscope, WorkspaceRuntime.binding_of_mem hdistinct hbinding] at hgone
      cases hgone
  · obtain ⟨hmem, hscope⟩ := WorkspaceRuntime.scope_of_binding hlive
    have hsingle : outstanding [pending] pending.scope = [mutation] := by
      simp [outstanding, hphase, hmembership]
    have hexpected := h live hmem
    rw [hscope] at hexpected
    obtain ⟨honly, hdone⟩ := outstanding_of_expected hlisted hsingle hexpected
    rw [honly, expected, happly] at hexpected
    intro binding' hbinding'
    have hpublish := @WorkspaceRuntime.foldl_publish K client.runtime hdistinct
      [⟨pending.scope, sessions⟩]
    rw [List.foldl_cons, List.foldl_nil] at hpublish
    rw [hpublish] at hbinding' ⊢
    obtain ⟨binding, hbinding, rfl⟩ := List.mem_map.mp hbinding'
    rw [WorkspaceRuntime.scope_published]
    by_cases hsame : binding.scope = pending.scope
    · have hpublished := @WorkspaceRuntime.published_of_mem K [⟨pending.scope, sessions⟩]
        (List.nodup_singleton _) _ List.mem_cons_self binding hsame.symm
      rw [hpublished, hsame, hdone]
      exact hexpected
    · have hpublished := @WorkspaceRuntime.published_of_ne K [⟨pending.scope, sessions⟩] binding
        (by simpa using fun heq : pending.scope = binding.scope ↦ hsame heq.symm)
      rw [hpublished, hothers _ hsame]
      exact h binding hbinding

private theorem InStep.submit (h : client.InStep) {command : MuxCommand K}
    {naming : Option PendingGeneratedName} {membership : Option BindingMembershipMutation}
    (hbegun : client.runtime.beginBindingMembershipMutation scope command naming = .ok membership)
    (captured : SessionMembership K) :
    InStep { client with
      commands := client.commands ++ [{ scope, command, membership, captured }] } := by
  refine ⟨h.distinct, ?_, ?_⟩
  · intro pending hpending hsome
    rcases List.mem_append.mp hpending with hpending | hpending
    · exact h.paired pending hpending hsome
    · obtain rfl := List.mem_singleton.mp hpending
      cases membership with
      | none => cases hsome
      | some mutation => exact WorkspaceRuntime.releaseClosedSession_of_begun hbegun
  · intro hok
    apply (h.agrees hok).congr
    intro other
    have hnew : outstanding [({ scope, command, membership, captured } : PendingMuxCommand K)]
        other = [] := by
      apply outstanding_single
      intro _ hphase
      cases hphase
    rw [outstanding, List.filterMap_append, ← outstanding, ← outstanding, hnew, List.append_nil]

private theorem InStep.modifyMux (h : client.InStep) (scope : SpaceId)
    (f : MuxController K → MuxController K) :
    InStep { client with runtime := client.runtime.modifyMux scope f } :=
  ⟨WorkspaceRuntime.distinct_modifyMux h.distinct scope f, h.paired,
    fun hok ↦ (h.agrees hok).modifyMux scope f⟩

variable {host : Host}

private theorem fits_of_noOverlap {event : WorkspaceEvent K} {edit : Edit K}
    (hplanned : WorkspaceClient.edit host client.runtime event = some edit)
    (hallowed : client.noOverlap host event = true) :
    edit.candidates.all client.fits = true := by
  cases event with
  | submit scope command naming => cases hplanned
  | persist n => cases hplanned
  | complete n peer result => cases hplanned
  | refresh scope peer snapshot => cases hplanned
  | setAvailable scope available => cases hplanned
  | _ => simpa only [noOverlap, hplanned, Option.all_some] using hallowed

section Steps

variable [Scalar K]

private theorem agrees_persist (hdistinct : client.runtime.Distinct)
    (h : Agrees client.commands client.runtime) (hlisted : client.commands[n]? = some pending)
    (hphase : pending.phase = .submitted) (hfresh : client.fresh pending = true) :
    Agrees (client.persist host n pending).commands (client.persist host n pending).runtime := by
  have hnone : ∀ scope, outstanding [pending] scope = [] := by
    intro scope
    apply outstanding_single
    intro _ hpersisted
    rw [hphase] at hpersisted
    cases hpersisted
  rcases persist_cases host client n pending with
    ⟨hmembership, heq⟩ | ⟨mutation, next, repository, hmembership, happly, hwrite, heq⟩ | heq
  · rw [heq]
    apply h.congr
    intro scope
    apply outstanding_set hlisted
    rw [hnone]
    exact outstanding_single fun _ _ ↦ hmembership
  · rw [heq]
    simp only [fresh, hmembership, Option.all_some, Bool.and_eq_true, List.isEmpty_iff] at hfresh
    intro binding hbinding
    by_cases hscope : binding.scope = pending.scope
    · -- The change is now the only outstanding one, and it does to the live list what the
      -- closure wrote.
      have hlive := WorkspaceRuntime.binding_of_mem hdistinct hbinding
      have hsame := hfresh.2
      rw [← hscope, hlive, Option.all_some, decide_eq_true_eq] at hsame
      have hsingle : outstanding [{ pending with phase := .persisted }] pending.scope =
          [mutation] := by
        simp [outstanding, hmembership]
      have hsaved := WorkspaceRepository.saved_writeBindingState hwrite
      rw [hscope, outstanding_set_of_nil hlisted hfresh.1, hsingle, ← hsame, expected, happly,
        hsaved]
      rfl
    · have hsaved := WorkspaceRepository.saved_writeBindingState_of_ne hwrite hscope
      rw [outstanding_set hlisted, hsaved]
      · exact h binding hbinding
      · rw [hnone]
        apply outstanding_single
        intro hsame
        exact absurd hsame.symm hscope
  · rw [heq]
    apply h.congr
    intro scope
    apply outstanding_set hlisted
    rw [hnone]
    apply outstanding_single
    intro _ hrefused
    cases hrefused

private theorem agrees_complete {peer : Option Nat} {result : MuxCommandResult K}
    (h : client.InStep) (hagrees : Agrees client.commands client.runtime)
    (hlisted : client.commands[n]? = some pending) (hreturns : mayReturn pending result = true)
    (hfits : ((client.runtime.releaseClosedSession pending.scope pending.command).all fun edit ↦
      edit.candidates.all client.fits) = true)
    (hok : (client.runtime.completeAuthoritativeCommand host pending peer result).1 = true) :
    Agrees (client.commands.eraseIdx n)
      (client.runtime.completeAuthoritativeCommand host pending peer result).2 := by
  cases hshown : client.runtime.completeBindingMembershipCommand pending.scope
      pending.membership result with
  | error message =>
    simp only [WorkspaceRuntime.completeAuthoritativeCommand, hshown] at hok
    cases hok
  | ok shown =>
    have hcompleted := WorkspaceRuntime.completed_of_complete host peer hshown
    generalize client.runtime.completeAuthoritativeCommand host pending peer result = outcome
      at hcompleted hok ⊢
    have hkept : result ≠ .failed → Agrees (client.commands.eraseIdx n) shown := by
      intro hresult
      have hphase : pending.phase = .persisted := by
        cases result with
        | failed => exact absurd rfl hresult
        | launchFailed => exact beq_iff_eq.mp hreturns
        | ok snapshot => exact beq_iff_eq.mp hreturns
      exact agrees_shown h.distinct hagrees hlisted hphase hresult hshown
    cases hcompleted with
    | failed => cases hok
    | refused => cases hok
    | launchFailed => exact hkept (by rintro ⟨⟩)
    | kept _ => exact (hkept (by rintro ⟨⟩)).modifyMux _ _
    | @closed snapshot edit ws hplanned hcommit =>
      -- Only a command without a saved change closes a session, so nothing was shown yet.
      have hnone : pending.membership = none := by
        cases hmembership : pending.membership with
        | none => rfl
        | some mutation =>
          have hnot := h.paired pending (List.mem_of_getElem? hlisted)
            (Option.isSome_of_eq_some hmembership) shown pending.scope
          rw [hnot] at hplanned
          cases hplanned
      have hsame : shown = client.runtime := by
        rw [hnone] at hshown
        exact (Except.ok.inj hshown).symm
      subst hsame
      obtain ⟨middle, hcommitted, rfl⟩ :=
        WorkspaceRuntime.committed_of_commitEdit h.distinct hcommit
      rw [hplanned, Option.all_some] at hfits
      have hmiddle := hagrees.committed h.distinct hcommitted hfits
      have hsent : Agrees (client.commands.eraseIdx n)
          { middle with requests := middle.requests ++ edit.stamp.toList } := by
        apply hmiddle.congr
        intro scope
        apply outstanding_eraseIdx hlisted
        exact outstanding_single fun _ _ ↦ hnone
      exact hsent.modifyMux _ _

private theorem InStep.persist {host : Host} {client : WorkspaceClient K} (h : client.InStep)
    {n : Nat} {pending : PendingMuxCommand K} (hlisted : client.commands[n]? = some pending)
    (hphase : pending.phase = .submitted) (hfresh : client.fresh pending = true) :
    (client.persist host n pending).InStep := by
  have hframe : (client.persist host n pending).runtime.bindings = client.runtime.bindings ∧
      (client.persist host n pending).failed = client.failed ∧
      ∃ phase, (client.persist host n pending).commands =
        client.commands.set n { pending with phase } := by
    rcases persist_cases host client n pending with ⟨-, heq⟩ | ⟨_, _, _, -, -, -, heq⟩ | heq
    · rw [heq]
      exact ⟨rfl, rfl, _, rfl⟩
    · rw [heq]
      exact ⟨rfl, rfl, _, rfl⟩
    · rw [heq]
      exact ⟨rfl, rfl, _, rfl⟩
  obtain ⟨hbindings, hfailed, phase, hcommands⟩ := hframe
  refine ⟨?_, ?_, ?_⟩
  · rw [WorkspaceRuntime.Distinct, hbindings]
    exact h.distinct
  · intro other hother hsome
    rw [hcommands] at hother
    rcases List.mem_or_eq_of_mem_set hother with hother | rfl
    · exact h.paired other hother hsome
    · exact h.paired pending (List.mem_of_getElem? hlisted) hsome
  · intro hok
    rw [hfailed] at hok
    exact agrees_persist h.distinct (h.agrees hok) hlisted hphase hfresh

private theorem InStep.complete {host : Host} {client : WorkspaceClient K} (h : client.InStep)
    {n : Nat} {pending : PendingMuxCommand K} {peer : Option Nat} {result : MuxCommandResult K}
    (hlisted : client.commands[n]? = some pending) (hreturns : mayReturn pending result = true)
    (hfits : ((client.runtime.releaseClosedSession pending.scope pending.command).all fun edit ↦
      edit.candidates.all client.fits) = true) :
    (client.complete host n pending peer result).InStep := by
  refine ⟨WorkspaceRuntime.distinct_complete h.distinct pending peer result, ?_, ?_⟩
  · intro other hother hsome
    exact h.paired other (List.mem_of_mem_eraseIdx hother) hsome
  · intro hok
    simp only [WorkspaceClient.complete, Bool.or_eq_false_iff, Bool.not_eq_false'] at hok
    exact agrees_complete h (h.agrees hok.1) hlisted hreturns hfits hok.2

private theorem InStep.edited {host : Host} {client : WorkspaceClient K} (h : client.InStep)
    {edit : Edit K} {runtime : WorkspaceRuntime K}
    (hcommit : client.runtime.commitEdit host edit = .ok runtime)
    (hfits : edit.candidates.all client.fits = true) : InStep { client with runtime } := by
  refine ⟨WorkspaceRuntime.distinct_commitEdit h.distinct hcommit, h.paired, fun hok ↦ ?_⟩
  obtain ⟨middle, hcommitted, rfl⟩ := WorkspaceRuntime.committed_of_commitEdit h.distinct hcommit
  have hmiddle := (h.agrees hok).committed h.distinct hcommitted hfits
  exact hmiddle

/-- A step without overlap keeps saved and live membership in step. -/
theorem InStep.step {client' : WorkspaceClient K} {event : WorkspaceEvent K} (h : client.InStep)
    (hallowed : client.noOverlap host event = true) (hstep : client.step host event = some client')
    : client'.InStep := by
  cases transition_of_step hstep with
  | submit hlive hbegun => exact h.submit hbegun _
  | persist hlisted hphase =>
    rw [noOverlap, hlisted, Option.all_some] at hallowed
    exact h.persist hlisted hphase hallowed
  | complete hlisted hreturns =>
    rw [noOverlap, hlisted, Option.all_some] at hallowed
    exact h.complete hlisted hreturns hallowed
  | refresh => exact h.modifyMux _ _
  | setAvailable => exact h.modifyMux _ _
  | edited hplanned hcommit =>
    have hfits := fits_of_noOverlap hplanned hallowed
    exact h.edited hcommit hfits
  | rejected => exact h

/-! ### Runs -/

/-- The saved membership of every Space is its live membership. -/
def Settled (client : WorkspaceClient K) : Prop :=
  ∀ binding ∈ client.runtime.bindings,
    client.runtime.repository.saved binding.scope = binding.sessions.saved

/-- In a run without overlap nothing is lost: whenever no command is in flight and none has
failed, the saved memberships are the live ones. -/
theorem saved_membership_settled (host : Host) {init client : WorkspaceClient K}
    (hinit : init.Opened)
    (hrun : Reaches (step host) (fun client event ↦ client.noOverlap host event = true) init client)
    (hquiet : client.commands = []) (hok : client.failed = false) : client.Settled := by
  have hinStep : client.InStep := by
    apply hrun.invariant hinit.inStep
    intro before event after h hallowed hstep
    exact h.step hallowed hstep
  intro binding hbinding
  have hagrees := hinStep.agrees hok binding hbinding
  rw [hquiet] at hagrees
  exact (Option.some.inj hagrees).symm

end Steps
end Expected

/-! ### Two sessions -/

/-- The saved session of an identity that has the name of its backend session. -/
private def plainRow (identity : String) (position : Nat) : SessionRow Binary32 :=
  { identity, spaceId := 1, backendName := identity, displayName := identity, explicit := false
    cwd := "/src", state := {}, terminalSnapshot := none, position }

/-- A Space that has just been opened with the sessions `x` and `y`. -/
def twoSessions : WorkspaceClient Binary32 :=
  { runtime :=
      { repository := { spaces := [1], rows := [plainRow "x" 0, plainRow "y" 1] }
        bindings := [{ scope := 1, spaceTag := "a", remote := false
                       sessions := [(plainRow "x" 0).session, (plainRow "y" 1).session]
                       mux := {} }] } }

private theorem opened_twoSessions : twoSessions.Opened := by
  refine ⟨List.nodup_singleton _, rfl, ?_⟩
  intro binding hbinding
  obtain rfl := List.mem_singleton.mp hbinding
  decide +kernel

private def answered : MuxCommandResult Binary32 := .ok ⟨1, 1, ⟨[], none⟩⟩

/-- Nothing is in flight, nothing has failed, and `x` is shown under a new name. -/
private def renamed (client : WorkspaceClient Binary32) : Bool :=
  client.commands.isEmpty && !client.failed &&
    client.runtime.bindings.all fun binding ↦
      binding.sessions.any fun session ↦ session.identity == "x" && session.displayName == "z"

private def renamingX : WorkspaceEvent Binary32 := .submit 1 (.renameSession "x" "z") none

/-- A rename that is saved and shown. -/
theorem saved_membership_settled_rename : ∃ client,
    Reaches (step Host.plain) (fun client event ↦ client.noOverlap Host.plain event = true)
      twoSessions client ∧ renamed client = true ∧ client.Settled := by
  obtain ⟨client, hrun, hgoal⟩ := exists_reaches_of_runEvents (fun _ _ htest ↦ htest)
    (show (runEvents (step Host.plain) (noOverlap Host.plain) twoSessions
      [renamingX, .persist 0, .complete 0 none answered]).map renamed = some true by decide +kernel)
  have hquiet := hgoal
  simp only [renamed, Bool.and_eq_true, List.isEmpty_iff, Bool.not_eq_true'] at hquiet
  exact ⟨client, hrun, hgoal,
    saved_membership_settled Host.plain opened_twoSessions hrun hquiet.1.1 hquiet.1.2⟩

private def lost (client : WorkspaceClient Binary32) : Bool :=
  client.commands.isEmpty && !client.failed &&
    client.runtime.bindings.any fun binding ↦
      decide (client.runtime.repository.saved binding.scope ≠ binding.sessions.saved)

/-- A session pinned while another one is being renamed stays pinned and is saved unpinned. -/
theorem not_saved_membership_settled :
    ¬ ∀ client, Reaches (step Host.plain) anyStep twoSessions client → client.commands = [] →
      client.failed = false → client.Settled := by
  intro h
  obtain ⟨client, hrun, hgoal⟩ := exists_reaches_anyStep
    (show (runEvents (step Host.plain) anyTest twoSessions
      [renamingX, .setSessionState 1 "y" (.setPinned true), .persist 0,
        .complete 0 none answered]).map lost = some true by decide +kernel)
  simp only [lost, Bool.and_eq_true, List.isEmpty_iff, Bool.not_eq_true', List.any_eq_true,
    decide_eq_true_eq] at hgoal
  obtain ⟨⟨hquiet, hok⟩, binding, hbinding, hdiffers⟩ := hgoal
  exact hdiffers (h client hrun hquiet hok binding hbinding)

end WorkspaceClient
end Bootty.Mux
