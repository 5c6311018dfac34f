import Bootty.Mux.Checkpoint
import Bootty.Mux.SavedMembership
import Bootty.Mux.WorkspaceClaims

/-!
# Stored checkpoints

A membership commit rewrites the rows of whole Spaces and keeps the checkpoint that the table
has for a session it writes again. A session that leaves one Space for another in the same
commit loses its row first, so it is written with its live copy, which a receipt that is not
published yet has not reached. `carries` are the steps that write no outdated copy; under
them the table holds the checkpoint committed last for every session that stays claimed.
-/

namespace Bootty.Mux

open Bootty.Base

variable {K : Type}

/-! ### Identities that an operation keeps -/

variable {identity : String} {m m' : SessionMembership K}

namespace SessionMembership

private theorem mem_releaseAll {dropped : List String} (hkept : identity ∉ dropped)
    (h : identity ∈ m.identities) :
    identity ∈ (BindingRuntime.releaseAll m dropped).identities := by
  unfold BindingRuntime.releaseAll
  induction dropped generalizing m with
  | nil => exact h
  | cons other rest ih =>
    rw [List.mem_cons, not_or] at hkept
    rw [List.foldl_cons]
    apply ih hkept.2
    cases hrelease : m.release other with
    | none => exact h
    | some released =>
      obtain ⟨session, m'⟩ := released
      have hsession := (release_eq_some hrelease).2.1
      have hids := (perm_release hrelease).map (·.identity)
      rcases List.mem_cons.mp (hids.mem_iff.mp h) with heq | hin
      · exact absurd (heq.trans hsession) hkept.1
      · exact hin

private theorem subset_claim (m : SessionMembership K) (session : WorkspaceSession K) :
    m.identities ⊆ ((m.claim session).getD m).identities := by
  cases hclaim : m.claim session with
  | none => exact List.Subset.refl _
  | some m' =>
    intro identity hidentity
    have hids := (perm_claim hclaim).1.map (·.identity)
    exact hids.mem_iff.mpr (List.mem_cons_of_mem _ hidentity)

section Kept

variable [DecidableEq K]

private theorem identities_update {f : WorkspaceSession K → WorkspaceSession K}
    (h : m.update identity f = some m') (hf : ∀ session, (f session).identity = session.identity) :
    m'.identities = m.identities := by
  simp only [update, Option.bind_eq_some_iff] at h
  obtain ⟨session, -, hchanged⟩ := h
  split at hchanged
  · cases hchanged
  · obtain rfl := Option.some.inj hchanged
    exact identities_modifyFirst hf m

private theorem identities_update_getD (m : SessionMembership K) (identity : String)
    {f : WorkspaceSession K → WorkspaceSession K}
    (hf : ∀ session, (f session).identity = session.identity) :
    ((m.update identity f).getD m).identities = m.identities := by
  cases hupdate : m.update identity f with
  | none => rfl
  | some m' => exact identities_update hupdate hf

private theorem subset_claimReported (host : Host) (binding : BindingRuntime K)
    (m : SessionMembership K) (session : MuxSession K) :
    m.identities ⊆ (binding.claimReported host m session).identities := by
  unfold BindingRuntime.claimReported
  split
  · exact List.Subset.refl _
  · next identity _ =>
    split
    · have hclaimed : m.identities ⊆ (binding.claimSession host m identity session).identities := by
        unfold BindingRuntime.claimSession
        split
        · have hsame : ((m.observeBackendName identity session.name).getD m).identities =
              m.identities := by
            apply identities_update_getD
            intro other
            rfl
          rw [hsame]
          exact List.Subset.refl _
        · exact subset_claim m _
      have hobserved (m' : SessionMembership K) (generation : Option Nat) :
          (m'.observeServerGeneration identity generation).identities = m'.identities := by
        apply identities_modifyFirst
        intro other
        rfl
      have hfilled (m' : SessionMembership K) :
          (binding.fillCwd host m' identity session.anchor.cwd).identities = m'.identities := by
        unfold BindingRuntime.fillCwd
        split
        · split
          · exact identities_update_getD m' identity fun _ ↦ rfl
          · rfl
        · rfl
      rw [hfilled, hobserved]
      exact hclaimed
    · exact List.Subset.refl _

private theorem mem_reconcileSessionState (host : Host) (binding : BindingRuntime K)
    (h : identity ∈ binding.sessions.identities)
    (hlive : ∀ session ∈ binding.sessions, session.identity = identity →
      (binding.mux.hasSessionSnapshot && binding.ended session) = false) :
    identity ∈ (binding.reconcileSessionState host).identities := by
  have hloop : ∀ (reported : List (MuxSession K)) (m : SessionMembership K),
      m.identities ⊆ (reported.foldl (binding.claimReported host) m).identities := by
    intro reported
    induction reported with
    | nil => exact fun m ↦ List.Subset.refl _
    | cons session rest ih =>
      intro m
      exact List.Subset.trans (subset_claimReported host binding m session) (ih _)
  unfold BindingRuntime.reconcileSessionState
  split
  · next hsnapshot =>
    apply hloop
    apply mem_releaseAll _ h
    intro hended
    obtain ⟨session, hsession, hidentity⟩ := List.mem_map.mp hended
    obtain ⟨hmem, hend⟩ := List.mem_filter.mp hsession
    have hnot := hlive session hmem hidentity
    rw [hsnapshot, hend] at hnot
    cases hnot
  · exact h

private theorem subset_applyBindingMembershipMutation {mutation : BindingMembershipMutation}
    (h : applyBindingMembershipMutation mutation m = .ok m') :
    m.identities ⊆ m'.identities := by
  have hnamed (identity backendName displayName : String) (explicit : Bool)
      (m : SessionMembership K) :
      (nameSession identity backendName displayName explicit m).identities = m.identities := by
    have hbackend : ((m.observeBackendName identity backendName).getD m).identities =
        m.identities := by
      apply identities_update_getD
      intro other
      rfl
    rw [← hbackend]
    apply identities_update_getD
    intro other
    rfl
  cases mutation with
  | create identity sessionName displayName explicit cwd initialState =>
    simp only [applyBindingMembershipMutation, Except.ok.injEq] at h
    rw [← h, hnamed]
    exact subset_claim m _
  | rename identity newName displayName explicit =>
    simp only [applyBindingMembershipMutation, bind_eq_ok, pure_eq_ok] at h
    obtain ⟨_, -, rfl⟩ := h
    rw [hnamed]
    exact List.Subset.refl _

end Kept
end SessionMembership

/-! ### What the table holds -/

namespace WorkspaceRuntime

/-- A row of the table stands for a session of the Space. -/
def Stands (ws : WorkspaceRuntime K) (scope : SpaceId) (identity : String) : Prop :=
  ∃ row ∈ ws.repository.rows, row.identity = identity ∧ row.spaceId = scope

/-- Every claimed session has its row, and the rows hold the checkpoints recorded. -/
structure Holds (latest : String → Option (SavedTerminalSession K)) (ws : WorkspaceRuntime K) :
    Prop where
  distinct : ws.Distinct
  keyed : ws.repository.Keyed
  backed : ∀ binding ∈ ws.bindings, ∀ identity ∈ binding.sessions.identities,
    ws.Stands binding.scope identity
  recorded : ∀ identity snapshot, latest identity = some snapshot → ws.claimed identity = true ∧
    ∀ row ∈ ws.repository.rows, row.identity = identity → row.terminalSnapshot = some snapshot

private theorem claimed_iff {ws : WorkspaceRuntime K} :
    ws.claimed identity = true ↔
      ∃ binding ∈ ws.bindings, identity ∈ binding.sessions.identities := by
  simp [claimed, List.any_eq_true, SessionMembership.contains_iff]

variable {scope : SpaceId}

private theorem stands_iff {ws : WorkspaceRuntime K} :
    ws.Stands scope identity ↔ identity ∈ (ws.repository.saved scope).map (·.identity) := by
  have hsorted := List.perm_insertionSort (fun a b : SessionRow K ↦ a.position ≤ b.position)
    (ws.repository.rows.filter (·.spaceId == scope))
  have hids : (ws.repository.saved scope).map (·.identity) =
      ((ws.repository.rows.filter (·.spaceId == scope)).insertionSort
        fun a b ↦ a.position ≤ b.position).map (·.identity) := by
    simp only [WorkspaceRepository.saved, WorkspaceRepository.membership, SessionMembership.saved,
      List.map_map]
    rfl
  rw [hids, (hsorted.map _).mem_iff]
  simp only [Stands, List.mem_map, List.mem_filter, beq_iff_eq]
  constructor
  · rintro ⟨row, hrow, hidentity, hscope⟩
    exact ⟨row, ⟨hrow, hscope⟩, hidentity⟩
  · rintro ⟨row, ⟨hrow, hscope⟩, hidentity⟩
    exact ⟨row, hrow, hidentity, hscope⟩

private theorem identities_saved (sessions : SessionMembership K) :
    sessions.saved.map (·.identity) = sessions.identities := by
  simp only [SessionMembership.saved, SessionMembership.identities, List.map_map]
  rfl

variable {latest : String → Option (SavedTerminalSession K)} {ws ws' : WorkspaceRuntime K}

private theorem Holds.of_frame (h : ws.Holds latest) (hdistinct : ws'.Distinct)
    (hrepository : ws'.repository = ws.repository)
    (hbacked : ∀ binding ∈ ws'.bindings, ∀ identity ∈ binding.sessions.identities,
      ws.Stands binding.scope identity)
    (hclaimed : ∀ identity, ws.claimed identity = true → ws'.claimed identity = true) :
    ws'.Holds latest := by
  refine ⟨hdistinct, by rw [hrepository]; exact h.keyed, ?_, ?_⟩
  · intro binding hbinding identity hidentity
    rw [Stands, hrepository]
    exact hbacked binding hbinding identity hidentity
  · intro identity snapshot hlatest
    rw [hrepository]
    obtain ⟨hbefore, hrows⟩ := h.recorded identity snapshot hlatest
    exact ⟨hclaimed identity hbefore, hrows⟩

private theorem Holds.modifyMux (h : ws.Holds latest) (scope : SpaceId)
    (f : MuxController K → MuxController K) : (ws.modifyMux scope f).Holds latest := by
  have hbindings := bindings_modifyMux h.distinct scope f
  apply h.of_frame (distinct_modifyMux h.distinct scope f) rfl
  · intro binding hbinding identity hidentity
    obtain ⟨before, hbefore, hscope, hsessions⟩ := mem_modifyMux hbinding
    rw [hsessions] at hidentity
    rw [hscope]
    exact h.backed before hbefore identity hidentity
  · intro identity hclaimed
    obtain ⟨binding, hbinding, hin⟩ := claimed_iff.mp hclaimed
    apply claimed_iff.mpr
    rw [hbindings]
    refine ⟨_, List.mem_map_of_mem hbinding, ?_⟩
    split
    · exact hin
    · exact hin

private theorem Holds.publish (h : ws.Holds latest) {live : BindingRuntime K}
    (hlive : ws.binding scope = some live) {sessions : SessionMembership K}
    (hsubset : live.sessions.identities ⊆ sessions.identities)
    (hbacked : ∀ identity ∈ sessions.identities, ws.Stands scope identity) :
    (ws.publish ⟨scope, sessions⟩).Holds latest := by
  obtain ⟨hmem, hscope⟩ := scope_of_binding hlive
  have hbindings : (ws.publish ⟨scope, sessions⟩).bindings = ws.bindings.map fun binding ↦
      if binding.scope = scope then binding.publishSessionState sessions else binding :=
    modifyFirst_key h.distinct scope _
  apply h.of_frame (distinct_publish h.distinct _) rfl
  · rw [hbindings]
    intro binding hbinding identity hidentity
    obtain ⟨before, hbefore, rfl⟩ := List.mem_map.mp hbinding
    split at hidentity
    · next hsame =>
      rw [if_pos hsame]
      change ws.Stands before.scope identity
      rw [hsame]
      exact hbacked identity hidentity
    · next hother =>
      rw [if_neg hother]
      exact h.backed before hbefore identity hidentity
  · intro identity hclaimed
    obtain ⟨binding, hbinding, hin⟩ := claimed_iff.mp hclaimed
    apply claimed_iff.mpr
    rw [hbindings]
    refine ⟨_, List.mem_map_of_mem hbinding, ?_⟩
    split
    · next hsame =>
      rw [eq_of_scope h.distinct hbinding hmem (hsame.trans hscope.symm)] at hin
      exact hsubset hin
    · exact hin

/-- The records of what is still claimed. -/
def stillClaimed (latest : String → Option (SavedTerminalSession K)) (ws : WorkspaceRuntime K) :
    String → Option (SavedTerminalSession K) :=
  fun identity ↦ if ws.claimed identity then latest identity else none

private theorem stillClaimed_eq_some {snapshot : SavedTerminalSession K}
    (h : stillClaimed latest ws identity = some snapshot) :
    ws.claimed identity = true ∧ latest identity = some snapshot := by
  unfold stillClaimed at h
  split at h
  · next hclaimed => exact ⟨hclaimed, h⟩
  · cases h

section Commit

variable [DecidableEq K] [Scalar K] {host : Host}

/-- A session that one candidate lets go and another one takes comes with the checkpoint of
its row. -/
def Hands (ws : WorkspaceRuntime K) (candidates : List (BindingStateCandidate K)) : Prop :=
  ∀ origin ∈ ws.bindings, ∀ identity ∈ origin.sessions.identities,
    ∀ released ∈ candidates, released.scope = origin.scope →
      identity ∉ released.sessions.identities →
    ∀ taken ∈ candidates, taken.scope ≠ origin.scope → ∀ session ∈ taken.sessions,
      session.identity = identity →
    ∀ row ∈ ws.repository.rows, row.identity = identity →
      session.terminalSnapshot = row.terminalSnapshot

variable {edit : Edit K}

private theorem Holds.commitEdit (h : ws.Holds latest) (hcommit : ws.commitEdit host edit = .ok ws')
    (hhands : ws.Hands edit.candidates) :
    ws'.Holds (stillClaimed latest ws') := by
  simp only [WorkspaceRuntime.commitEdit, bind_eq_ok, pure_eq_ok] at hcommit
  obtain ⟨middle, hmiddle, rfl⟩ := hcommit
  have hcommitted := commitBindingStateCandidates_eq_ok h.distinct hmiddle
  obtain ⟨states, hstates, hcandidates⟩ :=
    states_of_commitBindingStateCandidates h.distinct hmiddle
  refine ⟨hcommitted.distinct h.distinct,
    WorkspaceRepository.keyed_commitBindingStates hstates h.keyed, ?_, ?_⟩
  · intro binding hbinding identity hidentity
    apply stands_iff.mpr
    obtain ⟨before, hbefore, hscope, hcases⟩ := hcommitted.cases hbinding
    rw [hscope]
    rcases hcases with ⟨hsessions, hsaved⟩ | ⟨candidate, -, -, hsessions, -, hsaved⟩
    · rw [hsessions] at hidentity
      change identity ∈ (middle.repository.saved before.scope).map (·.identity)
      rw [hsaved]
      exact stands_iff.mp (h.backed before hbefore identity hidentity)
    · rw [hsessions] at hidentity
      change identity ∈ (middle.repository.saved before.scope).map (·.identity)
      rw [hsaved, identities_saved]
      exact hidentity
  · intro identity snapshot hlatest
    obtain ⟨hclaimed, hlatest⟩ := stillClaimed_eq_some hlatest
    refine ⟨hclaimed, ?_⟩
    intro row' hrow' hidentity
    obtain ⟨hbefore, hrows⟩ := h.recorded identity snapshot hlatest
    obtain ⟨origin, horigin, hin⟩ := claimed_iff.mp hbefore
    obtain ⟨row, hrow, hid, hspace⟩ := h.backed origin horigin identity hin
    rcases WorkspaceRepository.kept_or_carried h.keyed hstates hrow hrow'
      (hidentity.trans hid.symm) with hkept | ⟨⟨released, hreleased, hreleasedScope, hdropped⟩,
        taken, htaken, -, hother, session, hsession, hsame, hcopy⟩
    · rw [hkept]
      exact hrows row hrow hid
    · rw [← hcopy, ← hrows row hrow hid]
      rw [hid] at hdropped
      rw [hspace] at hreleasedScope hother
      exact hhands origin horigin identity hin _ (hcandidates released hreleased) hreleasedScope
        hdropped _ (hcandidates taken htaken) hother session hsession (hsame.trans hid) row hrow hid

omit [DecidableEq K] [Scalar K] in
private theorem hands_single {sessions : SessionMembership K} :
    ws.Hands [⟨scope, sessions⟩] := by
  intro origin _ identity _ released hreleased hscope _ taken htaken hother
  obtain rfl := List.mem_singleton.mp hreleased
  obtain rfl := List.mem_singleton.mp htaken
  exact absurd hscope hother

/-! ### Sessions that change Space -/

omit [DecidableEq K] [Scalar K] in
private theorem scope_unique (hkeyed : ws.repository.Keyed) {a b : SpaceId}
    (ha : ws.Stands a identity) (hb : ws.Stands b identity) : a = b := by
  obtain ⟨row, hrow, hidentity, rfl⟩ := ha
  obtain ⟨other, hother, hsame, rfl⟩ := hb
  rw [hkeyed.eq hrow hother (hidentity.trans hsame.symm)]

/-- The moved session is shown with the checkpoint of its row. -/
def movesCurrent (ws : WorkspaceRuntime K) (source : SpaceId) (sessionId : String) : Bool :=
  (ws.sessionIdentity source sessionId).all fun identity ↦
    (ws.binding source).all fun binding ↦ (binding.sessions.get identity).all fun session ↦
      ws.repository.rows.all fun row ↦
        row.identity != identity || decide (session.terminalSnapshot = row.terminalSnapshot)

/-- No session ends in one Space while the backend tags it for another. -/
def endsAlone (ws : WorkspaceRuntime K) : Bool :=
  ws.bindings.all fun origin ↦ origin.sessions.all fun session ↦
    !(origin.mux.hasSessionSnapshot && origin.ended session) ||
      ws.bindings.all fun other ↦
        other.scope == origin.scope || !other.tagged.contains session.identity

omit [DecidableEq K] [Scalar K] in
private theorem get_of_release {session : WorkspaceSession K}
    (h : m.release identity = some (session, m')) :
    m.get identity = some session := by
  simp only [SessionMembership.release, SessionMembership.position, Option.bind_eq_some_iff,
    Option.map_eq_some_iff, Prod.mk.injEq] at h
  obtain ⟨i, hi, found, hfound, rfl, -⟩ := h
  obtain ⟨hlt, hpasses, hbefore⟩ := List.findIdx?_eq_some_iff_getElem.mp hi
  obtain ⟨_, rfl⟩ := List.getElem?_eq_some_iff.mp hfound
  apply List.find?_eq_some_iff_getElem.mpr
  exact ⟨hpasses, i, hlt, rfl, fun j hj ↦ by simpa using hbefore j hj⟩

omit [Scalar K] in
private theorem hands_moveSessionToSpace {source target : SpaceId} {sessionId : String}
    (h : ws.Holds latest) (hedit : ws.moveSessionToSpace source sessionId target = some edit)
    (hcurrent : ws.movesCurrent source sessionId = true) : ws.Hands edit.candidates := by
  obtain ⟨moved, sourceBinding, targetBinding, claimed, rest, hne, hmoved, hsource, htarget,
    hrelease, hcandidates⟩ := moveSessionToSpace_eq_some hedit
  obtain ⟨hsourceMem, hsourceScope⟩ := scope_of_binding hsource
  obtain ⟨htargetMem, htargetScope⟩ := scope_of_binding htarget
  rw [hcandidates]
  intro origin horigin identity hin released hreleased hscope hdropped taken htaken hother session
    hsession hsame row hrow hid
  rcases List.mem_cons.mp hreleased with rfl | hreleased
  · obtain rfl : origin = sourceBinding :=
      eq_of_scope h.distinct horigin hsourceMem (hscope.symm.trans hsourceScope.symm)
    rcases List.mem_cons.mp htaken with rfl | htaken
    · exact absurd hscope hother
    · obtain rfl := List.mem_singleton.mp htaken
      have hfrom : session = claimed ∨ session ∈ targetBinding.sessions := by
        cases hclaim : targetBinding.sessions.claim claimed with
        | none =>
          rw [hclaim] at hsession
          exact .inr hsession
        | some sessions =>
          rw [hclaim] at hsession
          have hperm := (SessionMembership.perm_claim hclaim).1
          exact List.mem_cons.mp (hperm.mem_iff.mp hsession)
      rcases hfrom with rfl | htargets
      · have hidentity := (SessionMembership.release_eq_some hrelease).2.1
        simp only [movesCurrent, hmoved, hsource, get_of_release hrelease, Option.all_some,
          List.all_eq_true, Bool.or_eq_true, bne_iff_ne, decide_eq_true_eq] at hcurrent
        rcases hcurrent row hrow with hdiffers | hcopy
        · exact absurd (hid.trans (hsame.symm.trans hidentity)) hdiffers
        · exact hcopy
      · -- The target cannot show the session already: its row stands in the source.
        exfalso
        have hstands := h.backed targetBinding htargetMem identity
          (List.mem_map.mpr ⟨session, htargets, hsame⟩)
        have hsamescope := scope_unique h.keyed hstands (h.backed origin horigin identity hin)
        exact hne (htargetScope.symm.trans (hsamescope.trans hsourceScope))
  · obtain rfl := List.mem_singleton.mp hreleased
    obtain rfl : origin = targetBinding :=
      eq_of_scope h.distinct horigin htargetMem (hscope.symm.trans htargetScope.symm)
    exact absurd (SessionMembership.subset_claim _ claimed hin) hdropped

omit [Scalar K] in
private theorem hands_reconcileBindingStates (h : ws.Holds latest)
    (halone : ws.endsAlone = true) : ws.Hands (ws.reconcileBindingStates host).candidates := by
  intro origin horigin identity hin released hreleased hscope hdropped taken htaken hother session
    hsession hsame row hrow hid
  exfalso
  obtain ⟨dropping, hdropping, rfl⟩ := List.mem_map.mp hreleased
  obtain rfl : dropping = origin := eq_of_scope h.distinct hdropping horigin hscope
  obtain ⟨taking, htaking, rfl⟩ := List.mem_map.mp htaken
  have hended : ∃ session ∈ dropping.sessions, session.identity = identity ∧
      (dropping.mux.hasSessionSnapshot && dropping.ended session) = true := by
    by_contra hnot
    apply hdropped
    apply SessionMembership.mem_reconcileSessionState host dropping hin
    intro session hsession hsame
    rw [Bool.eq_false_iff]
    exact fun hend ↦ hnot ⟨session, hsession, hsame, hend⟩
  obtain ⟨gone, hgone, hgoneId, hend⟩ := hended
  have hids : identity ∈ (taking.reconcileSessionState host).identities :=
    List.mem_map.mpr ⟨session, hsession, hsame⟩
  rcases (SessionMembership.claims_reconcileSessionState host taking).subset identity hids with
    htagged | hheld
  · simp only [endsAlone, List.all_eq_true, Bool.or_eq_true] at halone
    rcases halone dropping horigin gone hgone with hnot | hothers
    · rw [hend] at hnot
      cases hnot
    · rcases hothers taking htaking with hsamescope | huntagged
      · exact hother (by simpa using hsamescope)
      · rw [hgoneId] at huntagged
        simp [htagged] at huntagged
  · exact hother (scope_unique h.keyed (h.backed taking htaking identity hheld)
      (h.backed dropping horigin identity hin))

omit [Scalar K] in
private theorem candidates_of_edit {event : WorkspaceEvent K}
    (h : WorkspaceClient.edit host ws event = some edit) :
    (∃ candidate, edit.candidates = [candidate]) ∨
      (∃ source sessionId target, event = .moveToSpace source sessionId target ∧
        ws.moveSessionToSpace source sessionId target = some edit) ∨
      event = .reconcile ∧ edit = ws.reconcileBindingStates host := by
  have hsaved {changed : Except String (Option (Edit K))}
      (hedit : changed.toOption.join = some edit) : changed = .ok (some edit) := by
    cases changed with
    | error message => cases hedit
    | ok planned => exact congrArg Except.ok hedit
  cases event with
  | moveToSpace source sessionId target =>
    exact .inr (.inl ⟨source, sessionId, target, rfl, h⟩)
  | reconcile => exact .inr (.inr ⟨rfl, (Option.some.inj h).symm⟩)
  | moveSession scope sessionId delta =>
    simp only [WorkspaceClient.edit, moveActiveSession, Option.bind_eq_bind,
      Option.bind_eq_some_iff, Option.pure_def, Option.some.injEq] at h
    obtain ⟨_, -, _, -, _, -, rfl⟩ := h
    exact .inl ⟨_, rfl⟩
  | reorderSession scope source before =>
    simp only [WorkspaceClient.edit, reorderActiveSessionBefore, Option.bind_eq_bind,
      Option.bind_eq_some_iff, Option.pure_def, Option.some.injEq] at h
    obtain ⟨_, -, _, -, _, -, _, -, rfl⟩ := h
    exact .inl ⟨_, rfl⟩
  | adoptSession scope sessionId minted =>
    simp only [WorkspaceClient.edit, adoptSessionIntoBinding, Option.bind_eq_bind,
      Option.bind_eq_some_iff, Option.pure_def, Option.some.injEq] at h
    obtain ⟨_, -, _, -, _, -, rfl⟩ := h
    exact .inl ⟨_, rfl⟩
  | detachSession scope sessionId =>
    simp only [WorkspaceClient.edit, detachSessionFromSpace, Option.bind_eq_bind,
      Option.bind_eq_some_iff, Option.pure_def, Option.some.injEq] at h
    obtain ⟨_, -, _, -, _, -, rfl⟩ := h
    exact .inl ⟨_, rfl⟩
  | setSessionTitle scope identity title =>
    have hset := hsaved h
    simp only [setSessionTitle, bind_eq_ok, context_eq_ok, pure_eq_ok,
      Option.map_eq_some_iff] at hset
    obtain ⟨_, -, _, -, _, -, _, -, rfl⟩ := hset
    exact .inl ⟨_, rfl⟩
  | setSessionState scope identity change =>
    have hset := hsaved h
    simp only [setSessionState, bind_eq_ok, context_eq_ok, pure_eq_ok,
      Option.map_eq_some_iff] at hset
    obtain ⟨_, -, _, -, _, -, _, -, rfl⟩ := hset
    exact .inl ⟨_, rfl⟩
  | _ => cases h

end Commit

/-! ### Commands -/

private theorem Holds.mono {fewer : String → Option (SavedTerminalSession K)} (h : ws.Holds latest)
    (hfewer : ∀ identity snapshot, fewer identity = some snapshot →
      latest identity = some snapshot) : ws.Holds fewer :=
  ⟨h.distinct, h.keyed, h.backed,
    fun identity snapshot hin ↦ h.recorded identity snapshot (hfewer identity snapshot hin)⟩

private theorem Holds.stillClaimed (h : ws.Holds latest) : ws.Holds (stillClaimed latest ws) :=
  h.mono fun _ _ hin ↦ (stillClaimed_eq_some hin).2

private theorem claimed_of_modifyMux {f : MuxController K → MuxController K}
    (h : (ws.modifyMux scope f).claimed identity = true) :
    ws.claimed identity = true := by
  obtain ⟨binding, hbinding, hin⟩ := claimed_iff.mp h
  obtain ⟨before, hbefore, -, hsessions⟩ := mem_modifyMux hbinding
  rw [hsessions] at hin
  exact claimed_iff.mpr ⟨before, hbefore, hin⟩

variable [DecidableEq K] [Scalar K] {host : Host}

omit [DecidableEq K] in
private theorem Holds.persist (h : ws.Holds latest) {scope : SpaceId}
    {next : SessionMembership K} {repository : WorkspaceRepository K}
    (hwrite : ws.repository.writeBindingState host scope next = .ok repository)
    (hheld : ∀ binding ∈ ws.bindings, binding.scope = scope →
      binding.sessions.identities ⊆ next.identities) :
    ({ ws with repository } : WorkspaceRuntime K).Holds latest := by
  have hkeyed := WorkspaceRepository.keyed_writeBindingState hwrite h.keyed
  refine ⟨h.distinct, hkeyed, ?_, ?_⟩
  · intro binding hbinding identity hidentity
    by_cases hscope : binding.scope = scope
    · obtain ⟨session, hsession, hsame⟩ :=
        List.mem_map.mp (hheld binding hbinding hscope hidentity)
      obtain ⟨row, hrow, hspace, hid, -⟩ :=
        WorkspaceRepository.exists_row_writeBindingState hwrite hsession
      exact ⟨row, hrow, hid.trans hsame, hspace.trans hscope.symm⟩
    · obtain ⟨row, hrow, hid, hspace⟩ := h.backed binding hbinding identity hidentity
      refine ⟨row, ?_, hid, hspace⟩
      apply WorkspaceRepository.mem_writeBindingState_of_ne hwrite hrow
      rw [hspace]
      exact hscope
  · intro identity snapshot hlatest
    obtain ⟨hclaimed, hrows⟩ := h.recorded identity snapshot hlatest
    refine ⟨hclaimed, ?_⟩
    intro row' hrow' hidentity
    obtain ⟨binding, hbinding, hin⟩ := claimed_iff.mp hclaimed
    obtain ⟨row, hrow, hid, -⟩ := h.backed binding hbinding identity hin
    rcases WorkspaceRepository.cases_writeBindingState hwrite hrow' with
      ⟨hkept, -⟩ | ⟨-, session, -, hsame, hcopy⟩
    · exact hrows row' hkept hidentity
    · rw [hcopy, WorkspaceRepository.storedSnapshot_of_mem h.keyed hrow
        (hid.trans (hidentity.symm.trans hsame))]
      exact hrows row hrow hid

omit [Scalar K] in
private theorem Holds.shown (h : ws.Holds latest) {membership : Option BindingMembershipMutation}
    {result : MuxCommandResult K} {shown : WorkspaceRuntime K}
    (hshown : ws.completeBindingMembershipCommand scope membership result = .ok shown)
    (hcreated : result ≠ .failed → ∀ mutation, membership = some mutation →
      ∀ identity ∈ mutation.created, ws.Stands scope identity) : shown.Holds latest := by
  by_cases hfailed : result = .failed
  · subst hfailed
    have hsame : shown = ws := by
      cases membership with
      | none => exact (Except.ok.inj hshown).symm
      | some mutation => exact (Except.ok.inj hshown).symm
    rw [hsame]
    exact h
  · rcases shown_cases hshown with
      ⟨rfl, -⟩ | ⟨mutation, live, sessions, hmembership, hlive, happly, rfl⟩
    · exact h
    · apply h.publish hlive (SessionMembership.subset_applyBindingMembershipMutation happly)
      intro identity hidentity
      have hclaims := SessionMembership.claims_applyBindingMembershipMutation happly
      rcases hclaims.subset identity hidentity with hnew | hheld
      · exact hcreated hfailed mutation hmembership identity hnew
      · obtain ⟨hmem, hscope⟩ := scope_of_binding hlive
        rw [← hscope]
        exact h.backed live hmem identity hheld

private theorem Holds.complete (h : ws.Holds latest) {pending : PendingMuxCommand K}
    {peer : Option Nat} {result : MuxCommandResult K}
    (hcreated : result ≠ .failed → ∀ mutation, pending.membership = some mutation →
      ∀ identity ∈ mutation.created, ws.Stands pending.scope identity) :
    (ws.completeAuthoritativeCommand host pending peer result).2.Holds
      (WorkspaceRuntime.stillClaimed latest
        (ws.completeAuthoritativeCommand host pending peer result).2) := by
  cases hshown : ws.completeBindingMembershipCommand pending.scope pending.membership result with
  | error message =>
    simp only [completeAuthoritativeCommand, hshown]
    exact h.stillClaimed
  | ok shown =>
    have hholds := h.shown hshown hcreated
    have hcompleted := completed_of_complete host peer hshown
    generalize ws.completeAuthoritativeCommand host pending peer result = outcome
      at hcompleted ⊢
    cases hcompleted with
    | failed => exact hholds.stillClaimed
    | launchFailed => exact hholds.stillClaimed
    | refused => exact hholds.stillClaimed
    | kept _ => exact (hholds.modifyMux _ _).stillClaimed
    | @closed snapshot edit closed hplanned hcommit =>
      have hsingle : ∃ candidate, edit.candidates = [candidate] := by
        cases hcommand : pending.command with
        | ditchSession sessionId =>
          rw [hcommand] at hplanned
          simp only [releaseClosedSession, Option.bind_eq_bind, Option.bind_eq_some_iff,
            Option.pure_def, Option.some.injEq] at hplanned
          obtain ⟨_, -, _, -, rfl⟩ := hplanned
          exact ⟨_, rfl⟩
        | _ =>
          rw [hcommand] at hplanned
          cases hplanned
      obtain ⟨candidate, hcandidate⟩ := hsingle
      have hclosed := hholds.commitEdit hcommit (by rw [hcandidate]; exact hands_single)
      apply (hclosed.modifyMux pending.scope (·.applyServerSnapshot peer snapshot)).mono
      intro identity saved hin
      obtain ⟨hclaimed, hlatest⟩ := stillClaimed_eq_some hin
      rw [WorkspaceRuntime.stillClaimed, if_pos (claimed_of_modifyMux hclaimed)]
      exact hlatest

end WorkspaceRuntime

/-! ### Steps -/

namespace CheckpointedWorkspace

variable [DecidableEq K] [Scalar K]

/-- A step that writes no outdated list or copy: a closure has captured every session its
Space claims, a created session still has its row when it is shown, and a session that
changes Space is shown with the checkpoint of its row. -/
def carries (s : CheckpointedWorkspace K) : CheckpointEvent K → Bool
  | .client (.persist n) => s.client.commands[n]?.all fun pending ↦
    pending.membership.all fun _ ↦ s.client.runtime.bindings.all fun binding ↦
      binding.scope != pending.scope ||
        binding.sessions.all fun session ↦ pending.captured.contains session.identity
  | .client (.complete _ _ .failed) => true
  | .client (.complete n _ _) => s.client.commands[n]?.all fun pending ↦
    pending.membership.all fun mutation ↦ mutation.created.all fun identity ↦
      s.client.runtime.repository.rows.any fun row ↦
        row.identity == identity && row.spaceId == pending.scope
  | .client (.moveToSpace source sessionId _) => s.client.runtime.movesCurrent source sessionId
  | .client .reconcile => s.client.runtime.endsAlone
  | _ => true

/-- The table holds the checkpoint committed last of every session that stays claimed. -/
def Current (s : CheckpointedWorkspace K) : Prop := s.client.runtime.Holds s.latest

variable {host : Host} {s s' : CheckpointedWorkspace K}

private theorem Current.client {event : WorkspaceEvent K} {client : WorkspaceClient K}
    (h : s.Current) (hcarries : s.carries (.client event) = true)
    (hstep : s.client.step host event = some client) : (s.withClient client).Current := by
  change client.runtime.Holds (WorkspaceRuntime.stillClaimed s.latest client.runtime)
  cases WorkspaceClient.transition_of_step hstep with
  | submit _ _ => exact h.stillClaimed
  | @persist n pending hlisted _ =>
    rcases WorkspaceClient.persist_cases host s.client n pending with ⟨-, heq⟩ |
      ⟨mutation, next, repository, hmembership, happly, hwrite, heq⟩ | heq
    · rw [heq]
      exact h.stillClaimed
    · rw [heq]
      simp only [carries, hlisted, hmembership, Option.all_some, List.all_eq_true, Bool.or_eq_true,
        bne_iff_ne, SessionMembership.contains_iff] at hcarries
      have hholds := h.persist hwrite (by
        intro binding hbinding hscope identity hidentity
        obtain ⟨session, hsession, rfl⟩ := List.mem_map.mp hidentity
        rcases hcarries binding hbinding with hother | hheld
        · exact absurd hscope hother
        · exact SessionMembership.subset_applyBindingMembershipMutation happly
            (hheld session hsession))
      exact hholds.stillClaimed
    · rw [heq]
      exact h.stillClaimed
  | @complete n pending peer result hlisted _ =>
    apply WorkspaceRuntime.Holds.complete h
    intro hresult mutation hmembership identity hidentity
    have hcreated : (mutation.created.all fun identity ↦
        s.client.runtime.repository.rows.any fun row ↦
          row.identity == identity && row.spaceId == pending.scope) = true := by
      cases result with
      | failed => exact absurd rfl hresult
      | ok snapshot => simpa [carries, hlisted, hmembership] using hcarries
      | launchFailed => simpa [carries, hlisted, hmembership] using hcarries
    obtain ⟨row, hrow, hmatches⟩ :=
      List.any_eq_true.mp (List.all_eq_true.mp hcreated identity hidentity)
    simp only [Bool.and_eq_true, beq_iff_eq] at hmatches
    exact ⟨row, hrow, hmatches.1, hmatches.2⟩
  | refresh => exact (WorkspaceRuntime.Holds.modifyMux h _ _).stillClaimed
  | setAvailable => exact (WorkspaceRuntime.Holds.modifyMux h _ _).stillClaimed
  | @edited event edit runtime hplanned hcommit =>
    apply WorkspaceRuntime.Holds.commitEdit h hcommit
    rcases WorkspaceRuntime.candidates_of_edit hplanned with ⟨candidate, hsingle⟩ |
      ⟨source, sessionId, target, rfl, hmove⟩ | ⟨rfl, rfl⟩
    · rw [hsingle]
      exact WorkspaceRuntime.hands_single
    · exact WorkspaceRuntime.hands_moveSessionToSpace h hmove hcarries
    · exact WorkspaceRuntime.hands_reconcileBindingStates h hcarries
  | rejected => exact h.stillClaimed

omit [Scalar K] in
private theorem identities_shown (receipt : SavedSessionCheckpoint K)
    (sessions : SessionMembership K) :
    ((sessions.setTerminalSnapshot receipt.identity receipt.snapshot).getD sessions).identities =
      sessions.identities := by
  apply SessionMembership.identities_update_getD
  intro session
  rfl

omit [Scalar K] in
private theorem Current.showCheckpoint (h : s.Current) (receipt : SavedSessionCheckpoint K) :
    (s.client.runtime.showCheckpoint receipt).Holds s.latest := by
  have hbindings : (s.client.runtime.showCheckpoint receipt).bindings =
      s.client.runtime.bindings.map fun b ↦ if b.scope = receipt.scope then
        { b with
          sessions :=
            (b.sessions.setTerminalSnapshot receipt.identity receipt.snapshot).getD b.sessions }
        else b :=
    modifyFirst_key h.distinct receipt.scope _
  have hscopes : (s.client.runtime.showCheckpoint receipt).bindings.map (·.scope) =
      s.client.runtime.bindings.map (·.scope) := by
    apply map_modifyFirst
    intro binding
    rfl
  apply WorkspaceRuntime.Holds.of_frame h
  · rw [WorkspaceRuntime.Distinct, hscopes]
    exact h.distinct
  · rfl
  · rw [hbindings]
    intro binding hbinding identity hidentity
    obtain ⟨before, hbefore, rfl⟩ := List.mem_map.mp hbinding
    split at hidentity
    · next hsame =>
      rw [identities_shown] at hidentity
      rw [if_pos hsame]
      exact h.backed before hbefore identity hidentity
    · next hother =>
      rw [if_neg hother]
      exact h.backed before hbefore identity hidentity
  · intro identity hclaimed
    obtain ⟨binding, hbinding, hin⟩ := WorkspaceRuntime.claimed_iff.mp hclaimed
    apply WorkspaceRuntime.claimed_iff.mpr
    rw [hbindings]
    refine ⟨_, List.mem_map_of_mem hbinding, ?_⟩
    split
    · rw [identities_shown]
      exact hin
    · exact hin

private theorem Current.saved {prepared : PreparedSessionCheckpoint K} {n : Nat}
    {repository : WorkspaceRepository K} {snapshot : SavedTerminalSession K} (h : s.Current)
    (hcommit : s.client.runtime.repository.commitTerminalSnapshot host prepared.scope
      prepared.identity prepared.previous snapshot = .ok repository) :
    (s.saved n repository
      ⟨prepared.scope, prepared.identity, prepared.generation, snapshot⟩).Current := by
  obtain ⟨-, -, ⟨owner, howner, hownerId, hownerScope, -⟩, hrows⟩ :=
    WorkspaceRepository.commitTerminalSnapshot_eq_ok hcommit
  have hkeys : repository.rows.map (·.identity) =
      s.client.runtime.repository.rows.map (·.identity) := by
    rw [hrows, List.map_map]
    apply List.map_congr_left
    intro row _
    simp only [Function.comp_apply]
    split
    · rfl
    · rfl
  refine ⟨h.distinct, ?_, ?_, ?_⟩
  · change (repository.rows.map (·.identity)).Nodup
    rw [hkeys]
    exact h.keyed
  · intro binding hbinding identity hidentity
    obtain ⟨row, hrow, hid, hspace⟩ := h.backed binding hbinding identity hidentity
    refine ⟨_, by
      change _ ∈ repository.rows
      rw [hrows]
      exact List.mem_map_of_mem hrow, ?_, ?_⟩
    · split
      · exact hid
      · exact hid
    · split
      · exact hspace
      · exact hspace
  · intro identity latest hlatest
    have hrecorded : ∀ row ∈ s.client.runtime.repository.rows, row.identity = identity →
        (identity = prepared.identity → row.spaceId = prepared.scope) := by
      intro row hrow hid hsame
      rw [h.keyed.eq hrow howner (hid.trans (hsame.trans hownerId.symm))]
      exact hownerScope
    simp only [CheckpointedWorkspace.saved] at hlatest
    change s.client.runtime.claimed identity = true ∧ ∀ row ∈ repository.rows, _
    rw [hrows]
    split at hlatest
    · next hnew =>
      obtain rfl := Option.some.inj hlatest
      refine ⟨hnew.2, ?_⟩
      intro row' hrow' hid
      obtain ⟨row, hrow, rfl⟩ := List.mem_map.mp hrow'
      have hrowId : row.identity = identity := by
        split at hid
        · exact hid
        · exact hid
      rw [if_pos ⟨hrowId.trans hnew.1, hrecorded row hrow hrowId hnew.1⟩]
    · next hold =>
      obtain ⟨hclaimed, hbefore⟩ := h.recorded identity latest hlatest
      refine ⟨hclaimed, ?_⟩
      intro row' hrow' hid
      obtain ⟨row, hrow, rfl⟩ := List.mem_map.mp hrow'
      have hrowId : row.identity = identity := by
        split at hid
        · exact hid
        · exact hid
      rw [if_neg]
      · exact hbefore row hrow hrowId
      · rintro ⟨hsame, -⟩
        exact hold ⟨hrowId.symm.trans hsame, hclaimed⟩

private theorem Current.step {event : CheckpointEvent K} (h : s.Current)
    (hcarries : s.carries event = true) (hstep : s.step host event = some s') : s'.Current := by
  cases transition_of_step hstep with
  | client hclient => exact h.client hcarries hclient
  | worker _ => exact h
  | saved hcommit => exact h.saved hcommit
  | published _ _ hshown =>
    rcases WorkspaceRuntime.publishSessionCheckpoint_cases hshown with ⟨rfl, -⟩ | ⟨rfl, -⟩
    · exact h
    · exact h.showCheckpoint _
  | malformed _ _ => exact h

/-! ### Runs -/

/-- A workspace that has just been opened: the checkpoints of what it claims are those stored. -/
structure Opened (s : CheckpointedWorkspace K) : Prop where
  client : s.client.Opened
  keyed : s.client.runtime.repository.Keyed
  receipts : s.receipts = []
  unpublished : s.unpublished = []
  latest : ∀ identity snapshot, s.latest identity = some snapshot ↔
    s.client.runtime.claimed identity = true ∧
      s.client.runtime.repository.stored identity = some (some snapshot)

omit [DecidableEq K] [Scalar K] in
private theorem Opened.current (h : s.Opened) : s.Current := by
  refine ⟨h.client.distinct, h.keyed, ?_, ?_⟩
  · intro binding hbinding identity hidentity
    apply WorkspaceRuntime.stands_iff.mpr
    rw [WorkspaceRepository.saved, ← h.client.loaded binding hbinding,
      WorkspaceRuntime.identities_saved]
    exact hidentity
  · intro identity snapshot hlatest
    obtain ⟨hclaimed, hstored⟩ := (h.latest identity snapshot).mp hlatest
    refine ⟨hclaimed, ?_⟩
    intro row hrow hidentity
    rw [← hidentity, WorkspaceRepository.stored_of_mem h.keyed hrow, Option.some.injEq] at hstored
    exact hstored

/-- In a run that writes no outdated list or copy, the checkpoint stored for a session that
stays claimed is the one committed last. -/
theorem stored_checkpoint_is_latest (host : Host) {init s : CheckpointedWorkspace K}
    (hinit : init.Opened)
    (hrun : Reaches (step host) (fun s event ↦ s.carries event = true) init s) {identity : String}
    {snapshot : SavedTerminalSession K} (hlatest : s.latest identity = some snapshot) :
    s.client.runtime.repository.stored identity = some (some snapshot) := by
  have hcurrent : s.Current := by
    apply hrun.invariant hinit.current
    intro before event after h hcarries hstep
    exact h.step hcarries hstep
  obtain ⟨hclaimed, hrows⟩ := hcurrent.recorded identity snapshot hlatest
  obtain ⟨binding, hbinding, hin⟩ := WorkspaceRuntime.claimed_iff.mp hclaimed
  obtain ⟨row, hrow, hid, -⟩ := hcurrent.backed binding hbinding identity hin
  rw [← hid, WorkspaceRepository.stored_of_mem hcurrent.keyed hrow, hrows row hrow hid]

/-! ### A session and two Spaces -/

/-- The session `x` of the first of two Spaces, just opened. -/
def twoSpaces : CheckpointedWorkspace Binary32 :=
  let row : SessionRow Binary32 :=
    { identity := "x", spaceId := 1, backendName := "x", displayName := "x", explicit := false
      cwd := "/src", state := {}, terminalSnapshot := none, position := 0 }
  { client :=
      { runtime :=
          { repository := { spaces := [1, 2], rows := [row] }
            bindings := [{ scope := 1, spaceTag := "a", remote := false, sessions := [row.session]
                           mux := {} },
                         { scope := 2, spaceTag := "b", remote := false, sessions := []
                           mux := {} }] } } }

private theorem opened_twoSpaces : twoSpaces.Opened := by
  refine ⟨⟨(by decide : ([1, 2] : List SpaceId).Nodup), rfl, ?_⟩, List.nodup_singleton _, rfl,
    rfl, ?_⟩
  · intro binding hbinding
    simp only [twoSpaces, List.mem_cons, List.not_mem_nil, or_false] at hbinding
    rcases hbinding with rfl | rfl
    · decide +kernel
    · decide +kernel
  · intro identity snapshot
    constructor
    · rintro ⟨⟩
    · rintro ⟨-, hstored⟩
      obtain ⟨row, hfind, hsome⟩ := Option.map_eq_some_iff.mp hstored
      obtain rfl := List.mem_singleton.mp (List.mem_of_find?_eq_some hfind)
      cases hsome

/-- The session as the server reports it. -/
private def reportedSession : MuxSession Binary32 :=
  { id := "s", name := "x", active := true
    anchor := { sessionId := "s", paneId := some "p", panePid := none, cwd := none
                process := none }
    activeWindowId := none, windows := [], tag := ⟨some "x", some "a"⟩ }

private def savedWindow : SavedTerminalWindow Binary32 :=
  { id := "w", backendId := "w", title := "", focusedPaneId := "p", layout := none
    panes := [{ id := "p", backendId := "p", cwd := "/src", cols := 0, rows := 0, text := "" }] }

/-- The server reports the session, and a checkpoint of it is saved. -/
private def saving : List (CheckpointEvent Binary32) :=
  [.client (.refresh 1 none ⟨7, 1, ⟨[reportedSession], none⟩⟩),
    .prepare 1 "x" 0 10 none [savedWindow],
    .save 0 [{ paneId := "p", cwd := none, cols := 0, rows := 0, text := "", omittedLines := 0 }]]

/-- The receipt is published before the session moves to the other Space. -/
theorem stored_checkpoint_is_latest_moved : ∃ s : CheckpointedWorkspace Binary32,
    (s.latest "x").isSome = true ∧
      s.client.runtime.repository.stored "x" = some (s.latest "x") := by
  obtain ⟨s, hrun, hgoal⟩ := exists_reaches_of_runEvents (fun _ _ htest ↦ htest)
    (show (runEvents (step Host.plain) carries twoSpaces
      (saving ++ [.publish 0, .client (.moveToSpace 1 "x" 2)])).map
        (fun s ↦ (s.latest "x").isSome) = some true by decide +kernel)
  obtain ⟨snapshot, hlatest⟩ := Option.isSome_iff_exists.mp hgoal
  refine ⟨s, hgoal, ?_⟩
  rw [hlatest]
  exact stored_checkpoint_is_latest Host.plain opened_twoSpaces hrun hlatest

/-- A move before the receipt is published stores the copy that the checkpoint replaced. -/
theorem not_stored_checkpoint_is_latest :
    ¬ ∀ s, Reaches (step Host.plain) anyStep twoSpaces s → ∀ identity snapshot,
      s.latest identity = some snapshot →
      s.client.runtime.repository.stored identity = some (some snapshot) := by
  intro h
  obtain ⟨s, hrun, hgoal⟩ := exists_reaches_anyStep
    (show (runEvents (step Host.plain) anyTest twoSpaces
      (saving ++ [.client (.moveToSpace 1 "x" 2)])).map (fun s ↦ (s.latest "x").isSome &&
        decide (s.client.runtime.repository.stored "x" = some none)) = some true by decide +kernel)
  simp only [Bool.and_eq_true, decide_eq_true_eq] at hgoal
  obtain ⟨snapshot, hlatest⟩ := Option.isSome_iff_exists.mp hgoal.1
  have hstored := h s hrun "x" snapshot hlatest
  rw [hgoal.2] at hstored
  cases hstored

end CheckpointedWorkspace
end Bootty.Mux
