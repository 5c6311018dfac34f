import Bootty.Mux.WorkspaceClient

/-!
# What a step brings into a Space

Every operation either keeps the identities a Space claims or brings in identities that its
event determines: the adopted or moved session, the session a completed command created, or
the sessions that the binding's held snapshot tags for the Space.
-/

namespace Bootty.Mux

open Bootty.Base

variable {K : Type}

/-- The identity a saved change creates. -/
def BindingMembershipMutation.created : BindingMembershipMutation → List String
  | .create identity _ _ _ _ _ => [identity]
  | .rename _ _ _ _ => []

/-- The identities that the held snapshot tags for the binding's Space. -/
def BindingRuntime.tagged (binding : BindingRuntime K) : List String :=
  binding.mux.backendSessions.filterMap fun session ↦
    if session.tag.space = some binding.spaceTag then session.tag.identity else none

namespace SessionMembership

private theorem claims_releaseAll (added : List String) (m : SessionMembership K)
    (identities : List String) : Claims added m (BindingRuntime.releaseAll m identities) := by
  unfold BindingRuntime.releaseAll
  induction identities generalizing m with
  | nil => exact Claims.refl m
  | cons identity rest ih => exact (claims_release m identity added).trans (ih _)

section Mutations

variable [DecidableEq K]

private theorem claims_nameSession (identity backendName displayName : String) (explicit : Bool)
    (added : List String) (m : SessionMembership K) :
    Claims added m (nameSession identity backendName displayName explicit m) := by
  have hbackend : Claims added m ((m.observeBackendName identity backendName).getD m) :=
    Claims.getD fun m' hm' ↦ claims_update added hm' fun _ ↦ rfl
  apply hbackend.trans
  exact Claims.getD fun m' hm' ↦ claims_update added hm' fun _ ↦ rfl

/-- What a mutation claims. -/
theorem claims_applyBindingMembershipMutation {mutation : BindingMembershipMutation}
    {m m' : SessionMembership K} (h : applyBindingMembershipMutation mutation m = .ok m') :
    Claims mutation.created m m' := by
  cases mutation with
  | create identity sessionName displayName explicit cwd initialState =>
    simp only [applyBindingMembershipMutation, Except.ok.injEq] at h
    subst h
    apply Claims.trans _ (claims_nameSession _ _ _ _ _ _)
    exact Claims.getD fun m' hm' ↦ claims_claim hm'
  | rename identity newName displayName explicit =>
    simp only [applyBindingMembershipMutation, bind_eq_ok, pure_eq_ok] at h
    obtain ⟨_, -, rfl⟩ := h
    exact claims_nameSession _ _ _ _ _ _

private theorem claims_claimSession (host : Host) (binding : BindingRuntime K)
    (m : SessionMembership K) (identity : String) (session : MuxSession K) :
    Claims [identity] m (binding.claimSession host m identity session) := by
  unfold BindingRuntime.claimSession
  split
  · exact Claims.getD fun m' hm' ↦ claims_update _ hm' fun _ ↦ rfl
  · exact Claims.getD fun m' hm' ↦ claims_claim hm'

private theorem claims_fillCwd (host : Host) (binding : BindingRuntime K) (added : List String)
    (m : SessionMembership K) (identity : String) (cwd : Option String) :
    Claims added m (binding.fillCwd host m identity cwd) := by
  unfold BindingRuntime.fillCwd
  split
  · split
    · exact Claims.getD fun m' hm' ↦ claims_update _ hm' fun _ ↦ rfl
    · exact Claims.refl m
  · exact Claims.refl m

private theorem claims_claimReported (host : Host) {binding : BindingRuntime K}
    {session : MuxSession K} (hsession : session ∈ binding.mux.backendSessions)
    (m : SessionMembership K) : Claims binding.tagged m (binding.claimReported host m session) := by
  unfold BindingRuntime.claimReported
  split
  · exact Claims.refl m
  · next identity hidentity =>
    split
    · next htag =>
      have htagged : [identity] ⊆ binding.tagged := by
        intro other hother
        obtain rfl := List.mem_singleton.mp hother
        exact List.mem_filterMap.mpr ⟨session, hsession, by rw [if_pos htag, hidentity]⟩
      apply (Claims.mono (claims_claimSession host binding m identity session) htagged).trans
      apply Claims.trans _ (claims_fillCwd host binding _ _ identity session.anchor.cwd)
      apply Claims.of_identities
      apply identities_modifyFirst
      intro other
      rfl
    · exact Claims.refl m

/-- Reconciling claims what the held snapshot tags, and nothing else. -/
theorem claims_reconcileSessionState (host : Host) (binding : BindingRuntime K) :
    Claims binding.tagged binding.sessions (binding.reconcileSessionState host) := by
  have hloop : ∀ (reported : List (MuxSession K)) (m : SessionMembership K),
      (∀ session ∈ reported, session ∈ binding.mux.backendSessions) →
      Claims binding.tagged m (reported.foldl (binding.claimReported host) m) := by
    intro reported
    induction reported with
    | nil => exact fun m _ ↦ Claims.refl m
    | cons session rest ih =>
      intro m hreported
      apply (claims_claimReported host (hreported _ List.mem_cons_self) m).trans
      exact ih _ fun other hother ↦ hreported other (List.mem_cons_of_mem _ hother)
  unfold BindingRuntime.reconcileSessionState
  split
  · exact (claims_releaseAll _ _ _).trans (hloop _ _ fun _ hmem ↦ hmem)
  · exact Claims.refl _

end Mutations
end SessionMembership

/-! ### Edits -/

variable {event : WorkspaceEvent K} {scope : SpaceId}

namespace WorkspaceRuntime

/-- The identity that an adoption claims. -/
def adoptedIdentity (ws : WorkspaceRuntime K) (scope : SpaceId) (sessionId minted : String) :
    Option String :=
  ((ws.binding scope).bind (·.mux.backendSessionByIdOrName sessionId)).map fun session ↦
    session.tag.identity.getD minted

/-- The identities that a synchronous operation may bring into a Space. -/
def claimedBy (ws : WorkspaceRuntime K) (scope : SpaceId) : WorkspaceEvent K → List String
  | .adoptSession target sessionId minted =>
    if target = scope then (ws.adoptedIdentity target sessionId minted).toList else []
  | .moveToSpace source sessionId target =>
    if target = scope then (ws.sessionIdentity source sessionId).toList else []
  | .reconcile => ((ws.binding scope).map BindingRuntime.tagged).getD []
  | _ => []

/-- Every candidate of an edit claims no more than its event says. -/
def EditClaims (ws : WorkspaceRuntime K) (event : WorkspaceEvent K) (edit : Edit K) : Prop :=
  ∀ candidate ∈ edit.candidates, ∀ binding, ws.binding candidate.scope = some binding →
    binding.sessions.Claims (ws.claimedBy candidate.scope event) candidate.sessions

private theorem editClaims_single {ws : WorkspaceRuntime K} {sessions : SessionMembership K}
    {stamp : Option (SpaceId × MuxCommand K)} {binding : BindingRuntime K}
    (hbinding : ws.binding scope = some binding)
    (h : binding.sessions.Claims (ws.claimedBy scope event) sessions) :
    ws.EditClaims event { candidates := [⟨scope, sessions⟩], stamp } := by
  intro candidate hcandidate other hother
  obtain rfl := List.mem_singleton.mp hcandidate
  obtain rfl : binding = other := Option.some.inj (hbinding.symm.trans hother)
  exact h

variable {sessionId : String}

private theorem editClaims_moveActiveSession {ws : WorkspaceRuntime K} {delta : Int} {edit : Edit K}
    (h : ws.moveActiveSession scope sessionId delta = some edit) :
    ws.EditClaims (.moveSession scope sessionId delta) edit := by
  simp only [moveActiveSession, Option.bind_eq_bind, Option.bind_eq_some_iff, Option.pure_def,
    Option.some.injEq] at h
  obtain ⟨_, -, binding, hbinding, sessions, hmoved, rfl⟩ := h
  exact editClaims_single hbinding (.of_perm (SessionMembership.perm_moveBy hmoved))

private theorem editClaims_reorderActiveSessionBefore {ws : WorkspaceRuntime K} {source : String}
    {before : Option String} {edit : Edit K}
    (h : ws.reorderActiveSessionBefore scope source before = some edit) :
    ws.EditClaims (.reorderSession scope source before) edit := by
  simp only [reorderActiveSessionBefore, Option.bind_eq_bind, Option.bind_eq_some_iff,
    Option.pure_def, Option.some.injEq] at h
  obtain ⟨_, -, _, -, binding, hbinding, sessions, hmoved, rfl⟩ := h
  exact editClaims_single hbinding (.of_perm (SessionMembership.perm_moveBefore hmoved))

private theorem editClaims_adoptSessionIntoBinding {ws : WorkspaceRuntime K} {minted : String}
    {edit : Edit K} (h : ws.adoptSessionIntoBinding scope sessionId minted = some edit) :
    ws.EditClaims (.adoptSession scope sessionId minted) edit := by
  simp only [adoptSessionIntoBinding, Option.bind_eq_bind, Option.bind_eq_some_iff,
    Option.pure_def, Option.some.injEq] at h
  obtain ⟨binding, hbinding, session, hsession, sessions, hclaim, rfl⟩ := h
  apply editClaims_single hbinding
  have hadopted : ws.adoptedIdentity scope sessionId minted =
      some (session.tag.identity.getD minted) := by
    simp [adoptedIdentity, hbinding, hsession]
  rw [claimedBy, if_pos rfl, hadopted]
  exact SessionMembership.claims_claim hclaim

/-- A move hands the session over to another Space. -/
theorem moveSessionToSpace_eq_some {ws : WorkspaceRuntime K} {source target : SpaceId}
    {edit : Edit K} (h : ws.moveSessionToSpace source sessionId target = some edit) :
    ∃ identity sourceBinding targetBinding claimed released,
      target ≠ source ∧ ws.sessionIdentity source sessionId = some identity ∧
        ws.binding source = some sourceBinding ∧ ws.binding target = some targetBinding ∧
        sourceBinding.sessions.release identity = some (claimed, released) ∧
        edit.candidates = [⟨source, released⟩,
          ⟨target, (targetBinding.sessions.claim claimed).getD targetBinding.sessions⟩] := by
  simp only [moveSessionToSpace] at h
  split at h
  · next hpossible =>
    simp only [Option.bind_eq_bind, Option.bind_eq_some_iff, Option.pure_def,
      Option.some.injEq] at h
    obtain ⟨identity, hidentity, sourceBinding, hsource, targetBinding, htarget,
      ⟨claimed, released⟩, hrelease, rfl⟩ := h
    refine ⟨identity, sourceBinding, targetBinding, claimed, released, ?_, hidentity, hsource,
      htarget, hrelease, rfl⟩
    simp only [sessionMoveIsPossible, hsource, htarget, Option.any_some, Bool.and_eq_true,
      bne_iff_ne] at hpossible
    rw [← (scope_of_binding htarget).2]
    exact hpossible.1.1
  · cases h

private theorem editClaims_moveSessionToSpace {ws : WorkspaceRuntime K} {source target : SpaceId}
    {edit : Edit K} (h : ws.moveSessionToSpace source sessionId target = some edit) :
    ws.EditClaims (.moveToSpace source sessionId target) edit := by
  obtain ⟨identity, sourceBinding, targetBinding, claimed, released, -, hidentity, hsource,
    htarget, hrelease, hcandidates⟩ := moveSessionToSpace_eq_some h
  obtain ⟨-, hclaimed, hsublist, -⟩ := SessionMembership.release_eq_some hrelease
  intro candidate hcandidate binding hbinding
  rw [hcandidates] at hcandidate
  rcases List.mem_cons.mp hcandidate with rfl | hcandidate
  · obtain rfl : sourceBinding = binding := Option.some.inj (hsource.symm.trans hbinding)
    exact .of_sublist hsublist
  · obtain rfl := List.mem_singleton.mp hcandidate
    obtain rfl : targetBinding = binding := Option.some.inj (htarget.symm.trans hbinding)
    rw [claimedBy, if_pos rfl, hidentity, ← hclaimed]
    exact .getD fun m' hm' ↦ SessionMembership.claims_claim hm'

private theorem editClaims_detachSessionFromSpace {ws : WorkspaceRuntime K} {edit : Edit K}
    (h : ws.detachSessionFromSpace scope sessionId = some edit) :
    ws.EditClaims (.detachSession scope sessionId) edit := by
  simp only [detachSessionFromSpace, Option.bind_eq_bind, Option.bind_eq_some_iff,
    Option.pure_def, Option.some.injEq] at h
  obtain ⟨binding, hbinding, _, -, ⟨session, released⟩, hrelease, rfl⟩ := h
  exact editClaims_single hbinding
    (.of_sublist (SessionMembership.release_eq_some hrelease).2.2.1)

/-- Closing a session claims nothing. -/
theorem claims_releaseClosedSession {ws : WorkspaceRuntime K} {command : MuxCommand K}
    {edit : Edit K} (h : ws.releaseClosedSession scope command = some edit)
    {candidate : BindingStateCandidate K} (hcandidate : candidate ∈ edit.candidates)
    {binding : BindingRuntime K} (hbinding : ws.binding candidate.scope = some binding)
    (added : List String) :
    binding.sessions.Claims added candidate.sessions := by
  cases command with
  | ditchSession sessionId =>
    simp only [releaseClosedSession, Option.bind_eq_bind, Option.bind_eq_some_iff,
      Option.pure_def, Option.some.injEq] at h
    obtain ⟨identity, -, live, hlive, rfl⟩ := h
    obtain rfl := List.mem_singleton.mp hcandidate
    obtain rfl : live = binding := Option.some.inj (hlive.symm.trans hbinding)
    exact SessionMembership.claims_release live.sessions identity added
  | _ => cases h

section Saved

variable [DecidableEq K]

private theorem editClaims_setSessionTitle {ws : WorkspaceRuntime K} {identity title : String}
    {edit : Edit K} (h : (ws.setSessionTitle scope identity title).toOption.join = some edit) :
    ws.EditClaims (.setSessionTitle scope identity title) edit := by
  cases hset : ws.setSessionTitle scope identity title with
  | error message => simp [hset, Except.toOption] at h
  | ok changed =>
    rw [hset] at h
    obtain rfl : changed = some edit := h
    simp only [setSessionTitle, bind_eq_ok, context_eq_ok, pure_eq_ok,
      Option.map_eq_some_iff] at hset
    obtain ⟨_, -, binding, hbinding, _, -, sessions, hsessions, rfl⟩ := hset
    exact editClaims_single hbinding
      (SessionMembership.claims_update _ hsessions fun _ ↦ rfl)

private theorem editClaims_setSessionState {ws : WorkspaceRuntime K} {identity : String}
    {change : SessionStateChange} {edit : Edit K}
    (h : (ws.setSessionState scope identity change).toOption.join = some edit) :
    ws.EditClaims (.setSessionState scope identity change) edit := by
  cases hset : ws.setSessionState scope identity change with
  | error message => simp [hset, Except.toOption] at h
  | ok changed =>
    rw [hset] at h
    obtain rfl : changed = some edit := h
    simp only [setSessionState, bind_eq_ok, context_eq_ok, pure_eq_ok,
      Option.map_eq_some_iff] at hset
    obtain ⟨_, -, binding, hbinding, _, -, sessions, hsessions, rfl⟩ := hset
    exact editClaims_single hbinding
      (SessionMembership.claims_update _ hsessions fun _ ↦ rfl)

private theorem editClaims_reconcileBindingStates {host : Host} {ws : WorkspaceRuntime K}
    (hdistinct : ws.Distinct) : ws.EditClaims .reconcile (ws.reconcileBindingStates host) := by
  intro candidate hcandidate binding hbinding
  obtain ⟨live, hlive, rfl⟩ := List.mem_map.mp hcandidate
  obtain rfl : live = binding :=
    Option.some.inj ((binding_of_mem hdistinct hlive).symm.trans hbinding)
  rw [claimedBy, hbinding]
  exact SessionMembership.claims_reconcileSessionState host live

private theorem editClaims_of_edit {host : Host} {ws : WorkspaceRuntime K} (hdistinct : ws.Distinct)
    {edit : Edit K} (h : WorkspaceClient.edit host ws event = some edit) :
    ws.EditClaims event edit := by
  cases event with
  | moveSession scope sessionId delta => exact editClaims_moveActiveSession h
  | reorderSession scope source before => exact editClaims_reorderActiveSessionBefore h
  | adoptSession scope sessionId minted => exact editClaims_adoptSessionIntoBinding h
  | moveToSpace source sessionId target => exact editClaims_moveSessionToSpace h
  | detachSession scope sessionId => exact editClaims_detachSessionFromSpace h
  | setSessionTitle scope identity title => exact editClaims_setSessionTitle h
  | setSessionState scope identity change => exact editClaims_setSessionState h
  | reconcile =>
    obtain rfl := Option.some.inj h
    exact editClaims_reconcileBindingStates hdistinct
  | _ => cases h

end Saved
end WorkspaceRuntime

/-! ### Held snapshots -/

/-- The sessions of a controller are some of those of a snapshot at its revision. -/
def MuxController.Held (snapshots : List (TopologySnapshot K)) (mux : MuxController K) : Prop :=
  mux.backendSessions = [] ∨ ∃ snapshot ∈ snapshots,
    mux.serverRevision = some snapshot.revision ∧
      mux.backendSessions ⊆ snapshot.snapshot.sessions

namespace MuxController

variable {snapshots : List (TopologySnapshot K)} {mux : MuxController K}

theorem Held.mono {more : List (TopologySnapshot K)} (h : mux.Held snapshots)
    (hmore : snapshots ⊆ more) : mux.Held more := by
  rcases h with hnil | ⟨snapshot, hmem, hrevision, hsubset⟩
  · exact .inl hnil
  · exact .inr ⟨snapshot, hmore hmem, hrevision, hsubset⟩

private theorem backendSessions_applySessionOrder (mux : MuxController K) (names : List String) :
    (mux.applySessionOrder names).backendSessions ⊆ mux.backendSessions := by
  by_cases hempty : mux.allSessions.isEmpty = true
  · have hordered : (mux.applySessionOrder names).backendSessions =
        orderSessionsByNames mux.backendSessions names := by
      simp [backendSessions, applySessionOrder, hempty]
    rw [hordered]
    exact orderSessionsByNames_subset _ _
  · have hsame : (mux.applySessionOrder names).backendSessions = mux.backendSessions := by
      simp [backendSessions, applySessionOrder, hempty]
    rw [hsame]
    exact List.Subset.refl _

private theorem backendSessions_of_eq (h : mux.sessions = mux.allSessions) :
    mux.backendSessions = mux.allSessions := by
  unfold backendSessions
  split
  · exact h
  · rfl

private theorem Held.applySessionOrder (h : mux.Held snapshots) (names : List String) :
    (mux.applySessionOrder names).Held snapshots := by
  have hsubset := backendSessions_applySessionOrder mux names
  rcases h with hnil | ⟨snapshot, hmem, hrevision, hsessions⟩
  · rw [hnil] at hsubset
    exact .inl (List.subset_nil.mp hsubset)
  · exact .inr ⟨snapshot, hmem, hrevision, List.Subset.trans hsubset hsessions⟩

private theorem Held.applyServerSnapshot (h : mux.Held snapshots) (peer : Option Nat)
    {snapshot : TopologySnapshot K} (hmem : snapshot ∈ snapshots) :
    (mux.applyServerSnapshot peer snapshot).Held snapshots := by
  unfold MuxController.applyServerSnapshot
  split
  · exact h
  · refine .inr ⟨snapshot, hmem, rfl, ?_⟩
    intro session hsession
    rw [backendSessions_of_eq rfl] at hsession
    exact (stableSessionOrder_perm _ _).mem_iff.mp hsession

end MuxController

/-! ### Steps -/

section Follows

variable (uses : SpaceId → Bool) (snapshots : List (TopologySnapshot K))

/-- What a step does to one binding: it claims no more than `added`, and a controller of a
used server goes on holding one of the server's snapshots. -/
structure BindingStep (added : List String) (before after : BindingRuntime K) : Prop where
  scope : after.scope = before.scope
  spaceTag : after.spaceTag = before.spaceTag
  claims : before.sessions.Claims added after.sessions
  held : uses before.scope = true → before.mux.Held snapshots → after.mux.Held snapshots

/-- Every binding after a step comes from one before it. -/
def Follows (added : SpaceId → List String) (ws ws' : WorkspaceRuntime K) : Prop :=
  ∀ after ∈ ws'.bindings, ∃ before ∈ ws.bindings,
    BindingStep uses snapshots (added before.scope) before after

variable {uses snapshots}

private theorem BindingStep.refl (added : List String) (binding : BindingRuntime K) :
    BindingStep uses snapshots added binding binding :=
  ⟨rfl, rfl, .refl _, fun _ h ↦ h⟩

private theorem BindingStep.trans {added : List String} {a b c : BindingRuntime K}
    (h : BindingStep uses snapshots added a b) (h' : BindingStep uses snapshots added b c) :
    BindingStep uses snapshots added a c := by
  refine ⟨h'.scope.trans h.scope, h'.spaceTag.trans h.spaceTag, h.claims.trans h'.claims, ?_⟩
  intro huses hheld
  exact h'.held (by rw [h.scope]; exact huses) (h.held huses hheld)

namespace Follows

variable {added : SpaceId → List String} {ws ws' ws'' : WorkspaceRuntime K}

private theorem refl (added : SpaceId → List String) (ws : WorkspaceRuntime K) :
    Follows uses snapshots added ws ws :=
  fun binding hbinding ↦ ⟨binding, hbinding, .refl _ _⟩

private theorem trans (h : Follows uses snapshots added ws ws')
    (h' : Follows uses snapshots added ws' ws'') :
    Follows uses snapshots added ws ws'' := by
  intro c hc
  obtain ⟨b, hb, hbc⟩ := h' c hc
  obtain ⟨a, ha, hab⟩ := h b hb
  rw [hab.scope] at hbc
  exact ⟨a, ha, hab.trans hbc⟩

private theorem modifyMux {f : MuxController K → MuxController K}
    (h : uses scope = true → ∀ mux : MuxController K, mux.Held snapshots → (f mux).Held snapshots) :
    Follows uses snapshots added ws (ws.modifyMux scope f) := by
  intro after hafter
  rcases mem_modifyFirst hafter with hafter | ⟨before, hbefore, hscope, rfl⟩
  · exact ⟨after, hafter, .refl _ _⟩
  · have hscope : before.scope = scope := by simpa using hscope
    refine ⟨before, hbefore, rfl, rfl, .refl _, fun huses hheld ↦ ?_⟩
    rw [hscope] at huses
    exact h huses _ hheld

private theorem publish (candidate : BindingStateCandidate K)
    (h : ∀ binding ∈ ws.bindings, binding.scope = candidate.scope →
      binding.sessions.Claims (added binding.scope) candidate.sessions) :
    Follows uses snapshots added ws (ws.publish candidate) := by
  intro after hafter
  rcases mem_modifyFirst hafter with hafter | ⟨before, hbefore, hscope, rfl⟩
  · exact ⟨after, hafter, .refl _ _⟩
  · have hscope : before.scope = candidate.scope := by simpa using hscope
    exact ⟨before, hbefore, rfl, rfl, h before hbefore hscope,
      fun _ hheld ↦ hheld.applySessionOrder _⟩

private theorem committed {candidates : List (BindingStateCandidate K)} (hdistinct : ws.Distinct)
    (hcommitted : ws.Committed candidates ws')
    (h : ∀ candidate ∈ candidates, ∀ binding, ws.binding candidate.scope = some binding →
      binding.sessions.Claims (added candidate.scope) candidate.sessions) :
    Follows uses snapshots added ws ws' := by
  intro after hafter
  rw [hcommitted.bindings] at hafter
  obtain ⟨before, hbefore, rfl⟩ := List.mem_map.mp hafter
  refine ⟨before, hbefore, ?_⟩
  by_cases hcandidate : ∃ candidate ∈ candidates, candidate.scope = before.scope
  · obtain ⟨candidate, hmem, hscope⟩ := hcandidate
    rw [WorkspaceRuntime.published_of_mem hcommitted.scopes hmem hscope]
    have hlive := WorkspaceRuntime.binding_of_mem hdistinct hbefore
    rw [← hscope] at hlive
    refine ⟨rfl, rfl, ?_, fun _ hheld ↦ hheld.applySessionOrder _⟩
    rw [← hscope]
    exact h candidate hmem before hlive
  · rw [WorkspaceRuntime.published_of_ne fun candidate hmem hscope ↦
      hcandidate ⟨candidate, hmem, hscope⟩]
    exact .refl _ _

end Follows

namespace WorkspaceClient

/-- The identities that a step may bring into a Space. -/
def claimedIn (client : WorkspaceClient K) (event : WorkspaceEvent K) (scope : SpaceId) :
    List String :=
  match event with
  | .complete n _ _ =>
    match client.commands[n]? with
    | some pending =>
      if pending.scope = scope then (pending.membership.map (·.created)).getD [] else []
    | none => []
  | event => client.runtime.claimedBy scope event

/-- The snapshots that an event hands to controllers of the used server are its own. -/
def Delivers (uses : SpaceId → Bool) (snapshots : List (TopologySnapshot K))
    (client : WorkspaceClient K) : WorkspaceEvent K → Prop
  | .refresh scope _ snapshot => uses scope = true → snapshot ∈ snapshots
  | .complete n _ (.ok snapshot) => ∀ pending, client.commands[n]? = some pending →
    uses pending.scope = true → snapshot ∈ snapshots
  | _ => True

section Step

variable [DecidableEq K] [Scalar K] {host : Host}

private theorem follows_commitEdit {ws ws' : WorkspaceRuntime K} {edit : Edit K}
    {added : SpaceId → List String} (hdistinct : ws.Distinct)
    (hcommit : ws.commitEdit host edit = .ok ws')
    (h : ∀ candidate ∈ edit.candidates, ∀ binding, ws.binding candidate.scope = some binding →
      binding.sessions.Claims (added candidate.scope) candidate.sessions) :
    Follows uses snapshots added ws ws' := by
  obtain ⟨middle, hcommitted, rfl⟩ := WorkspaceRuntime.committed_of_commitEdit hdistinct hcommit
  have hmiddle : Follows uses snapshots added ws middle := .committed hdistinct hcommitted h
  exact hmiddle

/-- What the completion of a command creates in its own Space. -/
private def createdIn (pending : PendingMuxCommand K) (scope : SpaceId) : List String :=
  if pending.scope = scope then (pending.membership.map (·.created)).getD [] else []

omit [Scalar K] in
private theorem follows_shown {ws shown : WorkspaceRuntime K} {pending : PendingMuxCommand K}
    {result : MuxCommandResult K} (hdistinct : ws.Distinct)
    (h : ws.completeBindingMembershipCommand pending.scope pending.membership result = .ok shown) :
    Follows uses snapshots (createdIn pending) ws shown := by
  rcases WorkspaceRuntime.shown_cases h with
    ⟨rfl, -⟩ | ⟨mutation, live, sessions, hmembership, hlive, happly, rfl⟩
  · exact .refl _ _
  · apply Follows.publish
    intro binding hbinding hscope
    change binding.scope = pending.scope at hscope
    have hsame := WorkspaceRuntime.binding_of_mem hdistinct hbinding
    rw [hscope] at hsame
    obtain rfl : live = binding := Option.some.inj (hlive.symm.trans hsame)
    rw [createdIn, if_pos hscope.symm, hmembership]
    exact SessionMembership.claims_applyBindingMembershipMutation happly

private theorem follows_complete {ws : WorkspaceRuntime K} {pending : PendingMuxCommand K}
    {peer : Option Nat} {result : MuxCommandResult K} (hdistinct : ws.Distinct)
    (hdelivers : ∀ snapshot, result = .ok snapshot → uses pending.scope = true →
      snapshot ∈ snapshots) :
    Follows uses snapshots (createdIn pending) ws
      (ws.completeAuthoritativeCommand host pending peer result).2 := by
  cases hshown : ws.completeBindingMembershipCommand pending.scope pending.membership result with
  | error message =>
    simp only [WorkspaceRuntime.completeAuthoritativeCommand, hshown]
    exact .refl _ _
  | ok shown =>
    have hfollows : Follows uses snapshots (createdIn pending) ws shown :=
      follows_shown hdistinct hshown
    have hcompleted := WorkspaceRuntime.completed_of_complete host peer hshown
    generalize ws.completeAuthoritativeCommand host pending peer result = outcome
      at hcompleted ⊢
    cases hcompleted with
    | failed => exact hfollows
    | launchFailed => exact hfollows
    | refused => exact hfollows
    | @kept snapshot _ =>
      apply hfollows.trans
      exact .modifyMux fun huses mux hheld ↦
        hheld.applyServerSnapshot peer (hdelivers snapshot rfl huses)
    | @closed snapshot edit closed hplanned hcommit =>
      have hclosed : Follows uses snapshots (createdIn pending) shown closed := by
        apply follows_commitEdit (WorkspaceRuntime.distinct_shown hdistinct hshown) hcommit
        intro candidate hcandidate binding hbinding
        exact WorkspaceRuntime.claims_releaseClosedSession hplanned hcandidate hbinding _
      apply (hfollows.trans hclosed).trans
      exact .modifyMux fun huses mux hheld ↦
        hheld.applyServerSnapshot peer (hdelivers snapshot rfl huses)

/-- A step brings into a Space only what its event says. -/
theorem follows_of_step {client client' : WorkspaceClient K} (hdistinct : client.runtime.Distinct)
    (hdelivers : client.Delivers uses snapshots event)
    (hstep : client.step host event = some client') :
    Follows uses snapshots (client.claimedIn event) client.runtime client'.runtime := by
  cases transition_of_step hstep with
  | submit _ _ => exact .refl _ _
  | @persist n pending _ _ =>
    rcases persist_cases host client n pending with ⟨-, heq⟩ | ⟨_, _, _, -, -, -, heq⟩ | heq
    · rw [heq]
      exact .refl _ _
    · rw [heq]
      exact .refl _ _
    · rw [heq]
      exact .refl _ _
  | @complete n pending peer result hlisted _ =>
    have hcreated : client.claimedIn (.complete n peer result) = createdIn pending := by
      funext scope
      simp only [claimedIn, hlisted]
      rfl
    rw [hcreated]
    apply follows_complete hdistinct
    rintro snapshot rfl huses
    exact hdelivers pending hlisted huses
  | @refresh scope peer snapshot =>
    exact .modifyMux fun huses mux hheld ↦ hheld.applyServerSnapshot peer (hdelivers huses)
  | setAvailable => exact .modifyMux fun _ mux hheld ↦ hheld
  | @edited event edit runtime hplanned hcommit =>
    have hclaims := WorkspaceRuntime.editClaims_of_edit hdistinct hplanned
    apply follows_commitEdit hdistinct hcommit
    intro candidate hcandidate binding hbinding
    have hclaimed := hclaims candidate hcandidate binding hbinding
    cases event with
    | complete n peer result => cases hplanned
    | _ => exact hclaimed
  | rejected => exact .refl _ _

/-- Scopes stay distinct over every step. -/
theorem distinct_of_step {client client' : WorkspaceClient K} (hdistinct : client.runtime.Distinct)
    (hstep : client.step host event = some client') :
    client'.runtime.Distinct := by
  cases transition_of_step hstep with
  | submit _ _ => exact hdistinct
  | @persist n pending _ _ =>
    rcases persist_cases host client n pending with ⟨-, heq⟩ | ⟨_, _, _, -, -, -, heq⟩ | heq
    · rw [heq]
      exact hdistinct
    · rw [heq]
      exact hdistinct
    · rw [heq]
      exact hdistinct
  | complete _ _ => exact WorkspaceRuntime.distinct_complete hdistinct _ _ _
  | refresh => exact WorkspaceRuntime.distinct_modifyMux hdistinct _ _
  | setAvailable => exact WorkspaceRuntime.distinct_modifyMux hdistinct _ _
  | edited _ hcommit => exact WorkspaceRuntime.distinct_commitEdit hdistinct hcommit
  | rejected => exact hdistinct

end Step
end WorkspaceClient
end Follows
end Bootty.Mux
