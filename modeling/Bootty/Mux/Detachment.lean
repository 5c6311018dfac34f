import Bootty.Base.Binary32
import Bootty.Mux.Native.Execute
import Bootty.Mux.SavedMembership
import Bootty.Mux.WorkspaceClaims

/-!
# Sessions that leave a Space

A workspace beside the server of one of its Spaces. `detach_session_from_space` and
`move_session_to_space` (`crates/bootty-mux/src/workspace.rs:1423–1524`) release a session at
once and send the stamp that clears its tag; until a snapshot from after the stamp arrives,
the controller still holds one that tags the session for the Space it left. Every frame
reconciles against the snapshot held (`workspace.rs:449–512, 825–863`).
-/

namespace Bootty.Mux

open Bootty.Base Bootty.Mux.Native

variable {K : Type}

/-- A workspace and the server of its used Spaces. `published` are the snapshots the server
has reported, `performed` the requests it has executed with the revision of each. -/
structure ServedWorkspace (K : Type) where
  client : WorkspaceClient K
  topology : NativeMuxState K
  revision : Nat
  published : List (TopologySnapshot K)
  performed : List (Nat × Nat) := []

/-- What client and servers do. -/
inductive ServedEvent (K : Type) where
  | client (event : WorkspaceEvent K)
  | deliver (scope : SpaceId) (peer : Option Nat) (k : Nat)
  | answer (n : Nat) (peer : Option Nat) (k : Nat)
  | serve (op : TopologyOp K)
  | stamp (n : Nat)

/-- A session that left a Space: the tag of that Space and the place of the stamp among the
requests, if one was sent. -/
structure Departure where
  identity : String
  spaceTag : String
  request : Option Nat
  deriving DecidableEq

namespace WorkspaceRuntime

/-- The session that an operation takes out of a Space. -/
def leaving (ws : WorkspaceRuntime K) (scope : SpaceId) : WorkspaceEvent K → Option String
  | .detachSession source sessionId =>
    if source = scope then ws.sessionIdentity source sessionId else none
  | .moveToSpace source sessionId _ =>
    if source = scope then ws.sessionIdentity source sessionId else none
  | _ => none

/-- The operation returns `Ok(true)`: the session it names has left the Space. -/
def departs [DecidableEq K] [Scalar K] (host : Host) (ws : WorkspaceRuntime K) (scope : SpaceId)
    (event : WorkspaceEvent K) : Option Departure := do
  let identity ← ws.leaving scope event
  let binding ← ws.binding scope
  let edit ← WorkspaceClient.edit host ws event
  if (ws.commitEdit host edit).isOk then
    some { identity, spaceTag := binding.spaceTag
           request := edit.stamp.map fun _ ↦ ws.requests.length }
  else none

end WorkspaceRuntime

namespace ServedWorkspace

/-- A snapshot handed in by the client itself comes from the server of another Space. -/
def foreign (uses : SpaceId → Bool) (client : WorkspaceClient K) : WorkspaceEvent K → Bool
  | .refresh scope _ _ => !uses scope
  | .complete n _ (.ok _) => client.commands[n]?.all fun pending ↦ !uses pending.scope
  | _ => true

/-- The operation of the client that an event runs: its own, or the arrival of a published
snapshot by itself or as the answer to a command. -/
def clientEvent (uses : SpaceId → Bool) (s : ServedWorkspace K) :
    ServedEvent K → Option (WorkspaceEvent K)
  | .client event => if foreign uses s.client event then some event else none
  | .deliver scope peer k => s.published[k]?.map (.refresh scope peer)
  | .answer n peer k => s.published[k]?.map fun snapshot ↦ .complete n peer (.ok snapshot)
  | _ => none

/-- `native/server.rs:103–121`. -/
def publish (s : ServedWorkspace K) (topology : NativeMuxState K) : ServedWorkspace K :=
  { s with
    topology
    revision := s.revision + 1
    published := s.published ++ [⟨topology.generation, s.revision + 1, topology.snapshot⟩] }

variable [DecidableEq K] [Scalar K]

/-- One event, where it can happen. -/
def step (host : Host) (uses : SpaceId → Bool) (s : ServedWorkspace K)
    (event : ServedEvent K) : Option (ServedWorkspace K) :=
  match event with
  | .serve op =>
    match s.topology.apply op with
    | .ok topology => some (s.publish topology)
    | .error _ => none
  | .stamp n =>
    match s.client.runtime.requests[n]? with
    | some (scope, command) =>
      if uses scope && !(s.performed.any (·.1 == n)) then
        match s.topology.execute host command with
        | .ok topology =>
          some { s.publish topology with performed := s.performed ++ [(n, s.revision + 1)] }
        | .error _ => none
      else none
    | none => none
  | event =>
    match s.clientEvent uses event with
    | some event => (s.client.step host event).map fun client ↦ { s with client }
    | none => none

/-- The revision at which the server executed a stamp. -/
def stampRevision (s : ServedWorkspace K) (request : Option Nat) : Option Nat :=
  request.bind fun n ↦ (s.performed.find? (·.1 == n)).map Prod.snd

/-- The server has reported, at or after the stamp, a tag that claims the session. -/
def Reported (departure : Departure) (s : ServedWorkspace K) : Prop :=
  ∃ stamped, s.stampRevision departure.request = some stamped ∧
    ∃ snapshot ∈ s.published, stamped ≤ snapshot.revision ∧
      ∃ session ∈ snapshot.snapshot.sessions,
        session.tag = ⟨some departure.identity, some departure.spaceTag⟩

/-- An adoption, a move into the Space or the completion of a create or restore that names
the session. -/
def restores (uses : SpaceId → Bool) (scope : SpaceId) (departure : Departure)
    (s : ServedWorkspace K) (event : ServedEvent K) : Bool :=
  match s.clientEvent uses event with
  | some .reconcile => false
  | some event => (s.client.claimedIn event scope).contains departure.identity
  | none => false

/-- A frame does not reconcile the Space while the snapshot it holds is older than the stamp
and still tags the session. -/
def current (scope : SpaceId) (departure : Departure) (s : ServedWorkspace K) :
    ServedEvent K → Bool
  | .client .reconcile => (s.client.runtime.binding scope).all fun binding ↦
    !binding.tagged.contains departure.identity ||
      (s.stampRevision departure.request).any fun stamped ↦
        binding.mux.serverRevision.any (stamped ≤ ·)
  | _ => true

/-- A workspace that has just been opened: what it shows is what is saved, every row has its
own key, and no snapshot has arrived. -/
structure Opened (s : ServedWorkspace K) : Prop where
  client : s.client.Opened
  keys : (s.client.runtime.repository.rows.map (·.identity)).Nodup
  unheard : ∀ binding ∈ s.client.runtime.bindings, binding.mux.backendSessions = []

/-- What every run keeps: bindings are known by their scope, no Space claims an identity
twice, and a controller of a used Space holds sessions of a published snapshot. -/
structure Sound (uses : SpaceId → Bool) (s : ServedWorkspace K) : Prop where
  distinct : s.client.runtime.Distinct
  nodup : ∀ binding ∈ s.client.runtime.bindings, binding.sessions.identities.Nodup
  held : ∀ binding ∈ s.client.runtime.bindings, uses binding.scope = true →
    binding.mux.Held s.published

/-! ### Steps -/

variable {departure : Departure}

section Steps

variable {host : Host} {uses : SpaceId → Bool} {s s' : ServedWorkspace K}

variable {event : ServedEvent K}

/-- A step runs an operation of the client, or the server publishes. -/
theorem step_cases (h : s.step host uses event = some s') :
    (∃ operation client, s.clientEvent uses event = some operation ∧
        s.client.step host operation = some client ∧ s' = { s with client }) ∨
      s.clientEvent uses event = none ∧ s'.client = s.client ∧
        s.published ⊆ s'.published ∧ ∃ more, s'.performed = s.performed ++ more := by
  have hclient (hevent : (match s.clientEvent uses event with
      | some event => (s.client.step host event).map fun client ↦ { s with client }
      | none => none) = some s') :
      ∃ operation client, s.clientEvent uses event = some operation ∧
        s.client.step host operation = some client ∧ s' = { s with client } := by
    cases hoperation : s.clientEvent uses event with
    | none => simp [hoperation] at hevent
    | some operation =>
      simp only [hoperation, Option.map_eq_some_iff] at hevent
      obtain ⟨client, hstep, rfl⟩ := hevent
      exact ⟨operation, client, rfl, hstep, rfl⟩
  cases event with
  | client event => exact .inl (hclient h)
  | deliver scope peer k => exact .inl (hclient h)
  | answer n peer k => exact .inl (hclient h)
  | serve op =>
    right
    simp only [step] at h
    split at h
    · obtain rfl := Option.some.inj h
      exact ⟨rfl, rfl, List.subset_append_left _ _, [], (List.append_nil _).symm⟩
    · cases h
  | stamp n =>
    right
    simp only [step] at h
    split at h
    · split at h
      · split at h
        · obtain rfl := Option.some.inj h
          exact ⟨rfl, rfl, List.subset_append_left _ _, _, rfl⟩
        · cases h
      · cases h
    · cases h

omit [DecidableEq K] [Scalar K] in
private theorem delivers_of_clientEvent {operation : WorkspaceEvent K}
    (h : s.clientEvent uses event = some operation) :
    s.client.Delivers uses s.published operation := by
  cases event with
  | client event =>
    simp only [clientEvent] at h
    split at h
    · next hforeign =>
      obtain rfl := Option.some.inj h
      cases event with
      | refresh scope peer snapshot =>
        intro huses
        simp [foreign, huses] at hforeign
      | complete n peer result =>
        cases result with
        | ok snapshot =>
          intro pending hlisted huses
          simp [foreign, hlisted, huses] at hforeign
        | launchFailed => trivial
        | failed => trivial
      | _ => trivial
    · cases h
  | deliver scope peer k =>
    obtain ⟨snapshot, hsnapshot, rfl⟩ := Option.map_eq_some_iff.mp h
    exact fun _ ↦ List.mem_of_getElem? hsnapshot
  | answer n peer k =>
    obtain ⟨snapshot, hsnapshot, rfl⟩ := Option.map_eq_some_iff.mp h
    exact fun _ _ _ ↦ List.mem_of_getElem? hsnapshot
  | serve op => cases h
  | stamp n => cases h

private theorem Sound.step (h : s.Sound uses) (hstep : s.step host uses event = some s') :
    s'.Sound uses := by
  rcases step_cases hstep with ⟨operation, client, hoperation, hclient, rfl⟩ |
    ⟨-, hsame, hpublished, -⟩
  · have hfollows := WorkspaceClient.follows_of_step h.distinct
      (delivers_of_clientEvent hoperation) hclient
    refine ⟨WorkspaceClient.distinct_of_step h.distinct hclient, ?_, ?_⟩
    · intro after hafter
      obtain ⟨before, hbefore, hbinding⟩ := hfollows after hafter
      exact hbinding.claims.nodup (h.nodup before hbefore)
    · intro after hafter huses
      obtain ⟨before, hbefore, hbinding⟩ := hfollows after hafter
      rw [hbinding.scope] at huses
      exact hbinding.held huses (h.held before hbefore huses)
  · constructor
    · rw [hsame]
      exact h.distinct
    · rw [hsame]
      exact h.nodup
    · rw [hsame]
      intro binding hbinding huses
      exact (h.held binding hbinding huses).mono hpublished

omit [DecidableEq K] [Scalar K] in
private theorem nodup_membership {repository : WorkspaceRepository K}
    (hkeys : (repository.rows.map (·.identity)).Nodup) (scope : SpaceId) :
    (repository.membership scope).identities.Nodup := by
  have hrows := ((List.filter_sublist (p := fun row : SessionRow K ↦ row.spaceId == scope)
    (l := repository.rows)).map (·.identity)).nodup hkeys
  have hsorted := (List.perm_insertionSort (fun a b : SessionRow K ↦ a.position ≤ b.position)
    (repository.rows.filter (·.spaceId == scope))).map (·.identity)
  have hsame : (repository.membership scope).identities =
      ((repository.rows.filter (·.spaceId == scope)).insertionSort
        fun a b ↦ a.position ≤ b.position).map (·.identity) := by
    simp only [SessionMembership.identities, WorkspaceRepository.membership, List.map_map]
    rfl
  rw [hsame]
  exact hsorted.nodup_iff.mpr hrows

omit [DecidableEq K] [Scalar K] in
private theorem Opened.sound (h : s.Opened) (uses : SpaceId → Bool) : s.Sound uses := by
  refine ⟨h.client.distinct, ?_, ?_⟩
  · intro binding hbinding
    rw [h.client.loaded binding hbinding]
    exact nodup_membership h.keys binding.scope
  · intro binding hbinding _
    exact .inl (h.unheard binding hbinding)

/-- What has been reported stays reported. -/
theorem Reported.step (h : s.Reported departure) (hstep : s.step host uses event = some s') :
    s'.Reported departure := by
  obtain ⟨stamped, hstamped, snapshot, hsnapshot, hrest⟩ := h
  rcases step_cases hstep with ⟨_, client, -, -, rfl⟩ | ⟨-, -, hpublished, more, hperformed⟩
  · exact ⟨stamped, hstamped, snapshot, hsnapshot, hrest⟩
  · refine ⟨stamped, ?_, snapshot, hpublished hsnapshot, hrest⟩
    obtain ⟨n, hrequest, hfound⟩ := Option.bind_eq_some_iff.mp hstamped
    obtain ⟨entry, hentry, hrevision⟩ := Option.map_eq_some_iff.mp hfound
    rw [stampRevision, hrequest, Option.bind_some, hperformed, List.find?_append, hentry]
    exact congrArg some hrevision

/-! ### Departures -/

/-- The Space a session left does not claim it. -/
def AbsentFrom (scope : SpaceId) (departure : Departure) (s : ServedWorkspace K) : Prop :=
  ∀ binding ∈ s.client.runtime.bindings, binding.scope = scope →
    departure.identity ∉ binding.sessions.identities

variable {scope : SpaceId}

private theorem departs_eq_some {ws : WorkspaceRuntime K} {event : WorkspaceEvent K}
    (h : ws.departs host scope event = some departure) :
    ∃ binding edit runtime, ws.leaving scope event = some departure.identity ∧
      ws.binding scope = some binding ∧ departure.spaceTag = binding.spaceTag ∧
      WorkspaceClient.edit host ws event = some edit ∧ ws.commitEdit host edit = .ok runtime := by
  simp only [WorkspaceRuntime.departs, Option.bind_eq_bind, Option.bind_eq_some_iff] at h
  obtain ⟨identity, hleaving, binding, hbinding, edit, hedit, h⟩ := h
  split at h
  · next hok =>
    obtain rfl := Option.some.inj h
    cases hcommit : ws.commitEdit host edit with
    | error message => simp [hcommit, Except.isOk, Except.toBool] at hok
    | ok runtime => exact ⟨binding, edit, runtime, hleaving, hbinding, rfl, hedit, hcommit⟩
  · cases h

omit [Scalar K] in
private theorem released_of_edit {ws : WorkspaceRuntime K} {event : WorkspaceEvent K}
    {identity : String} {edit : Edit K} {binding : BindingRuntime K}
    (hleaving : ws.leaving scope event = some identity) (hbinding : ws.binding scope = some binding)
    (hedit : WorkspaceClient.edit host ws event = some edit) :
    ∃ session released, binding.sessions.release identity = some (session, released) ∧
      ⟨scope, released⟩ ∈ edit.candidates := by
  cases event with
  | detachSession source sessionId =>
    simp only [WorkspaceRuntime.leaving] at hleaving
    split at hleaving
    · next hsource =>
      subst hsource
      simp only [WorkspaceClient.edit, WorkspaceRuntime.detachSessionFromSpace, hbinding, hleaving,
        Option.bind_eq_bind, Option.bind_some, Option.bind_eq_some_iff, Option.pure_def,
        Option.some.injEq] at hedit
      obtain ⟨⟨session, released⟩, hrelease, rfl⟩ := hedit
      exact ⟨session, released, hrelease, List.mem_singleton_self _⟩
    · cases hleaving
  | moveToSpace source sessionId target =>
    simp only [WorkspaceRuntime.leaving] at hleaving
    split at hleaving
    · next hsource =>
      subst hsource
      obtain ⟨moved, sourceBinding, _, session, released, -, hmoved, hsource, -, hrelease,
        hcandidates⟩ := WorkspaceRuntime.moveSessionToSpace_eq_some hedit
      obtain rfl : identity = moved := Option.some.inj (hleaving.symm.trans hmoved)
      obtain rfl : binding = sourceBinding := Option.some.inj (hbinding.symm.trans hsource)
      refine ⟨session, released, hrelease, ?_⟩
      rw [hcandidates]
      exact List.mem_cons_self
    · cases hleaving
  | _ => cases hleaving

/-- Right after the operation the Space does not claim the session. -/
theorem absent_of_departs {event : WorkspaceEvent K} (hsound : s.Sound uses)
    (hdeparts : s.client.runtime.departs host scope event = some departure)
    (hstep : s.step host uses (.client event) = some s') : s'.AbsentFrom scope departure := by
  obtain ⟨binding, edit, runtime, hleaving, hbinding, -, hedit, hcommit⟩ :=
    departs_eq_some hdeparts
  obtain ⟨session, released, hrelease, hcandidate⟩ :=
    released_of_edit hleaving hbinding hedit
  have hclient : s'.client.runtime = runtime := by
    rcases step_cases hstep with ⟨operation, client, hoperation, hclient, rfl⟩ | ⟨hnone, -⟩
    · obtain rfl : event = operation := by
        simp only [clientEvent] at hoperation
        split at hoperation
        · exact Option.some.inj hoperation
        · cases hoperation
      cases event with
      | detachSession source sessionId =>
        simp only [WorkspaceClient.step, hedit, hcommit, Option.some.injEq] at hclient
        rw [← hclient]
      | moveToSpace source sessionId target =>
        simp only [WorkspaceClient.step, hedit, hcommit, Option.some.injEq] at hclient
        rw [← hclient]
      | _ => cases hleaving
    · cases event with
      | detachSession source sessionId => simp [clientEvent, foreign] at hnone
      | moveToSpace source sessionId target => simp [clientEvent, foreign] at hnone
      | _ => cases hleaving
  obtain ⟨middle, hcommitted, rfl⟩ :=
    WorkspaceRuntime.committed_of_commitEdit hsound.distinct hcommit
  obtain ⟨hlive, hscope⟩ := WorkspaceRuntime.scope_of_binding hbinding
  intro after hafter hafterScope
  rw [hclient, hcommitted.bindings] at hafter
  obtain ⟨before, hbefore, rfl⟩ := List.mem_map.mp hafter
  rw [WorkspaceRuntime.scope_published] at hafterScope
  obtain rfl : before = binding :=
    WorkspaceRuntime.eq_of_scope hsound.distinct hbefore hlive (hafterScope.trans hscope.symm)
  rw [WorkspaceRuntime.published_of_mem hcommitted.scopes hcandidate hscope.symm]
  exact (SessionMembership.release_eq_some hrelease).2.2.2 (hsound.nodup before hbefore)

omit [DecidableEq K] [Scalar K] in
private theorem reported_of_tagged (hsound : s.Sound uses) (hserver : uses scope = true)
    {binding : BindingRuntime K} (hbinding : binding ∈ s.client.runtime.bindings)
    (hscope : binding.scope = scope) (htag : binding.spaceTag = departure.spaceTag)
    (htagged : departure.identity ∈ binding.tagged) {stamped revision : Nat}
    (hstamped : s.stampRevision departure.request = some stamped)
    (hrevision : binding.mux.serverRevision = some revision) (hle : stamped ≤ revision) :
    s.Reported departure := by
  obtain ⟨session, hsession, hidentity⟩ := List.mem_filterMap.mp htagged
  split at hidentity
  · next hspace =>
    rcases hsound.held binding hbinding (by rw [hscope]; exact hserver) with
      hnil | ⟨snapshot, hsnapshot, hserverRevision, hsubset⟩
    · rw [hnil] at hsession
      cases hsession
    · obtain rfl : revision = snapshot.revision :=
        Option.some.inj (hrevision.symm.trans hserverRevision)
      refine ⟨stamped, hstamped, snapshot, hsnapshot, hle, session, hsubset hsession, ?_⟩
      cases hsessionTag : session.tag with
      | mk taggedIdentity taggedSpace =>
        rw [hsessionTag] at hidentity hspace
        simp only at hidentity hspace
        rw [hidentity, hspace, htag]
  · cases hidentity

/-- What a run keeps after a departure, until the server reports the session again. -/
structure Departed (uses : SpaceId → Bool) (scope : SpaceId) (departure : Departure)
    (s : ServedWorkspace K) : Prop where
  sound : s.Sound uses
  tag : ∀ binding ∈ s.client.runtime.bindings, binding.scope = scope →
    binding.spaceTag = departure.spaceTag
  absent : ¬ s.Reported departure → s.AbsentFrom scope departure

omit [DecidableEq K] [Scalar K] in
private theorem reconcile_of_clientEvent (h : s.clientEvent uses event = some .reconcile) :
    event = .client .reconcile := by
  cases event with
  | client event =>
    simp only [clientEvent] at h
    split at h
    · rw [Option.some.inj h]
    · cases h
  | deliver scope peer k =>
    obtain ⟨_, -, hrefresh⟩ := Option.map_eq_some_iff.mp h
    cases hrefresh
  | answer n peer k =>
    obtain ⟨_, -, hcomplete⟩ := Option.map_eq_some_iff.mp h
    cases hcomplete
  | serve op => cases h
  | stamp n => cases h

omit [DecidableEq K] [Scalar K] in
private theorem unclaimed_of_allowed {operation : WorkspaceEvent K}
    (h : s.Departed uses scope departure) (hserver : uses scope = true)
    (hrestores : s.restores uses scope departure event = false)
    (hcurrent : s.current scope departure event = true)
    (hoperation : s.clientEvent uses event = some operation) (hunreported : ¬ s.Reported departure)
    {binding : BindingRuntime K} (hbinding : binding ∈ s.client.runtime.bindings)
    (hscope : binding.scope = scope) :
    departure.identity ∉ s.client.claimedIn operation scope := by
  intro hclaimed
  by_cases hreconcile : operation = .reconcile
  · -- Only what the held snapshot tags is claimed, and a tag from after the stamp is a report.
    subst hreconcile
    obtain rfl := reconcile_of_clientEvent hoperation
    have hlive := WorkspaceRuntime.binding_of_mem h.sound.distinct hbinding
    rw [hscope] at hlive
    have htagged : departure.identity ∈ binding.tagged := by
      simpa [WorkspaceClient.claimedIn, WorkspaceRuntime.claimedBy, hlive] using hclaimed
    simp only [current, hlive, Option.all_some, Bool.or_eq_true, Bool.not_eq_true',
      List.contains_eq_mem, decide_eq_false_iff_not, Option.any_eq_true,
      decide_eq_true_eq] at hcurrent
    rcases hcurrent with hnot | ⟨stamped, hstamped, revision, hrevision, hle⟩
    · exact hnot htagged
    · apply hunreported
      exact reported_of_tagged h.sound hserver hbinding hscope (h.tag binding hbinding hscope)
        htagged hstamped hrevision hle
  · have hrestored : s.restores uses scope departure event = true := by
      simp only [restores, hoperation]
      simpa using hclaimed
    rw [hrestored] at hrestores
    cases hrestores

private theorem Departed.step (h : s.Departed uses scope departure) (hserver : uses scope = true)
    (hrestores : s.restores uses scope departure event = false)
    (hcurrent : s.current scope departure event = true) (hstep : s.step host uses event = some s') :
    s'.Departed uses scope departure := by
  have hsound := h.sound.step hstep
  have hbefore (hreported : ¬ s'.Reported departure) : ¬ s.Reported departure :=
    fun h ↦ hreported (h.step hstep)
  rcases step_cases hstep with ⟨operation, client, hoperation, hclient, rfl⟩ | ⟨-, hsame, -, -⟩
  · have hfollows := WorkspaceClient.follows_of_step h.sound.distinct
      (delivers_of_clientEvent hoperation) hclient
    refine ⟨hsound, ?_, ?_⟩
    · intro after hafter hscope
      obtain ⟨before, hmem, hbinding⟩ := hfollows after hafter
      rw [hbinding.spaceTag]
      exact h.tag before hmem (hbinding.scope.symm.trans hscope)
    · intro hreported after hafter hscope hin
      obtain ⟨before, hmem, hbinding⟩ := hfollows after hafter
      have hscope' : before.scope = scope := hbinding.scope.symm.trans hscope
      rcases hbinding.claims.subset _ hin with hclaimed | hkept
      · rw [hscope'] at hclaimed
        exact unclaimed_of_allowed h hserver hrestores hcurrent hoperation (hbefore hreported)
          hmem hscope' hclaimed
      · exact h.absent (hbefore hreported) before hmem hscope' hkept
  · refine ⟨hsound, ?_, ?_⟩
    · rw [hsame]
      exact h.tag
    · intro hreported
      have habsent := h.absent (hbefore hreported)
      rw [AbsentFrom, hsame]
      exact habsent

private theorem departed_of_departs {event : WorkspaceEvent K} (hsound : s.Sound uses)
    (hdeparts : s.client.runtime.departs host scope event = some departure)
    (hstep : s.step host uses (.client event) = some s') : s'.Departed uses scope departure := by
  refine ⟨hsound.step hstep, ?_, fun _ ↦ absent_of_departs hsound hdeparts hstep⟩
  obtain ⟨binding, _, _, -, hbinding, htag, -, -⟩ := departs_eq_some hdeparts
  obtain ⟨hlive, hscope⟩ := WorkspaceRuntime.scope_of_binding hbinding
  have hsame : ∀ other ∈ s.client.runtime.bindings, other.scope = scope →
      other.spaceTag = departure.spaceTag := by
    intro other hother hotherScope
    rw [WorkspaceRuntime.eq_of_scope hsound.distinct hother hlive (hotherScope.trans hscope.symm)]
    exact htag.symm
  rcases step_cases hstep with ⟨operation, client, hoperation, hclient, rfl⟩ | ⟨-, hkept, -, -⟩
  · have hfollows := WorkspaceClient.follows_of_step hsound.distinct
      (delivers_of_clientEvent hoperation) hclient
    intro after hafter hafterScope
    obtain ⟨before, hmem, hbinding⟩ := hfollows after hafter
    rw [hbinding.spaceTag]
    exact hsame before hmem (hbinding.scope.symm.trans hafterScope)
  · rw [hkept]
    exact hsame

/-! ### Runs -/

/-- A session that has left a Space stays out of it, as long as no operation names it for the
Space again, the server does not report it at or after the stamp, and no frame reconciles the
Space against an older snapshot that still tags it. -/
theorem departed_stays_out (host : Host) {uses : SpaceId → Bool} {scope : SpaceId}
    (hserver : uses scope = true) {init before after later : ServedWorkspace K}
    {event : WorkspaceEvent K} {departure : Departure} (hinit : init.Opened)
    (hrun : Reaches (step host uses) anyStep init before)
    (hdeparts : before.client.runtime.departs host scope event = some departure)
    (hleave : before.step host uses (.client event) = some after)
    (hlater : Reaches (step host uses)
      (fun s e ↦ (!s.restores uses scope departure e && s.current scope departure e) = true)
      after later)
    (hreported : ¬ later.Reported departure) : later.AbsentFrom scope departure := by
  have hsound : before.Sound uses := by
    apply hrun.invariant (hinit.sound uses)
    intro s e s' h _ hstep
    exact h.step hstep
  have hdeparted : later.Departed uses scope departure := by
    apply hlater.invariant (departed_of_departs hsound hdeparts hleave)
    intro s e s' h hallowed hstep
    simp only [Bool.and_eq_true, Bool.not_eq_true'] at hallowed
    exact h.step hserver hallowed.1 hallowed.2 hstep
  exact hdeparted.absent hreported

end Steps

/-! ### One Space on a fresh server -/

/-- A Space without sessions, opened on a server that has none. -/
def oneSpace : ServedWorkspace Binary32 :=
  { client :=
      { runtime :=
          { repository := { spaces := [1], rows := [] }
            bindings := [{ scope := 1, spaceTag := "a", remote := false, sessions := []
                           mux := {} }] } }
    topology := .new 7
    revision := 0
    published := [⟨7, 0, (NativeMuxState.new 7).snapshot⟩] }

private theorem opened_oneSpace : oneSpace.Opened := by
  refine ⟨⟨List.nodup_singleton _, rfl, ?_⟩, List.nodup_nil, ?_⟩
  · intro binding hbinding
    obtain rfl := List.mem_singleton.mp hbinding
    rfl
  · intro binding hbinding
    obtain rfl := List.mem_singleton.mp hbinding
    rfl

/-- The server creates a session of the Space, and a frame takes it in. -/
private def creating : List (ServedEvent Binary32) :=
  [.serve (.execute Host.plain (.createProjectSession "s" "/src" ⟨some "i", some "a"⟩ none)),
    .deliver 1 none 1, .client .reconcile]

private def everySpace : SpaceId → Bool := fun _ ↦ true

private def leaving : Departure := ⟨"i", "a", some 0⟩

omit [DecidableEq K] [Scalar K] in
private theorem reported_iff {s : ServedWorkspace K} :
    s.Reported departure ↔ (s.stampRevision departure.request).any (fun stamped ↦
      s.published.any fun snapshot ↦ decide (stamped ≤ snapshot.revision) &&
        snapshot.snapshot.sessions.any fun session ↦
          decide (session.tag = ⟨some departure.identity, some departure.spaceTag⟩)) = true := by
  simp [Reported, Option.any_eq_true, List.any_eq_true]

/-- Whether a server reports the departed session is decidable. -/
instance (departure : Departure) (s : ServedWorkspace K) : Decidable (s.Reported departure) :=
  decidable_of_iff _ reported_iff.symm

/-- Whether a Space is without it is decidable. -/
instance (scope : SpaceId) (departure : Departure) (s : ServedWorkspace K) :
    Decidable (s.AbsentFrom scope departure) :=
  inferInstanceAs (Decidable (∀ binding ∈ s.client.runtime.bindings, binding.scope = scope →
    departure.identity ∉ binding.sessions.identities))

/-- The session leaves, and the events after it lead to a state that passes `goal`. -/
private def leavesTo (test : ServedWorkspace Binary32 → ServedEvent Binary32 → Bool)
    (events : List (ServedEvent Binary32)) (goal : ServedWorkspace Binary32 → Bool)
    (before : ServedWorkspace Binary32) : Bool :=
  decide (before.client.runtime.departs Host.plain 1 (.detachSession 1 "s") = some leaving) &&
    (before.step Host.plain everySpace (.client (.detachSession 1 "s"))).any fun after ↦
      decide ((runEvents (step Host.plain everySpace) test after events).map goal = some true)

private theorem exists_of_leavesTo {test : ServedWorkspace Binary32 → ServedEvent Binary32 → Bool}
    {events : List (ServedEvent Binary32)} {goal : ServedWorkspace Binary32 → Bool}
    (h : (runEvents (step Host.plain everySpace) anyTest oneSpace creating).map
      (leavesTo test events goal) = some true) :
    ∃ before after later, Reaches (step Host.plain everySpace) anyStep oneSpace before ∧
      before.client.runtime.departs Host.plain 1 (.detachSession 1 "s") = some leaving ∧
      before.step Host.plain everySpace (.client (.detachSession 1 "s")) = some after ∧
      Reaches (step Host.plain everySpace) (fun s e ↦ test s e = true) after later ∧
      goal later = true := by
  obtain ⟨before, hrun, hleaves⟩ := exists_reaches_anyStep h
  simp only [leavesTo, Bool.and_eq_true, decide_eq_true_eq, Option.any_eq_true] at hleaves
  obtain ⟨hdeparts, after, hleave, hevents⟩ := hleaves
  obtain ⟨later, hlater, hgoal⟩ := exists_reaches_of_runEvents (fun _ _ htest ↦ htest) hevents
  exact ⟨before, after, later, hrun, hdeparts, hleave, hlater, hgoal⟩

/-- The stamp is executed and its snapshot arrives before the next frame. -/
theorem departed_stays_out_stamped : ∃ later : ServedWorkspace Binary32,
    later.client.runtime.bindings.length = 1 ∧ later.performed = [(0, 2)] ∧
      later.AbsentFrom 1 ⟨"i", "a", some 0⟩ := by
  obtain ⟨before, after, later, hrun, hdeparts, hleave, hlater, hgoal⟩ := @exists_of_leavesTo
    (fun s e ↦ !s.restores everySpace 1 leaving e && s.current 1 leaving e)
    [.stamp 0, .deliver 1 none 2, .client .reconcile]
    (fun later ↦ decide (later.client.runtime.bindings.length = 1 ∧
      later.performed = [(0, 2)] ∧ ¬ later.Reported leaving)) (by decide +kernel)
  obtain ⟨hbindings, hperformed, hreported⟩ := of_decide_eq_true hgoal
  refine ⟨later, hbindings, hperformed, ?_⟩
  exact departed_stays_out Host.plain rfl opened_oneSpace hrun hdeparts hleave hlater hreported

/-- A frame between the detachment and the stamp brings the session back. -/
theorem not_departed_stays_out :
    ¬ ∀ (init before after later : ServedWorkspace Binary32) (event : WorkspaceEvent Binary32)
      (departure : Departure), init.Opened →
      Reaches (step Host.plain everySpace) anyStep init before →
      before.client.runtime.departs Host.plain 1 event = some departure →
      before.step Host.plain everySpace (.client event) = some after →
      Reaches (step Host.plain everySpace)
        (fun s e ↦ (!s.restores everySpace 1 departure e) = true) after later →
      ¬ later.Reported departure → later.AbsentFrom 1 departure := by
  intro h
  obtain ⟨before, after, later, hrun, hdeparts, hleave, hlater, hgoal⟩ := @exists_of_leavesTo
    (fun s e ↦ !s.restores everySpace 1 leaving e) [.client .reconcile]
    (fun later ↦ decide (¬ later.Reported leaving ∧ ¬ later.AbsentFrom 1 leaving))
    (by decide +kernel)
  obtain ⟨hreported, hclaimed⟩ := of_decide_eq_true hgoal
  exact hclaimed (h oneSpace before after later _ _ opened_oneSpace hrun hdeparts hleave hlater
    hreported)

end ServedWorkspace
end Bootty.Mux
