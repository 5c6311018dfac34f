import Bootty.Base.Machine
import Bootty.Mux.Workspace

/-!
# Commands of a workspace

The authoritative commands of `crates/bootty-mux/src/executor.rs` beside the synchronous
membership operations, as a machine. A command captures its binding's membership when it is
submitted; a worker later runs its persist closure, and the result is completed on the
interface thread after that (`workspace.rs:1542–1633`). A step is one operation of the
interface thread or one closure of the worker; a failed transaction changes nothing, so a
failing database is a run without the step.

No modelled step changes the configuration of a binding, so a result always matches it.
-/

namespace Bootty.Mux

open Bootty.Base

variable {K : Type}

/-- What the caller chose for a session it names; `workspace.rs:98–106` without the reserved name. -/
structure PendingGeneratedName where
  displayName : String
  explicit : Bool
  initialState : SessionState

/-- How far a submitted command has come. -/
inductive CommandPhase where
  | submitted
  | persisted
  | refused
  deriving DecidableEq

/-- A submitted command with the clone its persist closure owns. -/
structure PendingMuxCommand (K : Type) where
  scope : SpaceId
  command : MuxCommand K
  membership : Option BindingMembershipMutation
  captured : SessionMembership K
  phase : CommandPhase := .submitted

/-- `MuxCommandResult`: a launch failure keeps the saved change of its command. -/
inductive MuxCommandResult (K : Type) where
  | ok (snapshot : TopologySnapshot K)
  | launchFailed
  | failed

variable {ws shown : WorkspaceRuntime K} {result : MuxCommandResult K} {scope : SpaceId}

namespace WorkspaceRuntime

/-- `workspace.rs:1542–1606`. -/
def beginBindingMembershipMutation (ws : WorkspaceRuntime K) (scope : SpaceId)
    (command : MuxCommand K) (naming : Option PendingGeneratedName) :
    Except String (Option BindingMembershipMutation) := do
  let binding ← context (ws.binding scope) "the Space's binding is no longer live"
  let displayName (fallback : String) := (naming.map (·.displayName)).getD fallback
  let explicit := naming.all (·.explicit)
  match command with
  | .createProjectSession sessionId cwd tag _ =>
    pure (tag.identity.map fun identity ↦
      .create identity sessionId (displayName sessionId) explicit cwd
        ((naming.map (·.initialState)).getD {}))
  | .restoreSession sessionId tag _ =>
    pure ((tag.identity.bind binding.sessions.get).map fun saved ↦
      .create saved.identity sessionId saved.displayName saved.explicit saved.cwd saved.state)
  | .renameSession sessionId name => do
    let identity ← context (ws.sessionIdentity scope sessionId)
      ("rename session " ++ sessionId ++ ": this Space does not hold it")
    pure (some (.rename identity name (displayName name) explicit))
  | _ => pure none

/-- A change to the controller of one binding. -/
def modifyMux (ws : WorkspaceRuntime K) (scope : SpaceId)
    (f : MuxController K → MuxController K) : WorkspaceRuntime K :=
  { ws with
    bindings := modifyFirst (·.scope == scope) (fun b ↦ { b with mux := f b.mux }) ws.bindings }

section Complete

variable [DecidableEq K]

/-- `workspace.rs:1609–1633`. -/
def completeBindingMembershipCommand (ws : WorkspaceRuntime K) (scope : SpaceId)
    (membership : Option BindingMembershipMutation) (result : MuxCommandResult K) :
    Except String (WorkspaceRuntime K) :=
  match membership, result with
  | none, _ => .ok ws
  | some _, .failed => .ok ws
  | some mutation, _ =>
    match ws.binding scope with
    | none => .ok ws
    | some binding => do
      let sessions ← applyBindingMembershipMutation mutation binding.sessions
      pure (ws.publish ⟨scope, sessions⟩)

variable [Scalar K]

/-- `executor.rs:189–200` and `workspace.rs:1635–1660`: whether the command succeeded, and the
runtime it leaves. An error keeps what was published before it. -/
def completeAuthoritativeCommand (host : Host) (ws : WorkspaceRuntime K)
    (pending : PendingMuxCommand K) (peer : Option Nat) (result : MuxCommandResult K) :
    Bool × WorkspaceRuntime K :=
  match ws.completeBindingMembershipCommand pending.scope pending.membership result with
  | .error _ => (false, ws)
  | .ok ws =>
    match result with
    | .failed => (false, ws)
    | .launchFailed => (true, ws)
    | .ok snapshot =>
      match ws.releaseClosedSession pending.scope pending.command with
      | none => (true, ws.modifyMux pending.scope (·.applyServerSnapshot peer snapshot))
      | some edit =>
        match ws.commitEdit host edit with
        | .error _ => (false, ws)
        | .ok ws => (true, ws.modifyMux pending.scope (·.applyServerSnapshot peer snapshot))

/-- What a completion can do after its saved change has been shown. -/
inductive Completed (host : Host) (shown : WorkspaceRuntime K) (pending : PendingMuxCommand K)
    (peer : Option Nat) : MuxCommandResult K → Bool × WorkspaceRuntime K → Prop
  | failed : Completed host shown pending peer .failed (false, shown)
  | launchFailed : Completed host shown pending peer .launchFailed (true, shown)
  | refused {snapshot : TopologySnapshot K} :
      Completed host shown pending peer (.ok snapshot) (false, shown)
  | kept {snapshot : TopologySnapshot K}
      (none : shown.releaseClosedSession pending.scope pending.command = none) :
      Completed host shown pending peer (.ok snapshot)
        (true, shown.modifyMux pending.scope (·.applyServerSnapshot peer snapshot))
  | closed {snapshot : TopologySnapshot K} {edit : Edit K} {ws : WorkspaceRuntime K}
      (planned : shown.releaseClosedSession pending.scope pending.command = some edit)
      (committed : shown.commitEdit host edit = .ok ws) :
      Completed host shown pending peer (.ok snapshot)
        (true, ws.modifyMux pending.scope (·.applyServerSnapshot peer snapshot))

/-- What a completion did. -/
theorem completed_of_complete (host : Host) (peer : Option Nat) {pending : PendingMuxCommand K}
    (h : ws.completeBindingMembershipCommand pending.scope pending.membership result = .ok shown) :
    Completed host shown pending peer result
      (ws.completeAuthoritativeCommand host pending peer result) := by
  simp only [completeAuthoritativeCommand, h]
  cases result with
  | failed => exact .failed
  | launchFailed => exact .launchFailed
  | ok snapshot =>
    cases hclosed : shown.releaseClosedSession pending.scope pending.command with
    | none => exact .kept hclosed
    | some edit =>
      cases hcommit : shown.commitEdit host edit with
      | error message =>
        simp only [hcommit]
        exact .refused
      | ok kept =>
        simp only [hcommit]
        exact .closed hclosed hcommit

omit [Scalar K] in
/-- A completion shows the saved change of its command on the live membership. -/
theorem shown_cases {membership : Option BindingMembershipMutation}
    (h : ws.completeBindingMembershipCommand scope membership result = .ok shown) :
    shown = ws ∧ (membership = none ∨ result = .failed ∨ ws.binding scope = none) ∨
      ∃ mutation binding sessions, membership = some mutation ∧ ws.binding scope = some binding ∧
        applyBindingMembershipMutation mutation binding.sessions = .ok sessions ∧
        shown = ws.publish ⟨scope, sessions⟩ := by
  unfold completeBindingMembershipCommand at h
  split at h
  · exact .inl ⟨(Except.ok.inj h).symm, .inl rfl⟩
  · exact .inl ⟨(Except.ok.inj h).symm, .inr (.inl rfl)⟩
  · next mutation _ =>
    split at h
    · next hgone => exact .inl ⟨(Except.ok.inj h).symm, .inr (.inr hgone)⟩
    · next binding hlive =>
      simp only [bind_eq_ok, pure_eq_ok] at h
      obtain ⟨sessions, happly, rfl⟩ := h
      exact .inr ⟨mutation, binding, sessions, rfl, hlive, happly, rfl⟩

end Complete
end WorkspaceRuntime

/-! ### The machine -/

/-- A workspace and its commands in flight. `failed` records that a command had another
result than success or a launch failure. -/
structure WorkspaceClient (K : Type) where
  runtime : WorkspaceRuntime K
  commands : List (PendingMuxCommand K) := []
  failed : Bool := false

/-- What the window, its workers and the servers do. -/
inductive WorkspaceEvent (K : Type) where
  | submit (scope : SpaceId) (command : MuxCommand K) (naming : Option PendingGeneratedName)
  | persist (n : Nat)
  | complete (n : Nat) (peer : Option Nat) (result : MuxCommandResult K)
  | moveSession (scope : SpaceId) (sessionId : String) (delta : Int)
  | reorderSession (scope : SpaceId) (source : String) (before : Option String)
  | adoptSession (scope : SpaceId) (sessionId minted : String)
  | moveToSpace (source : SpaceId) (sessionId : String) (target : SpaceId)
  | detachSession (scope : SpaceId) (sessionId : String)
  | setSessionTitle (scope : SpaceId) (identity title : String)
  | setSessionState (scope : SpaceId) (identity : String) (change : SessionStateChange)
  | reconcile
  | refresh (scope : SpaceId) (peer : Option Nat) (snapshot : TopologySnapshot K)
  | setAvailable (scope : SpaceId) (available : Bool)

variable {host : Host}

namespace WorkspaceClient

variable [DecidableEq K]

/-- The edit of a synchronous operation; `none` for an operation that is rejected or has
nothing to do, and for the other events. -/
def edit (host : Host) (ws : WorkspaceRuntime K) : WorkspaceEvent K → Option (Edit K)
  | .moveSession scope sessionId delta => ws.moveActiveSession scope sessionId delta
  | .reorderSession scope source before => ws.reorderActiveSessionBefore scope source before
  | .adoptSession scope sessionId minted => ws.adoptSessionIntoBinding scope sessionId minted
  | .moveToSpace source sessionId target => ws.moveSessionToSpace source sessionId target
  | .detachSession scope sessionId => ws.detachSessionFromSpace scope sessionId
  | .setSessionTitle scope identity title =>
    (ws.setSessionTitle scope identity title).toOption.join
  | .setSessionState scope identity change =>
    (ws.setSessionState scope identity change).toOption.join
  | .reconcile => some (ws.reconcileBindingStates host)
  | _ => none

variable [Scalar K]

/-- `executor.rs:128–163`, with the mutation its callers prepare. -/
def submit (client : WorkspaceClient K) (scope : SpaceId) (command : MuxCommand K)
    (naming : Option PendingGeneratedName) : Option (WorkspaceClient K) :=
  match client.runtime.binding scope,
    client.runtime.beginBindingMembershipMutation scope command naming with
  | some binding, .ok membership =>
    some { client with
      commands := client.commands ++ [{ scope, command, membership, captured := binding.sessions }] }
  | _, _ => none

/-- The closure of `executor.rs:149–154` on the worker. -/
def persist (host : Host) (client : WorkspaceClient K) (n : Nat) (pending : PendingMuxCommand K) :
    WorkspaceClient K :=
  match pending.membership with
  | none => { client with commands := client.commands.set n { pending with phase := .persisted } }
  | some mutation =>
    match client.runtime.repository.commitBindingMembershipMutation host pending.scope mutation
      pending.captured with
    | .ok (repository, _) =>
      { client with
        runtime := { client.runtime with repository }
        commands := client.commands.set n { pending with phase := .persisted } }
    | .error _ => { client with commands := client.commands.set n { pending with phase := .refused } }

/-- A command leaves with its result. -/
def complete (host : Host) (client : WorkspaceClient K) (n : Nat) (pending : PendingMuxCommand K)
    (peer : Option Nat) (result : MuxCommandResult K) : WorkspaceClient K :=
  let outcome := client.runtime.completeAuthoritativeCommand host pending peer result
  { runtime := outcome.2
    commands := client.commands.eraseIdx n
    failed := client.failed || !outcome.1 }

/-- Only a command whose closure has run can have a result other than an error. -/
def mayReturn (pending : PendingMuxCommand K) : MuxCommandResult K → Bool
  | .failed => true
  | _ => pending.phase == .persisted

/-- One event, where it can happen. -/
def step (host : Host) (client : WorkspaceClient K) :
    WorkspaceEvent K → Option (WorkspaceClient K)
  | .submit scope command naming => client.submit scope command naming
  | .persist n =>
    match client.commands[n]? with
    | some pending =>
      if pending.phase = .submitted then some (client.persist host n pending) else none
    | none => none
  | .complete n peer result =>
    match client.commands[n]? with
    | some pending =>
      if mayReturn pending result then some (client.complete host n pending peer result) else none
    | none => none
  | .refresh scope peer snapshot =>
    some { client with
      runtime := client.runtime.modifyMux scope (·.applyServerSnapshot peer snapshot) }
  | .setAvailable scope available =>
    some { client with
      runtime := client.runtime.modifyMux scope fun mux ↦ { mux with available } }
  | event =>
    match edit host client.runtime event with
    | some edit =>
      match client.runtime.commitEdit host edit with
      | .ok runtime => some { client with runtime }
      | .error _ => some client
    | none => some client

/-! ### What a step can do -/

/-- What one event can do. -/
inductive Transition (host : Host) (client : WorkspaceClient K) :
    WorkspaceEvent K → WorkspaceClient K → Prop
  | submit {scope : SpaceId} {command : MuxCommand K} {naming : Option PendingGeneratedName}
      {binding : BindingRuntime K} {membership : Option BindingMembershipMutation}
      (live : client.runtime.binding scope = some binding)
      (begun : client.runtime.beginBindingMembershipMutation scope command naming =
        .ok membership) :
      Transition host client (.submit scope command naming)
        { client with
          commands :=
            client.commands ++ [{ scope, command, membership, captured := binding.sessions }] }
  | persist {n : Nat} {pending : PendingMuxCommand K} (listed : client.commands[n]? = some pending)
      (phase : pending.phase = .submitted) :
      Transition host client (.persist n) (client.persist host n pending)
  | complete {n : Nat} {pending : PendingMuxCommand K} {peer : Option Nat}
      {result : MuxCommandResult K} (listed : client.commands[n]? = some pending)
      (returns : mayReturn pending result = true) :
      Transition host client (.complete n peer result)
        (client.complete host n pending peer result)
  | refresh {scope : SpaceId} {peer : Option Nat} {snapshot : TopologySnapshot K} :
      Transition host client (.refresh scope peer snapshot)
        { client with
          runtime := client.runtime.modifyMux scope (·.applyServerSnapshot peer snapshot) }
  | setAvailable {scope : SpaceId} {available : Bool} :
      Transition host client (.setAvailable scope available)
        { client with runtime := client.runtime.modifyMux scope fun mux ↦ { mux with available } }
  | edited {event : WorkspaceEvent K} {edit : Edit K} {runtime : WorkspaceRuntime K}
      (planned : WorkspaceClient.edit host client.runtime event = some edit)
      (committed : client.runtime.commitEdit host edit = .ok runtime) :
      Transition host client event { client with runtime }
  | rejected {event : WorkspaceEvent K} : Transition host client event client

/-- A closure without a change, one that wrote its change, or one that was refused. -/
theorem persist_cases (host : Host) (client : WorkspaceClient K) (n : Nat)
    (pending : PendingMuxCommand K) :
    (pending.membership = none ∧ client.persist host n pending =
        { client with commands := client.commands.set n { pending with phase := .persisted } }) ∨
      (∃ mutation next repository, pending.membership = some mutation ∧
        applyBindingMembershipMutation mutation pending.captured = .ok next ∧
        client.runtime.repository.writeBindingState host pending.scope next = .ok repository ∧
        client.persist host n pending =
          { client with
            runtime := { client.runtime with repository }
            commands := client.commands.set n { pending with phase := .persisted } }) ∨
      client.persist host n pending =
        { client with commands := client.commands.set n { pending with phase := .refused } } := by
  cases hmembership : pending.membership with
  | none =>
    left
    simp [persist, hmembership]
  | some mutation =>
    right
    cases hcommit : client.runtime.repository.commitBindingMembershipMutation host pending.scope
        mutation pending.captured with
    | error message =>
      right
      simp [persist, hmembership, hcommit]
    | ok written =>
      left
      have hchain := hcommit
      simp only [WorkspaceRepository.commitBindingMembershipMutation, bind_eq_ok,
        pure_eq_ok] at hchain
      obtain ⟨_, -, next, happly, repository, hwrite, rfl⟩ := hchain
      refine ⟨mutation, next, repository, rfl, happly, hwrite, ?_⟩
      simp [persist, hmembership, hcommit]

private theorem transition_of_edit {client client' : WorkspaceClient K} {event : WorkspaceEvent K}
    (h : (match edit host client.runtime event with
      | some edit =>
        match client.runtime.commitEdit host edit with
        | .ok runtime => some { client with runtime }
        | .error _ => some client
      | none => some client) = some client') : Transition host client event client' := by
  cases hedit : edit host client.runtime event with
  | none =>
    simp only [hedit, Option.some.injEq] at h
    exact h ▸ .rejected
  | some e =>
    cases hcommit : client.runtime.commitEdit host e with
    | ok runtime =>
      simp only [hedit, hcommit, Option.some.injEq] at h
      exact h ▸ .edited hedit hcommit
    | error message =>
      simp only [hedit, hcommit, Option.some.injEq] at h
      exact h ▸ .rejected

/-- What a step did. -/
theorem transition_of_step {client client' : WorkspaceClient K} {event : WorkspaceEvent K}
    (h : client.step host event = some client') :
    Transition host client event client' := by
  cases event with
  | submit scope command naming =>
    simp only [step, submit] at h
    split at h
    · next binding membership hlive hbegun =>
      exact Option.some.inj h ▸ .submit hlive hbegun
    · cases h
  | persist n =>
    simp only [step] at h
    split at h
    · next pending hlisted =>
      split at h
      · next hphase => exact Option.some.inj h ▸ .persist hlisted hphase
      · cases h
    · cases h
  | complete n peer result =>
    simp only [step] at h
    split at h
    · next pending hlisted =>
      split at h
      · next hreturns => exact Option.some.inj h ▸ .complete hlisted hreturns
      · cases h
    · cases h
  | refresh scope peer snapshot => exact Option.some.inj h ▸ .refresh
  | setAvailable scope available => exact Option.some.inj h ▸ .setAvailable
  | moveSession scope sessionId delta => exact transition_of_edit h
  | reorderSession scope source before => exact transition_of_edit h
  | adoptSession scope sessionId minted => exact transition_of_edit h
  | moveToSpace source sessionId target => exact transition_of_edit h
  | detachSession scope sessionId => exact transition_of_edit h
  | setSessionTitle scope identity title => exact transition_of_edit h
  | setSessionState scope identity change => exact transition_of_edit h
  | reconcile => exact transition_of_edit h

end WorkspaceClient

/-! ### Frame facts -/

namespace WorkspaceRuntime

theorem bindings_modifyMux (h : ws.Distinct) (scope : SpaceId)
    (f : MuxController K → MuxController K) :
    (ws.modifyMux scope f).bindings =
      ws.bindings.map fun b ↦ if b.scope = scope then { b with mux := f b.mux } else b :=
  modifyFirst_key h scope _

/-- A change to a controller keeps every membership. -/
theorem mem_modifyMux {f : MuxController K → MuxController K} {b' : BindingRuntime K}
    (h : b' ∈ (ws.modifyMux scope f).bindings) :
    ∃ b ∈ ws.bindings, b'.scope = b.scope ∧ b'.sessions = b.sessions := by
  rcases mem_modifyFirst h with hb | ⟨b, hb, -, rfl⟩
  · exact ⟨b', hb, rfl, rfl⟩
  · exact ⟨b, hb, rfl, rfl⟩

theorem distinct_modifyMux (h : ws.Distinct) (scope : SpaceId)
    (f : MuxController K → MuxController K) : (ws.modifyMux scope f).Distinct := by
  have hscopes : (ws.modifyMux scope f).bindings.map (·.scope) = ws.bindings.map (·.scope) := by
    apply map_modifyFirst
    intro b
    rfl
  rw [Distinct, hscopes]
  exact h

theorem distinct_shown [DecidableEq K] (hdistinct : ws.Distinct)
    {membership : Option BindingMembershipMutation}
    (h : ws.completeBindingMembershipCommand scope membership result = .ok shown) :
    shown.Distinct := by
  rcases shown_cases h with ⟨rfl, -⟩ | ⟨_, _, sessions, -, -, -, rfl⟩
  · exact hdistinct
  · exact distinct_publish hdistinct _

section Commit

variable [DecidableEq K] [Scalar K]

/-- A commit, and the stamp it sends. -/
theorem committed_of_commitEdit {ws' : WorkspaceRuntime K} {edit : Edit K} (hdistinct : ws.Distinct)
    (h : ws.commitEdit host edit = .ok ws') :
    ∃ middle, ws.Committed edit.candidates middle ∧
      ws' = { middle with requests := middle.requests ++ edit.stamp.toList } := by
  simp only [commitEdit, bind_eq_ok, pure_eq_ok] at h
  obtain ⟨middle, hcommit, rfl⟩ := h
  exact ⟨middle, commitBindingStateCandidates_eq_ok hdistinct hcommit, rfl⟩

theorem distinct_commitEdit {ws' : WorkspaceRuntime K} {edit : Edit K} (hdistinct : ws.Distinct)
    (h : ws.commitEdit host edit = .ok ws') : ws'.Distinct := by
  obtain ⟨middle, hcommitted, rfl⟩ := committed_of_commitEdit hdistinct h
  exact hcommitted.distinct hdistinct

/-- A completion keeps the Spaces apart. -/
theorem distinct_complete (hdistinct : ws.Distinct) (pending : PendingMuxCommand K)
    (peer : Option Nat) (result : MuxCommandResult K) :
    (ws.completeAuthoritativeCommand host pending peer result).2.Distinct := by
  cases hshown : ws.completeBindingMembershipCommand pending.scope pending.membership result with
  | error message =>
    simp only [completeAuthoritativeCommand, hshown]
    exact hdistinct
  | ok shown =>
    have hkept := distinct_shown hdistinct hshown
    have hcompleted := completed_of_complete host peer hshown
    generalize ws.completeAuthoritativeCommand host pending peer result = outcome at hcompleted ⊢
    cases hcompleted with
    | failed => exact hkept
    | launchFailed => exact hkept
    | refused => exact hkept
    | kept _ => exact distinct_modifyMux hkept _ _
    | closed _ hcommit => exact distinct_modifyMux (distinct_commitEdit hkept hcommit) _ _

end Commit

/-- A command with a saved change closes no session. -/
theorem releaseClosedSession_of_begun {command : MuxCommand K}
    {naming : Option PendingGeneratedName} {mutation : BindingMembershipMutation}
    (h : ws.beginBindingMembershipMutation scope command naming = .ok (some mutation))
    (ws' : WorkspaceRuntime K) (scope' : SpaceId) :
    ws'.releaseClosedSession scope' command = none := by
  cases command with
  | ditchSession sessionId =>
    simp only [beginBindingMembershipMutation, bind_eq_ok] at h
    obtain ⟨_, -, h⟩ := h
    cases h
  | _ => rfl

end WorkspaceRuntime
end Bootty.Mux
