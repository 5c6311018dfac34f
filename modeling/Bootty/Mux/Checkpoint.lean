import Bootty.Mux.WorkspaceClient

/-!
# Terminal checkpoints

Model of `crates/bootty-mux/src/workspace/session_snapshots.rs` and of
`commit_terminal_snapshot` (`repository.rs:254–309`). A checkpoint is prepared on the
interface thread from the live membership, saved by a worker that compares and swaps the row
of its session, and its receipt is later published to the live membership.

The windows of a prepared checkpoint are an input: they come from the layouts of the
binding. The generation of a binding and the fence that a save claims are left out, so a
save that the fence refuses is a run without it. The encoded texts that the table compares
are the values they encode.
-/

namespace Bootty.Mux

open Bootty.Base

variable {K : Type}

/-- `session_snapshots.rs:12–20`. -/
structure PreparedSessionCheckpoint (K : Type) where
  scope : SpaceId
  identity : String
  generation : Nat
  previous : Option (SavedTerminalSession K)
  snapshot : SavedTerminalSession K

/-- The receipt of a committed checkpoint, `session_snapshots.rs:22–27`. -/
structure SavedSessionCheckpoint (K : Type) where
  scope : SpaceId
  identity : String
  generation : Nat
  snapshot : SavedTerminalSession K

/-- `session_snapshot.rs:45–54`. -/
structure SessionPaneCapture where
  paneId : String
  cwd : Option String
  cols : UInt16
  rows : UInt16
  text : String
  omittedLines : UInt64

variable {host : Host}

namespace WorkspaceRepository

variable [DecidableEq K] [Scalar K]

/-- `repository.rs:254–309`; the selection it also saves is left out. -/
def commitTerminalSnapshot (host : Host) (repository : WorkspaceRepository K) (scope : SpaceId)
    (identity : String) (previous : Option (SavedTerminalSession K))
    (snapshot : SavedTerminalSession K) : Except String (WorkspaceRepository K) := do
  snapshot.validate host
  ensure (snapshot.sessionId == identity) "checkpoint logical identity does not match its owner"
  ensure (!previous.any fun previous ↦ snapshot.capturedAt < previous.capturedAt)
    "terminal checkpoint predates its committed state"
  ensure ((repository.rows.find? fun row ↦ row.identity == identity && row.spaceId == scope).any
      fun row ↦ decide (row.terminalSnapshot = previous))
    "terminal checkpoint owner or prior state changed"
  pure { repository with
    rows := repository.rows.map fun row ↦
      if row.identity = identity ∧ row.spaceId = scope then
        { row with terminalSnapshot := some snapshot }
      else row }

/-- A commit found the checkpoint it follows in the row of its session. -/
theorem commitTerminalSnapshot_eq_ok {repository repository' : WorkspaceRepository K}
    {scope : SpaceId} {identity : String} {previous : Option (SavedTerminalSession K)}
    {snapshot : SavedTerminalSession K}
    (h : repository.commitTerminalSnapshot host scope identity previous snapshot =
      .ok repository') :
    snapshot.validate host = .ok () ∧
      (∀ old, previous = some old → old.capturedAt ≤ snapshot.capturedAt) ∧
      (∃ row ∈ repository.rows, row.identity = identity ∧ row.spaceId = scope ∧
        row.terminalSnapshot = previous) ∧
      repository'.rows = repository.rows.map fun row ↦
        if row.identity = identity ∧ row.spaceId = scope then
          { row with terminalSnapshot := some snapshot }
        else row := by
  simp only [commitTerminalSnapshot, bind_eq_ok, ensure_eq_ok, pure_eq_ok] at h
  obtain ⟨_, hvalid, _, -, _, htime, _, hstored, rfl⟩ := h
  refine ⟨hvalid, ?_, ?_, rfl⟩
  · rintro old rfl
    simpa using htime
  · obtain ⟨row, hfind, hsame⟩ := (Option.any_eq_true _ _).mp hstored
    have hmatches := List.find?_some hfind
    simp only [Bool.and_eq_true, beq_iff_eq] at hmatches
    exact ⟨row, List.mem_of_find?_eq_some hfind, hmatches.1, hmatches.2, of_decide_eq_true hsame⟩

/-- The checkpoint stored for an identity, where it has a row. -/
def stored (repository : WorkspaceRepository K) (identity : String) :
    Option (Option (SavedTerminalSession K)) :=
  (repository.rows.find? (·.identity == identity)).map (·.terminalSnapshot)

omit [DecidableEq K] [Scalar K] in
/-- What is stored is in the row. -/
theorem stored_of_mem {repository : WorkspaceRepository K} {row : SessionRow K}
    (hkeyed : repository.Keyed) (hrow : row ∈ repository.rows) :
    repository.stored row.identity = some row.terminalSnapshot := by
  rw [stored]
  cases hfind : repository.rows.find? (·.identity == row.identity) with
  | none =>
    have hnone := List.find?_eq_none.mp hfind row hrow
    simp at hnone
  | some found =>
    have hfound : found.identity = row.identity := by simpa using List.find?_some hfind
    rw [Option.map_some, hkeyed.eq (List.mem_of_find?_eq_some hfind) hrow hfound]

end WorkspaceRepository

namespace PreparedSessionCheckpoint

/-- `session_snapshots.rs:33–47`. -/
def followCheckpoint (prepared : PreparedSessionCheckpoint K) (receipt : SavedSessionCheckpoint K) :
    Except String (PreparedSessionCheckpoint K) := do
  ensure (prepared.scope == receipt.scope && prepared.identity == receipt.identity &&
      prepared.generation == receipt.generation)
    "checkpoint receipt belongs to another owner"
  pure { prepared with previous := some receipt.snapshot }

/-- The inner loop of `session_snapshots.rs:68–81`, with the captures that are left. -/
def fillPanes : List SavedTerminalPane → List SessionPaneCapture →
    Except String (List SavedTerminalPane × List SessionPaneCapture)
  | [], captures => .ok ([], captures)
  | pane :: rest, captures => do
    let (capture, captures) ← context (takeFirst (·.paneId == pane.backendId) captures)
      "terminal checkpoint is incomplete"
    let (panes, captures) ← fillPanes rest captures
    pure ({ pane with
      cwd := capture.cwd.getD pane.cwd, cols := capture.cols, rows := capture.rows
      text := capture.text, omittedLines := capture.omittedLines } :: panes, captures)

/-- The outer loop of `session_snapshots.rs:67–82`. -/
def fillWindows : List (SavedTerminalWindow K) → List SessionPaneCapture →
    Except String (List (SavedTerminalWindow K) × List SessionPaneCapture)
  | [], captures => .ok ([], captures)
  | window :: rest, captures => do
    let (panes, captures) ← fillPanes window.panes captures
    let (windows, captures) ← fillWindows rest captures
    pure ({ window with panes } :: windows, captures)

variable [DecidableEq K] [Scalar K]

/-- `session_snapshots.rs:52–104`: the table after the save, and the receipt. -/
def save (host : Host) (prepared : PreparedSessionCheckpoint K)
    (captures : List SessionPaneCapture) (repository : WorkspaceRepository K) :
    Except String (WorkspaceRepository K × SavedSessionCheckpoint K) := do
  ensure (decide (captures.map (·.paneId)).Nodup) "duplicate checkpoint pane"
  let (windows, foreign) ← fillWindows prepared.snapshot.windows captures
  ensure foreign.isEmpty "foreign checkpoint pane"
  let snapshot := { prepared.snapshot with windows }
  snapshot.validate host
  let repository ← repository.commitTerminalSnapshot host prepared.scope prepared.identity
    prepared.previous snapshot
  pure (repository, ⟨prepared.scope, prepared.identity, prepared.generation, snapshot⟩)

end PreparedSessionCheckpoint

/-- `workspace/session_requests.rs:605–610`. -/
def BindingRuntime.sessionAttachment (binding : BindingRuntime K) (identity : String) : Option (MuxSession K) :=
  binding.mux.backendSessions.find? fun session ↦
    session.tag.identity == some identity && session.tag.space == some binding.spaceTag

namespace WorkspaceRuntime

section Prepare

variable [Scalar K]

/-- `session_snapshots.rs:111–160`. -/
def prepareSessionCheckpoint (host : Host) (ws : WorkspaceRuntime K) (scope : SpaceId)
    (identity : String) (generation : Nat) (capturedAt : Int) (activeWindowId : Option String)
    (windows : List (SavedTerminalWindow K)) : Except String (PreparedSessionCheckpoint K) := do
  let binding ← context (ws.binding scope) "checkpoint Space is unavailable"
  let saved ← context (binding.sessions.get identity) "checkpoint identity is not held"
  let session ← context (binding.sessionAttachment identity) "checkpoint original is unavailable"
  let snapshot := { capturedAt, sessionId := identity, backendId := session.id, activeWindowId
                    windows }
  snapshot.validate host
  pure { scope, identity, generation, previous := saved.terminalSnapshot, snapshot }

end Prepare

variable [DecidableEq K] [Scalar K]

/-- A change to the live checkpoint of a session. -/
def showCheckpoint (ws : WorkspaceRuntime K) (receipt : SavedSessionCheckpoint K) :
    WorkspaceRuntime K :=
  { ws with
    bindings := modifyFirst (·.scope == receipt.scope)
      (fun b ↦ { b with
        sessions :=
          (b.sessions.setTerminalSnapshot receipt.identity receipt.snapshot).getD b.sessions })
      ws.bindings }

/-- `session_snapshots.rs:166–195`: whether the receipt was admitted. -/
def publishSessionCheckpoint (host : Host) (ws : WorkspaceRuntime K)
    (receipt : SavedSessionCheckpoint K) : Except String (Bool × WorkspaceRuntime K) :=
  match ws.binding receipt.scope with
  | none => .ok (false, ws)
  | some binding =>
    match binding.sessions.get receipt.identity with
    | none => .ok (false, ws)
    | some session => do
      receipt.snapshot.validate host
      if session.terminalSnapshot.any (receipt.snapshot.capturedAt < ·.capturedAt) then
        pure (false, ws)
      else pure (true, ws.showCheckpoint receipt)

/-- A receipt is refused, leaves the newer checkpoint that is shown, or is shown. -/
theorem publishSessionCheckpoint_cases {ws : WorkspaceRuntime K}
    {receipt : SavedSessionCheckpoint K} {admitted : Bool} {ws' : WorkspaceRuntime K}
    (h : ws.publishSessionCheckpoint host receipt = .ok (admitted, ws')) :
    (ws' = ws ∧ ∀ binding session, ws.binding receipt.scope = some binding →
        binding.sessions.get receipt.identity = some session →
        ∃ shown, session.terminalSnapshot = some shown ∧
          receipt.snapshot.capturedAt < shown.capturedAt) ∨
      ws' = ws.showCheckpoint receipt ∧ ∃ binding session,
        ws.binding receipt.scope = some binding ∧
        binding.sessions.get receipt.identity = some session ∧
        ∀ shown, session.terminalSnapshot = some shown →
          shown.capturedAt ≤ receipt.snapshot.capturedAt := by
  simp only [publishSessionCheckpoint] at h
  split at h
  · next hnone =>
    simp only [Except.ok.injEq, Prod.mk.injEq] at h
    left
    refine ⟨h.2.symm, ?_⟩
    intro binding session hbinding
    rw [hnone] at hbinding
    cases hbinding
  · next live hlive =>
    split at h
    · next hunheld =>
      simp only [Except.ok.injEq, Prod.mk.injEq] at h
      left
      refine ⟨h.2.symm, ?_⟩
      intro binding session hbinding hget
      obtain rfl : live = binding := Option.some.inj (hlive.symm.trans hbinding)
      rw [hunheld] at hget
      cases hget
    · next held hheld =>
      simp only [bind_eq_ok] at h
      obtain ⟨_, -, h⟩ := h
      split at h
      · next hnewer =>
        simp only [pure_eq_ok, Prod.mk.injEq] at h
        left
        refine ⟨h.2.symm, ?_⟩
        intro binding session hbinding hget
        obtain rfl : live = binding := Option.some.inj (hlive.symm.trans hbinding)
        obtain rfl : held = session := Option.some.inj (hheld.symm.trans hget)
        obtain ⟨shown, hshown, hlt⟩ := (Option.any_eq_true _ _).mp hnewer
        exact ⟨shown, hshown, of_decide_eq_true hlt⟩
      · next holder =>
        simp only [pure_eq_ok, Prod.mk.injEq] at h
        right
        refine ⟨h.2.symm, live, held, hlive, hheld, ?_⟩
        intro shown hshown
        rw [hshown] at holder
        simpa using holder

/-- Some Space claims the identity. -/
def claimed (ws : WorkspaceRuntime K) (identity : String) : Bool :=
  ws.bindings.any (·.sessions.contains identity)

end WorkspaceRuntime

/-! ### The machine -/

/-- A workspace with its checkpoints: those prepared, the receipts in the order of their
commits, and which of them are not published. `latest` records the checkpoint of an identity
that was committed last while some Space has been claiming it. -/
structure CheckpointedWorkspace (K : Type) where
  client : WorkspaceClient K
  prepared : List (PreparedSessionCheckpoint K) := []
  receipts : List (SavedSessionCheckpoint K) := []
  unpublished : List Nat := []
  latest : String → Option (SavedTerminalSession K) := fun _ ↦ none

/-- What client, workers and window do. -/
inductive CheckpointEvent (K : Type) where
  | client (event : WorkspaceEvent K)
  | prepare (scope : SpaceId) (identity : String) (generation : Nat) (capturedAt : Int)
      (activeWindowId : Option String) (windows : List (SavedTerminalWindow K))
  | follow (n k : Nat)
  | save (n : Nat) (captures : List SessionPaneCapture)
  | publish (k : Nat)

namespace CheckpointedWorkspace

/-- The client after a step; what no Space claims any more is forgotten. -/
def withClient (s : CheckpointedWorkspace K) (client : WorkspaceClient K) :
    CheckpointedWorkspace K :=
  { s with
    client
    latest := fun identity ↦ if client.runtime.claimed identity then s.latest identity else none }

variable [DecidableEq K] [Scalar K]

/-- A save that succeeds. -/
def saved (s : CheckpointedWorkspace K) (n : Nat) (repository : WorkspaceRepository K)
    (receipt : SavedSessionCheckpoint K) : CheckpointedWorkspace K :=
  { s with
    client := { s.client with runtime := { s.client.runtime with repository } }
    prepared := s.prepared.eraseIdx n
    receipts := s.receipts ++ [receipt]
    unpublished := s.unpublished ++ [s.receipts.length]
    latest := fun identity ↦
      if identity = receipt.identity ∧ s.client.runtime.claimed identity then
        some receipt.snapshot
      else s.latest identity }

/-- One event, where it can happen. -/
def step (host : Host) (s : CheckpointedWorkspace K) :
    CheckpointEvent K → Option (CheckpointedWorkspace K)
  | .client event => (s.client.step host event).map s.withClient
  | .prepare scope identity generation capturedAt activeWindowId windows =>
    match s.client.runtime.prepareSessionCheckpoint host scope identity generation capturedAt
      activeWindowId windows with
    | .ok prepared => some { s with prepared := s.prepared ++ [prepared] }
    | .error _ => some s
  | .follow n k =>
    match s.prepared[n]?, s.receipts[k]? with
    | some prepared, some receipt =>
      match prepared.followCheckpoint receipt with
      | .ok prepared => some { s with prepared := s.prepared.set n prepared }
      | .error _ => some s
    | _, _ => none
  | .save n captures =>
    match s.prepared[n]? with
    | some prepared =>
      match prepared.save host captures s.client.runtime.repository with
      | .ok (repository, receipt) => some (s.saved n repository receipt)
      | .error _ => some { s with prepared := s.prepared.eraseIdx n }
    | none => none
  | .publish k =>
    match s.receipts[k]? with
    | some receipt =>
      if s.unpublished.contains k then
        match s.client.runtime.publishSessionCheckpoint host receipt with
        | .ok (_, runtime) =>
          some { s with
            client := { s.client with runtime }, unpublished := s.unpublished.erase k }
        | .error _ => some { s with unpublished := s.unpublished.erase k }
      else none
    | none => none

/-- What a step can do. -/
inductive Transition (host : Host) (s : CheckpointedWorkspace K) :
    CheckpointEvent K → CheckpointedWorkspace K → Prop
  | client {event : WorkspaceEvent K} {client : WorkspaceClient K}
      (next : s.client.step host event = some client) :
      Transition host s (.client event) (s.withClient client)
  | worker {event : CheckpointEvent K} (prepared : List (PreparedSessionCheckpoint K)) :
      Transition host s event { s with prepared }
  | saved {n : Nat} {captures : List SessionPaneCapture} {prepared : PreparedSessionCheckpoint K}
      {repository : WorkspaceRepository K} {snapshot : SavedTerminalSession K}
      (committed : s.client.runtime.repository.commitTerminalSnapshot host prepared.scope
        prepared.identity prepared.previous snapshot = .ok repository) :
      Transition host s (.save n captures)
        (s.saved n repository
          ⟨prepared.scope, prepared.identity, prepared.generation, snapshot⟩)
  | published {k : Nat} {receipt : SavedSessionCheckpoint K} {admitted : Bool}
      {runtime : WorkspaceRuntime K} (listed : s.receipts[k]? = some receipt)
      (pending : k ∈ s.unpublished)
      (shown : s.client.runtime.publishSessionCheckpoint host receipt = .ok (admitted, runtime)) :
      Transition host s (.publish k)
        { s with client := { s.client with runtime }, unpublished := s.unpublished.erase k }
  | malformed {k : Nat} {receipt : SavedSessionCheckpoint K} {message : String}
      (listed : s.receipts[k]? = some receipt)
      (shown : s.client.runtime.publishSessionCheckpoint host receipt = .error message) :
      Transition host s (.publish k) { s with unpublished := s.unpublished.erase k }

/-- What a step did. -/
theorem transition_of_step {s s' : CheckpointedWorkspace K} {event : CheckpointEvent K}
    (h : s.step host event = some s') : Transition host s event s' := by
  cases event with
  | client event =>
    obtain ⟨client, hclient, rfl⟩ := Option.map_eq_some_iff.mp h
    exact .client hclient
  | prepare scope identity generation capturedAt activeWindowId windows =>
    simp only [step] at h
    split at h
    · exact Option.some.inj h ▸ .worker _
    · exact Option.some.inj h ▸ .worker s.prepared
  | follow n k =>
    simp only [step] at h
    split at h
    · split at h
      · exact Option.some.inj h ▸ .worker _
      · exact Option.some.inj h ▸ .worker s.prepared
    · cases h
  | save n captures =>
    simp only [step] at h
    split at h
    · next prepared hlisted =>
      split at h
      · next repository receipt hsave =>
        obtain rfl := Option.some.inj h
        simp only [PreparedSessionCheckpoint.save, bind_eq_ok, pure_eq_ok,
          Prod.mk.injEq] at hsave
        obtain ⟨_, -, _, -, _, -, _, -, _, hcommit, rfl, rfl⟩ := hsave
        exact .saved hcommit
      · exact Option.some.inj h ▸ .worker _
    · cases h
  | publish k =>
    simp only [step] at h
    split at h
    · next receipt hlisted =>
      split at h
      · next hpending =>
        split at h
        · next hshown =>
          exact Option.some.inj h ▸ .published hlisted (List.contains_iff_mem.mp hpending) hshown
        · next hshown => exact Option.some.inj h ▸ .malformed hlisted hshown
      · cases h
    · cases h

end CheckpointedWorkspace
end Bootty.Mux
