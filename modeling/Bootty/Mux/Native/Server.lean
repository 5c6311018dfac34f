import Bootty.Base.Machine
import Bootty.Mux.Native.Execute

/-!
# The native server

Model of `crates/bootty-mux/src/native/server.rs` for one workspace, as a machine whose steps
are the sections under the workspace lock and the launches between them. A blocking task
outlives the connection that started it; the other requests end with their connection. A
pane is known by the generation `Pane::spawn` gave it (`server_pane.rs:112`).

The launch configuration and the VT policy are read by no modelled function, so `configure`
changes nothing here.
-/

namespace Bootty.Mux.Native

open Bootty.Base

variable {K : Type}

/-! ### The workspace -/

/-- `HashMap<String, Pane>`. -/
abbrev PaneTable := List (String × Nat)

namespace PaneTable

/-- The panes that have a process. -/
def ids (table : PaneTable) : List String := table.map Prod.fst

/-- The generations of the processes. -/
def generations (table : PaneTable) : List Nat := table.map Prod.snd

/-- `HashMap::extend`: a later entry replaces an earlier one of the same key. -/
def extend (table added : PaneTable) : PaneTable :=
  table.filter (fun entry ↦ !added.ids.contains entry.1) ++ added

end PaneTable

/-- A prepared topology. `client`, `command` and `cwd` say where it comes from; the source
keeps `next` and `added` only. -/
structure Prepared (K : Type) where
  client : Nat
  command : MuxCommand K
  cwd : Option String
  next : NativeMuxState K
  added : PaneTable

/-- `server.rs:35–46`. -/
structure Workspace (K : Type) where
  topology : NativeMuxState K
  panes : PaneTable
  revision : Nat
  reservation : Option Nat
  prepared : Option (Prepared K)

/-- The pane ids of a snapshot in iteration order. -/
def snapshotPaneIds (snapshot : MuxSnapshot K) : List String :=
  (snapshotWindows snapshot).flatMap fun entry ↦ entry.2.panes.filterMap (·.paneId)

namespace Workspace

/-- A workspace without sessions. -/
def new (generation : Nat) : Workspace K := ⟨.new generation, [], 0, none, none⟩

/-- `server.rs:106–117`; an exhausted revision is an error that changes nothing. -/
def publish (ws : Workspace K) : Workspace K :=
  if ws.revision + 1 ≤ u64Max then { ws with revision := ws.revision + 1 } else ws

/-- The panes of a topology that have no process yet, in launch order. -/
def unlaunched (ws : Workspace K) (next : NativeMuxState K) : List String :=
  (snapshotPaneIds next.snapshot).filter fun id ↦ !ws.panes.ids.contains id

/-- Write the directory of every pane that has no process yet. -/
def overrideCwd (panes : PaneTable) (cwd : String) :
    List String → NativeMuxState K → Except String (NativeMuxState K)
  | [], next => .ok next
  | id :: rest, next =>
    if panes.ids.contains id then overrideCwd panes cwd rest next
    else do
      let next ← next.setPaneCwd id cwd
      overrideCwd panes cwd rest next

variable [Scalar K]

/-- `server.rs:62–85`. -/
def prepareTopology (host : Host) (ws : Workspace K) (command : MuxCommand K)
    (cwd : Option String) : Except String (NativeMuxState K) := do
  let next ← ws.topology.execute host command
  match cwd with
  | none => pure next
  | some cwd => overrideCwd ws.panes cwd (snapshotPaneIds next.snapshot) next

/-- The locked part of `source_directory`, `server.rs:235–265`: the pane whose worker is
asked for its directory. -/
def sourcePane (ws : Workspace K) : MuxCommand K → Except String (Option Nat)
  | .splitPane s pane _ | .createPane s pane _ none _ => do
    let id ← ws.topology.sourcePaneId s pane
    let generation ← context (ws.panes.lookup id) "native pane unavailable"
    pure (some generation)
  | _ => .ok none

/-- `server.rs:400–433`: the workspace after a commit, and the panes told to stop. -/
def commit (ws : Workspace K) (client : Nat) : Workspace K × List Nat :=
  match ws.prepared with
  | none => (ws, [])
  | some p =>
    if ws.reservation = some client then
      let live := snapshotPaneIds p.next.snapshot
      let kept : PaneTable := ws.panes.filter fun entry ↦ live.contains entry.1
      let gone : PaneTable := ws.panes.filter fun entry ↦ !live.contains entry.1
      (publish { ws with
          panes := kept.extend p.added
          topology := p.next
          reservation := none
          prepared := none },
        gone.generations)
    else (ws, [])

/-- `server.rs:434–448`. -/
def abort (ws : Workspace K) (client : Nat) : Workspace K × List Nat :=
  if ws.reservation = some client then
    ({ ws with reservation := none, prepared := none },
      ws.prepared.elim [] (·.added.generations))
  else (ws, [])

/-- The lock section of `StagedPanes::drop`, `server.rs:163–174`. -/
def release (ws : Workspace K) (client : Nat) : Workspace K :=
  if ws.reservation = some client then { ws with reservation := none } else ws

end Workspace

/-- `execute` on `&mut self`. A topology change whose layout rewrite fails stays in place;
for `ClosePane`, the one command executed in place, every other error precedes the first
write (`state.rs:471–490`). -/
def NativeMuxState.executeInPlace [Scalar K] (host : Host) (st : NativeMuxState K)
    (command : MuxCommand K) : Except String Unit × NativeMuxState K :=
  match st.execute host command with
  | .ok st' => (.ok (), st')
  | .error error =>
    match st.executeTopology host command with
    | .ok changed => (.error error, changed)
    | .error _ => (.error error, st)

/-! ### Connections and their tasks -/

/-- A connection is served, its future has been dropped, or its final abort has run. -/
inductive Connection where
  | absent
  | serving
  | dropped
  | aborted
  deriving DecidableEq, Repr

/-- A reserved prepare between its reservation and its installation. -/
structure Staging (K : Type) where
  command : MuxCommand K
  cwd : Option String
  next : NativeMuxState K
  pending : List String
  staged : PaneTable

/-- What a connection is running; a connection runs one request at a time. -/
inductive Task (K : Type) where
  | prepare (command : MuxCommand K)
  | sourced (command : MuxCommand K) (cwd : Option String) (revision : Nat)
  | staging (staging : Staging K)
  | releasing
  | commit
  | abort
  | respawn (pane : String) (generation : Nat) (cwd : Option String)

/-- Blocking tasks keep running when their connection is gone. -/
def Task.blocking : Task K → Bool
  | .respawn _ _ _ => false
  | _ => true

/-- The server, with the panes told to stop and the panes that exited by themselves. -/
structure Server (K : Type) where
  workspace : Workspace K
  connection : Nat → Connection
  task : Nat → Option (Task K)
  nextGeneration : Nat
  stopped : List Nat
  exited : List Nat

/-- What clients, sources and processes do. -/
inductive Event (K : Type) where
  | connect (client : Nat)
  | prepare (client : Nat) (command : MuxCommand K)
  | source (client : Nat) (answer : Option (Option String))
  | reserve (client : Nat)
  | launch (client : Nat)
  | launchFailed (client : Nat)
  | install (client : Nat)
  | release (client : Nat)
  | requestCommit (client : Nat)
  | commit (client : Nat)
  | requestAbort (client : Nat)
  | abort (client : Nat)
  | setLayout (client : Nat) (session window : String) (layout : MuxPaneLayout K)
  | respawn (client : Nat) (pane : String) (cwd : Option String)
  | respawned (client : Nat) (launched : Bool)
  | configure (client : Nat)
  | paneExited (pane : String) (generation : Nat)
  | topologyChanged
  | disconnect (client : Nat)
  | finalAbort (client : Nat)

namespace Server

/-- A server without connections. -/
def new (generation : Nat) : Server K :=
  ⟨.new generation, fun _ ↦ .absent, fun _ ↦ none, 1, [], []⟩

/-- The task of one client changes. -/
def setTask (s : Server K) (client : Nat) (task : Option (Task K)) : Server K :=
  { s with task := Function.update s.task client task }

/-- The connection of one client changes. -/
def setConnection (s : Server K) (client : Nat) (connection : Connection) : Server K :=
  { s with connection := Function.update s.connection client connection }

/-- The connection can start a request. -/
def idle (s : Server K) (client : Nat) : Bool :=
  s.connection client == .serving && (s.task client).isNone

/-- Replace the workspace and tell panes to stop. -/
def settle (s : Server K) (result : Workspace K × List Nat) : Server K :=
  { s with workspace := result.1, stopped := result.2 ++ s.stopped }

variable [Scalar K]

/-- `source_directory`: read the source and the revision, then wait for the worker, which may
answer with an error. -/
def source (s : Server K) (client : Nat) (command : MuxCommand K)
    (answer : Option (Option String)) : Server K :=
  match s.workspace.sourcePane command with
  | .error _ => s.setTask client none
  | .ok none => s.setTask client (some (.sourced command none s.workspace.revision))
  | .ok (some _) =>
    match answer with
    | none => s.setTask client none
    | some cwd => s.setTask client (some (.sourced command cwd s.workspace.revision))

/-- The lock section of `prepare`, `server.rs:285–305`. -/
def reserve (host : Host) (s : Server K) (client : Nat) (command : MuxCommand K)
    (cwd : Option String) (revision : Nat) : Server K :=
  if s.workspace.reservation.isSome || s.workspace.revision != revision then s.setTask client none
  else
    match s.workspace.prepareTopology host command cwd with
    | .error _ => s.setTask client none
    | .ok next =>
      let staging : Staging K :=
        { command, cwd, next, pending := s.workspace.unlaunched next, staged := [] }
      { s with workspace := { s.workspace with reservation := some client } }.setTask client
        (some (.staging staging))

/-- Panes that will not be installed are told to stop, before the reservation is given up. -/
def dropStaged (s : Server K) (client : Nat) (staging : Staging K) : Server K :=
  { s with stopped := staging.staged.generations ++ s.stopped }.setTask client (some .releasing)

/-- `install_prepared`, `server.rs:379–398`, or the drop that follows its error. -/
def install (s : Server K) (client : Nat) (staging : Staging K) : Server K :=
  if s.workspace.reservation = some client then
    let prepared : Prepared K :=
      { client, command := staging.command, cwd := staging.cwd, next := staging.next
        added := staging.staged }
    { s with workspace := { s.workspace with prepared := some prepared } }.setTask client none
  else s.dropStaged client staging

/-- The second half of `respawn`, `server.rs:528–545`. The reservation is not looked at. -/
def respawned (s : Server K) (client : Nat) (pane : String) (generation : Nat)
    (cwd : Option String) : Server K :=
  let done := s.setTask client none
  if s.workspace.panes.lookup pane = some generation then
    match cwd with
    | none => { done with workspace := s.workspace.publish }
    | some cwd =>
      match s.workspace.topology.setPaneCwd pane cwd with
      | .ok topology => { done with workspace := { s.workspace with topology }.publish }
      | .error _ => done
  else done

/-- The anchor that shows a pane, `server.rs:500–506`. -/
def paneAnchor (ws : Workspace K) (pane : String) : Option MuxPaneAnchor :=
  ((snapshotWindows ws.topology.snapshot).flatMap (·.2.panes)).find? (·.paneId == some pane)

/-- The session that shows a pane, `server.rs:858–863`. -/
def sessionOf (ws : Workspace K) (pane : String) : Option String :=
  (ws.topology.snapshot.sessions.find?
    fun s ↦ s.windows.any (·.panes.any (·.paneId == some pane))).map (·.id)

/-- `pane_exited`, `server.rs:836–877`, without a reservation. -/
def paneExited (host : Host) (s : Server K) (pane : String) (generation : Nat) : Server K :=
  let ws := s.workspace
  if ws.panes.lookup pane = some generation then
    match sessionOf ws pane with
    | none => s
    | some session =>
      match ws.topology.executeInPlace host (.closePane session (some pane)) with
      | (.ok (), topology) =>
        { s with
          workspace := { ws with topology, panes := ws.panes.filter (·.1 != pane) }.publish
          exited := generation :: s.exited }
      | (.error _, topology) => { s with workspace := { ws with topology } }
  else s

/-- One step of the server; `none` for an event that cannot happen in this state. -/
def step (host : Host) (s : Server K) : Event K → Option (Server K)
  | .connect c => if s.connection c = .absent then some (s.setConnection c .serving) else none
  | .prepare c command =>
    if s.idle c && s.workspace.reservation.isNone then
      some (s.setTask c (some (.prepare command)))
    else none
  | .source c answer =>
    match s.task c with
    | some (.prepare command) => some (s.source c command answer)
    | _ => none
  | .reserve c =>
    match s.task c with
    | some (.sourced command cwd revision) => some (s.reserve host c command cwd revision)
    | _ => none
  | .launch c =>
    match s.task c with
    | some (.staging t) =>
      match t.pending with
      | [] => none
      | id :: pending =>
        let staging : Staging K := { t with pending, staged := t.staged ++ [(id, s.nextGeneration)] }
        some ({ s with nextGeneration := s.nextGeneration + 1 }.setTask c (some (.staging staging)))
    | _ => none
  | .launchFailed c =>
    match s.task c with
    | some (.staging t) => if t.pending.isEmpty then none else some (s.dropStaged c t)
    | _ => none
  | .install c =>
    match s.task c with
    | some (.staging t) => if t.pending.isEmpty then some (s.install c t) else none
    | _ => none
  | .release c =>
    match s.task c with
    | some .releasing =>
      some ({ s with workspace := s.workspace.release c }.setTask c none)
    | _ => none
  | .requestCommit c => if s.idle c then some (s.setTask c (some .commit)) else none
  | .commit c =>
    match s.task c with
    | some .commit => some ((s.settle (s.workspace.commit c)).setTask c none)
    | _ => none
  | .requestAbort c => if s.idle c then some (s.setTask c (some .abort)) else none
  | .abort c =>
    match s.task c with
    | some .abort => some ((s.settle (s.workspace.abort c)).setTask c none)
    | _ => none
  | .setLayout c session window layout =>
    if s.idle c && s.workspace.reservation.isNone then
      match s.workspace.topology.setLayout session window layout with
      | .ok topology => some { s with workspace := { s.workspace with topology }.publish }
      | .error _ => some s
    else none
  | .respawn c pane cwd =>
    if s.idle c && s.workspace.reservation.isNone then
      match paneAnchor s.workspace pane, s.workspace.panes.lookup pane with
      | some anchor, some generation =>
        some (s.setTask c (some (.respawn pane generation (cwd <|> anchor.cwd))))
      | _, _ => some s
    else none
  | .respawned c launched =>
    match s.task c with
    | some (.respawn pane generation cwd) =>
      if launched then some (s.respawned c pane generation cwd) else some (s.setTask c none)
    | _ => none
  | .configure c => if s.idle c then some s else none
  | .paneExited pane generation =>
    if s.workspace.reservation.isNone then some (s.paneExited host pane generation) else none
  | .topologyChanged => some { s with workspace := s.workspace.publish }
  | .disconnect c =>
    if s.connection c = .serving then
      some ((s.setConnection c .dropped).setTask c ((s.task c).filter Task.blocking))
    else none
  | .finalAbort c =>
    if s.connection c = .dropped then
      some ((s.settle (s.workspace.abort c)).setConnection c .aborted)
    else none

end Server
end Bootty.Mux.Native
