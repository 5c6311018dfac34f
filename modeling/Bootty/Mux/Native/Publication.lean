import Bootty.Base.Binary32
import Bootty.Base.Wakeup
import Bootty.Mux.Controller
import Bootty.Mux.Native.ProcessTable

/-!
# Publication of the topology

Model of the titled snapshot and its publication (`crates/bootty-mux/src/native/server.rs:86–121`),
of the coalesced change notification (`server.rs:449–482`, `server_pane.rs:789–799` and
`server_pane.rs:856–861`) and of the subscribers' queues (`subscriber.rs:33–57`), around the
server of `Bootty.Mux.Native.Server`. The workers of the panes are the notifiers of a
`Wakeup`, known by their generations.

A `Respawn` command may wait in a worker's queue after its connection is gone, so a worker
may clear its title at any time. Whether a queue takes a frame depends on the other frames in
it, so a publication is told which queues do.
-/

namespace Bootty.Mux.Native

open Bootty.Base

variable {K : Type}

/-- `state.rs:48–54`. -/
def NativeMuxState.windowHasCustomName (st : NativeMuxState K) (session window : String) : Bool :=
  ((st.sessions.find? (·.id == session)).bind
    fun s ↦ s.windows.find? (·.id == window)).any (·.customName)

/-- `server.rs:86–105`: a window without a name of its own shows the title of its pane. -/
def Workspace.snapshot (generation : Nat) (titles : Nat → Option String) (ws : Workspace K) :
    TopologySnapshot K :=
  let titled (session : MuxSession K) (window : MuxWindow K) : MuxWindow K :=
    if ws.topology.windowHasCustomName session.id window.id then window
    else
      match (window.anchor.paneId.bind fun id ↦ ws.panes.lookup id).bind titles with
      | some title => { window with name := title }
      | none => window
  let snapshot := ws.topology.snapshot
  { generation
    revision := ws.revision
    snapshot := { snapshot with
      sessions := snapshot.sessions.map fun session ↦
        { session with windows := session.windows.map (titled session) } } }

/-! ### Subscribers -/

/-- A subscriber with the `Changed` frames pushed to it. -/
structure Subscriber (K : Type) where
  client : Nat
  dead : Bool
  changed : List (TopologySnapshot K)

namespace Subscriber

/-- A subscriber that has been sent nothing. -/
def new (client : Nat) : Subscriber K := ⟨client, false, []⟩

/-- `subscriber.rs:33–52`. -/
def push (subscriber : Subscriber K) (fits : Bool) (frame : TopologySnapshot K) :
    Bool × Subscriber K :=
  if subscriber.dead then (false, subscriber)
  else if fits then (true, { subscriber with changed := subscriber.changed ++ [frame] })
  else (false, { subscriber with dead := true })

end Subscriber

/-- `Vec::retain` with `Subscriber::push`. -/
def pushAll (subscribers : List (Subscriber K)) (fits : Nat → Bool)
    (frame : TopologySnapshot K) : List (Subscriber K) :=
  subscribers.filterMap fun subscriber ↦
    let (sent, subscriber') := subscriber.push (fits subscriber.client) frame
    if sent then some subscriber' else none

/-! ### The machine -/

/-- A workspace with its workers, its event loop and its subscribers. -/
structure Publication (K : Type) where
  generation : Nat
  server : Server K
  titles : Nat → Option String
  wakeup : Wakeup Nat
  published : List (TopologySnapshot K)
  subscribers : List (Subscriber K)

namespace Publication

/-- What the server and the writers of titles do. -/
inductive Action (K : Type) where
  | server (event : Event K) (fits : Nat → Bool)
  | writeTitle (worker : Nat) (title : String)
  | clearTitle (worker : Nat)
  | swap (worker : Nat)
  | enqueue (worker : Nat)
  | dequeue
  | clear
  | publish (fits : Nat → Bool)
  | close (client : Nat)

/-- A server that has just started. -/
def new (generation : Nat) : Publication K :=
  ⟨generation, .new generation, fun _ ↦ none, .new, [], []⟩

/-- What `snapshot()` returns now. -/
def snapshot (p : Publication K) : TopologySnapshot K :=
  p.server.workspace.snapshot p.generation p.titles

/-- The snapshot of the last `Changed` frame; a workspace is created unpublished. -/
def lastPublished (p : Publication K) : TopologySnapshot K :=
  p.published.getLast?.getD ((Workspace.new p.generation).snapshot p.generation fun _ ↦ none)

/-- Replace the server by its next state. A publication is what changes the revision. -/
def advance (p : Publication K) (server : Server K) (fits : Nat → Bool) : Publication K :=
  let next := { p with server }
  if server.workspace.revision = p.server.workspace.revision then next
  else
    { next with
      published := p.published ++ [next.snapshot]
      subscribers := pushAll p.subscribers fits next.snapshot }

/-- `server.rs:555–572`; a connection subscribes before its first request. -/
def subscribe (p : Publication K) : Event K → Publication K
  | .connect client =>
    { p with subscribers := p.subscribers.filter (fun subscriber ↦ !subscriber.dead) ++ [.new client] }
  | _ => p

/-- The worker of a launched pane. -/
def launched (p : Publication K) (worker : Nat) : Bool :=
  0 < worker && worker < p.server.nextGeneration

/-- A worker changes its title and goes on to notify. -/
def setTitle (p : Publication K) (worker : Nat) (title : Option String) :
    Option (Publication K) :=
  if p.launched worker then
    (p.wakeup.step (.write worker)).map fun wakeup ↦
      { p with wakeup, titles := Function.update p.titles worker title }
  else none

/-- `subscriber.rs:53–56`. -/
def close (p : Publication K) (client : Nat) : Publication K :=
  { p with subscribers := p.subscribers.map fun (subscriber : Subscriber K) ↦
      if subscriber.client = client then { subscriber with dead := true } else subscriber }

variable [Scalar K]

/-- One atomic step; `none` for one that cannot happen in this state. -/
def step (host : Host) (p : Publication K) : Action K → Option (Publication K)
  | .server .topologyChanged _ => none
  | .server e fits => (p.server.step host e).map fun server ↦ (p.advance server fits).subscribe e
  | .writeTitle worker title =>
    -- An unchanged title is not written and not notified.
    if p.titles worker = some title then some p else p.setTitle worker (some title)
  | .clearTitle worker => p.setTitle worker none
  | .swap worker => (p.wakeup.step (.swap worker)).map fun wakeup ↦ { p with wakeup }
  | .enqueue worker => (p.wakeup.step (.enqueue worker)).map fun wakeup ↦ { p with wakeup }
  | .dequeue => (p.wakeup.step .dequeue).map fun wakeup ↦ { p with wakeup }
  | .clear => (p.wakeup.step .clear).map fun wakeup ↦ { p with wakeup }
  | .publish fits =>
    (p.wakeup.step .read).bind fun wakeup ↦
      (p.server.step host .topologyChanged).map fun server ↦
        { p with wakeup }.advance server fits
  | .close client => some (p.close client)

/-- No publication is lost, and every subscriber sees the revisions grow. -/
structure UpToDate (p : Publication K) : Prop where
  current : p.wakeup.Settled → p.lastPublished = p.snapshot
  increasing : ∀ subscriber ∈ p.subscribers,
    (subscriber.changed.map (·.revision)).Pairwise (· < ·)

end Publication

/-- Requests and exits that end in a publication. -/
def Event.publishes : Event K → Bool
  | .commit _ | .setLayout _ _ _ _ | .respawned _ true | .paneExited _ _ | .topologyChanged => true
  | _ => false

/-- A pane that exits can be taken out of its split tree, and what is to be published finds a
next revision. -/
def Publication.Publishable [Scalar K] (host : Host) (p : Publication K) :
    Publication.Action K → Prop
  | .server e _ => p.server.NoFailedClose host e ∧
    (e.publishes = true → p.server.workspace.revision < u64Max)
  | .publish _ => p.server.workspace.revision < u64Max
  | _ => True

/-! ### Revisions of the server -/

variable {revision : Nat}

namespace Server

-- The edits before a publication leave the revision alone, so `h` is always `rfl`; it keeps
-- the workspace before the edits apart from the published one.
private theorem le_revision_publish {ws : Workspace K} (h : ws.revision = revision) :
    revision ≤ ws.publish.revision := by
  subst h
  exact le_publish_revision ws

private theorem revision_lt_publish {ws : Workspace K} (h : ws.revision = revision)
    (hroom : revision < u64Max) :
    revision < ws.publish.revision := by
  subst h
  unfold Workspace.publish
  rw [if_pos (by omega)]
  exact Nat.lt_succ_self _

private theorem abort_frame (ws : Workspace K) (c : Nat) :
    (ws.abort c).1.revision = ws.revision ∧ (ws.abort c).1.topology = ws.topology ∧
      (ws.abort c).1.panes = ws.panes := by
  unfold Workspace.abort
  split <;> exact ⟨rfl, rfl, rfl⟩

private theorem release_frame (ws : Workspace K) (c : Nat) :
    (ws.release c).revision = ws.revision ∧ (ws.release c).topology = ws.topology ∧
      (ws.release c).panes = ws.panes := by
  unfold Workspace.release
  split <;> exact ⟨rfl, rfl, rfl⟩

private theorem le_commit_revision (ws : Workspace K) (c : Nat) :
    ws.revision ≤ (ws.commit c).1.revision := by
  unfold Workspace.commit
  split
  · exact le_rfl
  · split
    · exact le_revision_publish rfl
    · exact le_rfl

variable [Scalar K] {host : Host} {s s' : Server K} {e : Event K}

/-- The revision never goes down. -/
theorem le_revision_of_step (h : s.step host e = some s') :
    s.workspace.revision ≤ s'.workspace.revision := by
  cases transition_of_step h with
  | quiet same => exact same.revision
  | setLayout _ _ => exact le_revision_publish rfl
  | record _ _ _ => exact le_revision_publish rfl
  | commit _ _ _ => exact le_commit_revision s.workspace _
  | closed _ _ _ _ => exact le_revision_publish rfl
  | release _ => exact (release_frame s.workspace _).1.ge
  | abort _ => exact (abort_frame s.workspace _).1.ge
  | finalAbort _ => exact (abort_frame s.workspace _).1.ge
  | _ => exact le_rfl

/-- A step that publishes nothing leaves the topology and the process table alone. -/
theorem published_or_same (h : s.step host e = some s') (hclose : s.NoFailedClose host e)
    (hroom : e.publishes = true → s.workspace.revision < u64Max) :
    s.workspace.revision < s'.workspace.revision ∨
      s'.workspace.revision = s.workspace.revision ∧
        s'.workspace.topology = s.workspace.topology ∧ s'.workspace.panes = s.workspace.panes := by
  cases transition_of_step h with
  | quiet same =>
    obtain hlt | heq := same.revision.lt_or_eq
    · exact .inl hlt
    · exact .inr ⟨heq.symm, same.topology, same.panes⟩
  | setLayout _ _ => exact .inl (revision_lt_publish rfl (hroom rfl))
  | record _ _ _ => exact .inl (revision_lt_publish rfl (hroom rfl))
  | release _ => exact .inr (release_frame s.workspace _)
  | commit _ prepared owned =>
    refine .inl ?_
    simp only [setTask_workspace, settle, Workspace.commit, prepared, if_pos owned]
    exact revision_lt_publish rfl (hroom rfl)
  | abort _ => exact .inr (abort_frame s.workspace _)
  | finalAbort _ => exact .inr (abort_frame s.workspace _)
  | closed _ _ _ _ => exact .inl (revision_lt_publish rfl (hroom rfl))
  | failedClose free current shown failed =>
    obtain ⟨topology, hok⟩ := hclose free current _ shown
    rw [hok] at failed
    cases failed
  | _ => exact .inr ⟨rfl, rfl, rfl⟩

end Server

/-! ### Frames of a subscriber -/

/-- The frames of a subscriber come in the order of their revisions, none of them later than
the workspace's. -/
private def Subscriber.Ordered (revision : Nat) (subscriber : Subscriber K) : Prop :=
  (subscriber.changed.map (·.revision)).Pairwise (· < ·) ∧
    ∀ frame ∈ subscriber.changed, frame.revision ≤ revision

private theorem ordered_append {subscriber : Subscriber K} (h : subscriber.Ordered revision)
    {frame : TopologySnapshot K} (hlt : revision < frame.revision) :
    Subscriber.Ordered frame.revision
      { subscriber with changed := subscriber.changed ++ [frame] } := by
  constructor
  · rw [List.map_append, List.pairwise_append]
    refine ⟨h.1, List.pairwise_singleton _ _, ?_⟩
    intro r hr r' hr'
    obtain ⟨old, hold, rfl⟩ := List.mem_map.mp hr
    obtain rfl : r' = frame.revision := by simpa using hr'
    exact (h.2 old hold).trans_lt hlt
  · intro f hf
    obtain hf | hf := List.mem_append.mp hf
    · exact (h.2 f hf).trans hlt.le
    · obtain rfl := List.mem_singleton.mp hf
      exact le_rfl

private theorem ordered_pushAll {subscribers : List (Subscriber K)}
    (h : ∀ subscriber ∈ subscribers, subscriber.Ordered revision) (fits : Nat → Bool)
    {frame : TopologySnapshot K} (hlt : revision < frame.revision) :
    ∀ subscriber ∈ pushAll subscribers fits frame, subscriber.Ordered frame.revision := by
  intro subscriber hmem
  obtain ⟨old, hold, hpush⟩ := List.mem_filterMap.mp hmem
  cases hdead : old.dead with
  | true => simp [Subscriber.push, hdead] at hpush
  | false =>
    cases hfits : fits old.client with
    | true =>
      obtain rfl : { old with changed := old.changed ++ [frame] } = subscriber := by
        simpa [Subscriber.push, hdead, hfits] using hpush
      exact ordered_append (h old hold) hlt
    | false => simp [Subscriber.push, hdead, hfits] at hpush

/-! ### The invariant -/

namespace Publication

private structure Kept (p : Publication K) : Prop where
  armed : p.wakeup.Armed
  current : p.wakeup.Settled → p.lastPublished = p.snapshot
  ordered : ∀ subscriber ∈ p.subscribers, subscriber.Ordered p.server.workspace.revision

private theorem kept_new (generation : Nat) : (new generation : Publication K).Kept where
  armed := Wakeup.armed_new
  current _ := rfl
  ordered _ hmem := absurd hmem List.not_mem_nil

variable {server : Server K}

private theorem ordered_advance {p : Publication K}
    (h : ∀ subscriber ∈ p.subscribers, subscriber.Ordered p.server.workspace.revision)
    (hle : p.server.workspace.revision ≤ server.workspace.revision) (fits : Nat → Bool) :
    ∀ subscriber ∈ (p.advance server fits).subscribers,
      subscriber.Ordered server.workspace.revision := by
  unfold advance
  by_cases heq : server.workspace.revision = p.server.workspace.revision
  · rw [heq]
    simp only [if_pos]
    exact h
  · simp only [if_neg heq]
    apply ordered_pushAll h
    exact lt_of_le_of_ne hle (Ne.symm heq)

private theorem lastPublished_advance {p : Publication K}
    (hlt : p.server.workspace.revision < server.workspace.revision) (fits : Nat → Bool) :
    (p.advance server fits).lastPublished = (p.advance server fits).snapshot := by
  unfold advance
  simp only [if_neg hlt.ne']
  simp [lastPublished, snapshot]

private theorem advance_frame {p : Publication K}
    (hsame : server.workspace.revision = p.server.workspace.revision ∧
      server.workspace.topology = p.server.workspace.topology ∧
        server.workspace.panes = p.server.workspace.panes) (fits : Nat → Bool) :
    (p.advance server fits).lastPublished = p.lastPublished ∧
      (p.advance server fits).snapshot = p.snapshot := by
  obtain ⟨hrevision, htopology, hpanes⟩ := hsame
  unfold advance
  simp only [if_pos hrevision]
  exact ⟨rfl, by simp only [snapshot, Workspace.snapshot, hrevision, htopology, hpanes]⟩

@[simp] private theorem wakeup_advance (p : Publication K) (server : Server K)
    (fits : Nat → Bool) : (p.advance server fits).wakeup = p.wakeup := by
  unfold advance
  simp only
  split <;> rfl

@[simp] private theorem server_advance (p : Publication K) (server : Server K)
    (fits : Nat → Bool) : (p.advance server fits).server = server := by
  unfold advance
  simp only
  split <;> rfl

private theorem kept_subscribe {p : Publication K} (h : p.Kept) (e : Event K) :
    (p.subscribe e).Kept := by
  cases e with
  | connect client =>
    refine ⟨h.armed, h.current, ?_⟩
    intro subscriber hmem
    obtain hmem | hmem := List.mem_append.mp hmem
    · exact h.ordered subscriber (List.mem_of_mem_filter hmem)
    · obtain rfl := List.mem_singleton.mp hmem
      exact ⟨List.Pairwise.nil, fun frame hframe ↦ absurd hframe List.not_mem_nil⟩
  | _ => exact h

private theorem kept_wakeup {p : Publication K} (h : p.Kept) {e : Wakeup.Event Nat}
    {wakeup : Wakeup Nat} (hstep : p.wakeup.step e = some wakeup) (he : e ≠ .read)
    (titles : Nat → Option String) : { p with wakeup, titles }.Kept where
  armed := Wakeup.armed_step h.armed hstep
  current hsettled := absurd (Wakeup.eq_read_of_settled h.armed hstep hsettled) he
  ordered := h.ordered

private theorem kept_setTitle {p p' : Publication K} (h : p.Kept) {worker : Nat}
    {title : Option String} (hstep : p.setTitle worker title = some p') : p'.Kept := by
  unfold setTitle at hstep
  split at hstep
  · obtain ⟨wakeup, hwakeup, rfl⟩ := Option.map_eq_some_iff.mp hstep
    apply kept_wakeup h hwakeup
    rintro ⟨⟩
  · cases hstep

private theorem kept_close {p : Publication K} (h : p.Kept) (client : Nat) :
    (p.close client).Kept := by
  refine ⟨h.armed, h.current, ?_⟩
  intro subscriber hmem
  obtain ⟨old, hold, rfl⟩ := List.mem_map.mp hmem
  have hordered := h.ordered old hold
  split
  · exact hordered
  · exact hordered

variable [Scalar K] {host : Host} {p p' : Publication K}

variable {fits : Nat → Bool}

private theorem kept_server (h : p.Kept) {e : Event K} (hok : p.Publishable host (.server e fits))
    (hstep : p.server.step host e = some server) : (p.advance server fits).Kept where
  armed := by
    rw [wakeup_advance]
    exact h.armed
  current := by
    intro hsettled
    rw [wakeup_advance] at hsettled
    obtain hlt | hsame := Server.published_or_same hstep hok.1 hok.2
    · exact lastPublished_advance hlt fits
    · obtain ⟨hlast, hsnapshot⟩ := advance_frame hsame fits
      rw [hlast, hsnapshot]
      exact h.current hsettled
  ordered := by
    rw [server_advance]
    exact ordered_advance h.ordered (Server.le_revision_of_step hstep) fits

private theorem kept_publish (h : p.Kept) (hok : p.Publishable host (.publish fits))
    {wakeup : Wakeup Nat} (hwakeup : p.wakeup.step .read = some wakeup)
    (hstep : p.server.step host .topologyChanged = some server) :
    ({ p with wakeup }.advance server fits).Kept where
  armed := by
    rw [wakeup_advance]
    exact Wakeup.armed_step h.armed hwakeup
  current := by
    intro _
    apply lastPublished_advance
    obtain rfl := Option.some.inj hstep
    exact Server.revision_lt_publish rfl hok
  ordered := by
    rw [server_advance]
    apply ordered_advance
    · exact h.ordered
    · exact Server.le_revision_of_step hstep

private theorem map_of_step_server {e : Event K} (hstep : p.step host (.server e fits) = some p') :
    ∃ server, p.server.step host e = some server ∧ (p.advance server fits).subscribe e = p' := by
  have hmap : (p.server.step host e).map (fun server ↦ (p.advance server fits).subscribe e)
      = some p' := by
    cases e with
    | topologyChanged => cases hstep
    | _ => exact hstep
  exact Option.map_eq_some_iff.mp hmap

private theorem kept_step {action : Action K} (h : p.Kept) (hok : p.Publishable host action)
    (hstep : p.step host action = some p') : p'.Kept := by
  cases action with
  | server e fits =>
    obtain ⟨server, hserver, rfl⟩ := map_of_step_server hstep
    exact kept_subscribe (kept_server h hok hserver) e
  | writeTitle worker title =>
    simp only [step] at hstep
    split at hstep
    · obtain rfl := Option.some.inj hstep
      exact h
    · exact kept_setTitle h hstep
  | clearTitle worker => exact kept_setTitle h hstep
  | swap worker =>
    obtain ⟨wakeup, hwakeup, rfl⟩ := Option.map_eq_some_iff.mp hstep
    exact kept_wakeup h hwakeup (by rintro ⟨⟩) p.titles
  | enqueue worker =>
    obtain ⟨wakeup, hwakeup, rfl⟩ := Option.map_eq_some_iff.mp hstep
    exact kept_wakeup h hwakeup (by rintro ⟨⟩) p.titles
  | dequeue =>
    obtain ⟨wakeup, hwakeup, rfl⟩ := Option.map_eq_some_iff.mp hstep
    exact kept_wakeup h hwakeup (by rintro ⟨⟩) p.titles
  | clear =>
    obtain ⟨wakeup, hwakeup, rfl⟩ := Option.map_eq_some_iff.mp hstep
    exact kept_wakeup h hwakeup (by rintro ⟨⟩) p.titles
  | publish fits =>
    obtain ⟨wakeup, hwakeup, hrest⟩ := Option.bind_eq_some_iff.mp hstep
    obtain ⟨server, hserver, rfl⟩ := Option.map_eq_some_iff.mp hrest
    exact kept_publish h hok hwakeup hserver
  | close client =>
    obtain rfl := Option.some.inj hstep
    exact kept_close h client

/-- In every run in which exits can be laid out and the revision is not exhausted, no
publication is lost and the revisions pushed to a subscriber grow. -/
theorem published_up_to_date (host : Host) (generation : Nat) (p : Publication K)
    (hp : Reaches (step host) (Publishable host) (new generation) p) : p.UpToDate := by
  have hkept : p.Kept :=
    hp.invariant (kept_new generation) fun _ _ _ h hok hstep ↦ kept_step h hok hstep
  constructor
  · exact hkept.current
  · intro subscriber hmem
    exact (hkept.ordered subscriber hmem).1

/-- Every queue has room. -/
private def roomy (_ : Nat) : Bool := true

private def serverActions (events : List (Event K)) : List (Action K) :=
  events.map fun e ↦ .server e roomy

private def publishableTest (p : Publication K) : Action K → Bool
  | .server e _ => p.server.withoutExit e && decide (p.server.workspace.revision < u64Max)
  | .publish _ => decide (p.server.workspace.revision < u64Max)
  | _ => true

private theorem publishable_of_test (host : Host) (p : Publication K) (action : Action K)
    (h : p.publishableTest action = true) : p.Publishable host action := by
  cases action with
  | server e fits =>
    obtain ⟨hexit, hroom⟩ := Bool.and_eq_true_iff.mp h
    exact ⟨Server.noFailedClose_of_test host p.server e hexit, fun _ ↦ of_decide_eq_true hroom⟩
  | publish fits =>
    have hroom : p.server.workspace.revision < u64Max := of_decide_eq_true h
    exact hroom
  | _ => trivial

private def publishesName (name : String) (p : Publication K) : Bool :=
  (snapshotWindows p.lastPublished.snapshot).map (·.2.name) == [name]

/-- A title set by the worker of the only pane reaches the published window. -/
theorem published_up_to_date_title : ∃ p,
    Reaches (step Host.plain) (Publishable Host.plain) (new 7 : Publication Binary32) p ∧
      (snapshotWindows p.lastPublished.snapshot).map (·.2.name) = ["vim"] ∧ p.UpToDate := by
  obtain ⟨p, hp, hgoal⟩ := exists_reaches_of_runEvents (publishable_of_test Host.plain)
    (show (runEvents (step Host.plain) publishableTest (new 7 : Publication Binary32)
      (serverActions (.connect 1 :: Server.committed (.createProjectSession "work" "/src" {} none)) ++
        [.writeTitle 1 "vim", .swap 1, .enqueue 1, .dequeue, .clear, .publish roomy])).map
      (publishesName "vim") = some true by decide +kernel)
  exact ⟨p, hp, eq_of_beq hgoal, published_up_to_date Host.plain 7 p hp⟩

private def serverOnly (_ : Publication K) : Action K → Bool
  | .server _ _ => true
  | _ => false

private theorem wakeup_of_serverOnly {generation : Nat}
    (hp : Reaches (step host) (fun p action ↦ serverOnly p action = true) (new generation) p) :
    p.wakeup = .new := by
  refine Reaches.invariant (I := fun p ↦ p.wakeup = .new) rfl ?_ hp
  intro p action p' h hok hstep
  cases action with
  | server e fits =>
    obtain ⟨server, hserver, rfl⟩ := map_of_step_server hstep
    cases e with
    | _ => simpa [subscribe] using h
  | _ => cases hok

private def losesPane (p : Publication K) : Bool :=
  snapshotPaneIds p.lastPublished.snapshot != snapshotPaneIds p.snapshot.snapshot

/-- An exit that cannot be laid out changes the topology and publishes nothing. -/
theorem not_published_up_to_date :
    ¬ ∀ p, Reaches (step Host.plain) anyStep (new 7 : Publication Binary32) p → p.UpToDate := by
  intro h
  obtain ⟨p, hp, hgoal⟩ := exists_reaches_of_runEvents (fun _ _ hok ↦ hok)
    (show (runEvents (step Host.plain) serverOnly (new 7) (serverActions Server.thinExit)).map
      losesPane = some true by decide +kernel)
  have hsettled : p.wakeup.Settled := by
    rw [wakeup_of_serverOnly hp]
    exact ⟨rfl, rfl, fun _ ↦ rfl⟩
  have hcurrent := (h p (hp.mono fun _ _ _ ↦ trivial)).current hsettled
  simp [losesPane, hcurrent] at hgoal

end Publication
end Bootty.Mux.Native
