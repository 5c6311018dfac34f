import Bootty.Mux.Native.State
import Mathlib.Data.List.Induction
import Mathlib.Logic.Function.Basic

/-!
# Execution of a command

Model of the snapshot (`native/state.rs:529–620`), of the layout rewrite that follows each
topology change (`native/layout.rs`), and of `execute` and `set_layout`
(`native/state.rs:83–102,891–920`). A hash map of layouts is a partial function on keys.
-/

namespace Bootty.Mux.Native

open Bootty.Base

variable {K : Type}

/-! ### Snapshots -/

/-- `state.rs:612–620`. -/
def anchorForOptionalPane (sessionId : String) (pane : Option NativePane) : MuxPaneAnchor :=
  { sessionId, paneId := pane.map (·.id), panePid := none, cwd := pane.map (·.cwd)
    process := some "shell" }

/-- `anchor_for_pane`. -/
def anchorForPane (sessionId : String) (pane : NativePane) : MuxPaneAnchor :=
  anchorForOptionalPane sessionId (some pane)

/-- `state.rs:601–608`. -/
def anchorForWindow (sessionId : String) (window : NativeWindow K) : MuxPaneAnchor :=
  anchorForOptionalPane sessionId
    (window.panes.find? (·.id == window.activePaneId) <|> window.panes.head?)

namespace NativeMuxState

/-- One window of `snapshot_session`. -/
def snapshotWindow (st : NativeMuxState K) (session : NativeSession K)
    (window : NativeWindow K) : MuxWindow K :=
  { id := window.id, index := window.index, name := window.name
    active := session.id == st.activeSessionId && window.id == session.activeWindowId
    anchor := anchorForWindow session.id window
    panes := window.panes.map (anchorForPane session.id), layout := window.layout }

/-- `state.rs:541–589`. -/
def snapshotSession (st : NativeMuxState K) (session : NativeSession K) : MuxSession K :=
  let windows := session.windows.map (st.snapshotWindow session)
  let shown := windows.find? (·.id == session.activeWindowId) <|> windows.head?
  { id := session.id, name := session.name, active := session.id == st.activeSessionId
    anchor := shown.elim
      { sessionId := session.id, paneId := none, panePid := none, cwd := none, process := none }
      (·.anchor)
    activeWindowId := some session.activeWindowId, windows, tag := session.tag }

/-- `state.rs:529–539`. -/
def snapshot (st : NativeMuxState K) : MuxSnapshot K :=
  { activeSessionId := if st.activeSessionId = "" then none else some st.activeSessionId
    sessions := st.sessions.map st.snapshotSession }

end NativeMuxState

/-! ### Layouts after a command -/

/-- `HashMap<(String, String), V>`, by session and window id. -/
abbrev LayoutMap (V : Type) := String × String → Option V

section Layouts

variable [Scalar K]

/-- The layouts in force before the command, `layout.rs:15–22`. -/
def currentLayouts (before : MuxSnapshot K) : LayoutMap (PaneLayout K) :=
  let insertWindow := fun (session : MuxSession K) (layouts : LayoutMap (PaneLayout K))
      (window : MuxWindow K) ↦
    match window.layout.bind PaneLayout.fromMuxLayout with
    | some layout => Function.update layouts (session.id, window.id) (some layout)
    | none => layouts
  before.sessions.foldl
    (fun layouts session ↦ session.windows.foldl (insertWindow session) layouts) fun _ ↦ none

/-- `key_for`: the addressed session's first window that shows the pane. -/
def keyFor (before : MuxSnapshot K) (sessionId pane : String) : Option (String × String) :=
  ((before.sessions.find? (·.id == sessionId)).bind fun session ↦
    session.windows.find? (·.panes.any (·.paneId == some pane))).map fun window ↦
      (sessionId, window.id)

/-- `layouts.get_mut(key)` followed by an operation whose refusal is ignored. -/
def editLayout (layouts : LayoutMap (PaneLayout K)) (key : String × String)
    (f : PaneLayout K → Option (PaneLayout K)) : LayoutMap (PaneLayout K) :=
  match layouts key with
  | some layout => Function.update layouts key (some ((f layout).getD layout))
  | none => layouts

/-- `layouts.get_mut(key)` followed by an operation that must succeed. -/
def tryEditLayout (layouts : LayoutMap (PaneLayout K)) (key : String × String)
    (f : PaneLayout K → Option (PaneLayout K)) (error : String) :
    Except String (LayoutMap (PaneLayout K)) :=
  match layouts key with
  | some layout => do
    let layout ← context (f layout) error
    pure (Function.update layouts key (some layout))
  | none => .ok layouts

/-- The `SwapPanes` arm, `layout.rs:96–114`. -/
def rearrangeSwap (layouts : LayoutMap (PaneLayout K)) (source target : String)
    (a b : String × String) : LayoutMap (PaneLayout K) :=
  if a = b then editLayout layouts a (·.swap source target)
  else editLayout (editLayout layouts a (·.replace source target)) b (·.replace target source)

/-- The `MovePane` arm, `layout.rs:122–145`. -/
def rearrangeMove (layouts : LayoutMap (PaneLayout K)) (pane target : String)
    (direction : MuxDirection) (a b : String × String) :
    Except String (LayoutMap (PaneLayout K)) :=
  let direction := NativeMuxState.layoutDirection direction
  if a = b then
    tryEditLayout layouts a (·.moveBeside pane target direction)
      "pane move exceeds representable split weights"
  else
    tryEditLayout (editLayout layouts a (·.remove pane)) b (·.insertBeside pane target direction)
      "pane insertion exceeds representable split weights"

/-- The `MergeWindows` arm, `layout.rs:150–165`. -/
def rearrangeMerge (layouts : LayoutMap (PaneLayout K)) (source target : String × String) :
    Except String (LayoutMap (PaneLayout K)) :=
  let rest := Function.update layouts source none
  match layouts source with
  | some layout => tryEditLayout rest target (·.merge layout)
      "pane merge exceeds representable split weights"
  | none => .ok rest

/-- `layout.rs:79–170`. -/
def rearrange (before : MuxSnapshot K) (command : MuxCommand K)
    (layouts : LayoutMap (PaneLayout K)) : Except String (LayoutMap (PaneLayout K)) :=
  match command with
  | .swapPanes s source target =>
    match keyFor before s source, keyFor before s target with
    | some a, some b => .ok (rearrangeSwap layouts source target a b)
    | _, _ => .ok layouts
  | .movePane s pane target direction =>
    match keyFor before s pane, keyFor before s target with
    | some a, some b => rearrangeMove layouts pane target direction a b
    | _, _ => .ok layouts
  | .mergeWindows s source target => rearrangeMerge layouts (s, source) (s, target)
  | _ => .ok layouts

/-- The direction and source pane of a command that splits a pane. -/
def splitOf : MuxCommand K → Option (Option String × MuxSplitDirection)
  | .splitPane _ pane direction => some (pane, direction)
  | .createPane _ pane direction _ _ => some (pane, direction)
  | _ => none

/-- `layout.rs:41–63`: fit one window's layout to its live panes. -/
def fitLayout (before : MuxSnapshot K) (command : MuxCommand K) (session : String)
    (ids : List String) (layout : PaneLayout K) : PaneLayout K :=
  match splitOf command with
  | none => layout.reconcile ids
  | some (pane, direction) =>
    if session = command.sessionId then
      let source := pane <|> (before.sessions.find? (·.id == command.sessionId)).bind
        (·.anchor.paneId)
      let layout := source.elim layout fun source ↦ (layout.setFocus source).getD layout
      match direction with
      | .right => layout.reconcileWithNewPaneDirection ids .right
      | .down => layout.reconcileWithNewPaneDirection ids .down
    else layout.reconcile ids

/-- One round of the second loop, `layout.rs:27–72`; `none` for a window without panes. -/
def windowLayout (before : MuxSnapshot K) (command : MuxCommand K)
    (layouts : LayoutMap (PaneLayout K)) (session : MuxSession K) (window : MuxWindow K) :
    Except String (Option (MuxPaneLayout K)) :=
  let ids := window.panes.filterMap (·.paneId)
  match ids.head? with
  | none => .ok none
  | some first => do
    let start := (layouts (session.id, window.id) <|>
      window.layout.bind PaneLayout.fromMuxLayout).getD (.single first)
    let layout := fitLayout before command session.id ids start
    ensure (layout.panes.length == ids.length && ids.all layout.panes.contains)
      "pane layout exceeds representable split weights"
    let layout := window.anchor.paneId.elim layout fun focus ↦
      (layout.setFocus focus).getD layout
    pure (some layout.snapshot)

/-- The second loop of `updated_layouts`: each window takes its layout out of the map. -/
def layOut (before : MuxSnapshot K) (command : MuxCommand K) :
    List (MuxSession K × MuxWindow K) → LayoutMap (PaneLayout K) →
      LayoutMap (MuxPaneLayout K) → Except String (LayoutMap (MuxPaneLayout K))
  | [], _, result => .ok result
  | (session, window) :: rest, layouts, result =>
    match windowLayout before command layouts session window with
    | .error error => .error error
    | .ok none => layOut before command rest layouts result
    | .ok (some layout) =>
      let key := (session.id, window.id)
      layOut before command rest (Function.update layouts key none)
        (Function.update result key (some layout))

/-- The windows of a snapshot in iteration order. -/
def snapshotWindows (snapshot : MuxSnapshot K) : List (MuxSession K × MuxWindow K) :=
  snapshot.sessions.flatMap fun session ↦ session.windows.map (session, ·)

/-- `layout.rs:10–77`. -/
def updatedLayouts (before after : MuxSnapshot K) (command : MuxCommand K) :
    Except String (LayoutMap (MuxPaneLayout K)) := do
  let layouts ← rearrange before command (currentLayouts before)
  layOut before command (snapshotWindows after) layouts fun _ ↦ none

end Layouts

/-! ### The operations of the server -/

namespace NativeMuxState

/-- `state.rs:911–917`. -/
def withLayouts (st : NativeMuxState K) (layouts : LayoutMap (MuxPaneLayout K)) :
    NativeMuxState K :=
  let inSession := fun (session : NativeSession K) ↦ { session with
    windows := session.windows.map fun window ↦
      { window with layout := layouts (session.id, window.id) } }
  { st with sessions := st.sessions.map inSession }

variable [Scalar K]

/-- `state.rs:83–102`. -/
def setLayout (st : NativeMuxState K) (sessionId windowId : String) (layout : MuxPaneLayout K) :
    Except String (NativeMuxState K) := do
  let window ← context (st.window? sessionId windowId) "native window is unavailable"
  let layout ← context (PaneLayout.fromMuxLayout layout) "invalid native pane layout"
  let ids := window.panes.map (·.id)
  ensure (ids.length == layout.panes.length && ids.all layout.panes.contains)
    "layout does not match live panes"
  pure (st.modifyWindow sessionId windowId fun window ↦
    { window with layout := some layout.snapshot })

/-- The `ResizePanes` arm, `state.rs:892–907`. -/
def resizePanes (st : NativeMuxState K) (sessionId windowId : String)
    (layout : MuxPaneLayout K) : Except String (NativeMuxState K) := do
  let window ← context (st.window? sessionId windowId) "native window unavailable"
  let current ← context (window.layout.bind PaneLayout.fromMuxLayout) "native layout unavailable"
  let resized ← context (current.resize layout) "pane resize topology is stale"
  st.setLayout sessionId windowId resized.snapshot

/-- `state.rs:908–919`: change the topology, then lay every window out again. -/
def executeAndLayOut (host : Host) (st : NativeMuxState K) (command : MuxCommand K) :
    Except String (NativeMuxState K) := do
  let changed ← st.executeTopology host command
  let layouts ← updatedLayouts st.snapshot changed.snapshot command
  pure (changed.withLayouts layouts)

/-- `state.rs:891–920`, on a clone: the state after a successful command. -/
def execute (host : Host) (st : NativeMuxState K) (command : MuxCommand K) :
    Except String (NativeMuxState K) :=
  match command with
  | .resizePanes s w layout => st.resizePanes s w layout
  | command => st.executeAndLayOut host command

end NativeMuxState

/-- What the server does to a workspace's topology: a command, a proposed layout
(`Request::SetLayout`), or the directory of a respawned pane. -/
inductive TopologyOp (K : Type) where
  | execute (host : Host) (command : MuxCommand K)
  | setLayout (sessionId windowId : String) (layout : MuxPaneLayout K)
  | setPaneCwd (paneId cwd : String)

namespace NativeMuxState

variable [Scalar K]

/-- One operation on the topology. -/
def apply (st : NativeMuxState K) : TopologyOp K → Except String (NativeMuxState K)
  | .execute host command => st.execute host command
  | .setLayout s w layout => st.setLayout s w layout
  | .setPaneCwd pane cwd => st.setPaneCwd pane cwd

/-- A failed operation leaves the state before it in place. -/
def step (st : NativeMuxState K) (op : TopologyOp K) : NativeMuxState K :=
  match st.apply op with
  | .ok st' => st'
  | .error _ => st

/-- A run from a fresh server. -/
def run (generation : Nat) (ops : List (TopologyOp K)) : NativeMuxState K :=
  ops.foldl step (new generation)

@[simp] theorem run_nil (generation : Nat) :
    (run generation [] : NativeMuxState K) = new generation := rfl

@[simp] theorem run_append_singleton (generation : Nat) (ops : List (TopologyOp K))
    (op : TopologyOp K) : run generation (ops ++ [op]) = (run generation ops).step op :=
  List.foldl_append

end NativeMuxState
end Bootty.Mux.Native
