import Bootty.Mux.PaneLayout

/-!
# Commands and snapshots

The data of `crates/bootty-mux/src/command.rs`, `snapshot.rs` and `session_snapshot.rs`.
Paths are UTF-8 strings; a saved pane's `omitted_lines` is read by no modelled function
and is left out.
-/

namespace Bootty.Mux

/-- `MuxDirection`. -/
inductive MuxDirection where
  | left
  | down
  | up
  | right
  deriving DecidableEq, Repr

/-- `MuxSplitDirection`. -/
inductive MuxSplitDirection where
  | right
  | down
  deriving DecidableEq, Repr

/-- Bootty's handle on a session, `snapshot.rs:27–40`. -/
structure MuxSessionTag where
  identity : Option String := none
  space : Option String := none
  deriving DecidableEq, Repr

/-- `is_empty`. -/
def MuxSessionTag.isEmpty (tag : MuxSessionTag) : Bool := tag.identity.isNone && tag.space.isNone

/-- `SavedTerminalPane`. -/
structure SavedTerminalPane where
  id : String
  backendId : String
  cwd : String
  cols : UInt16
  rows : UInt16
  text : String
  omittedLines : UInt64 := 0
  deriving DecidableEq, Repr

/-- `SavedTerminalWindow`. -/
structure SavedTerminalWindow (K : Type) where
  id : String
  backendId : String
  title : String
  focusedPaneId : String
  layout : Option (MuxPaneLayout K)
  panes : List SavedTerminalPane

/-- `SavedTerminalSession`. -/
structure SavedTerminalSession (K : Type) where
  capturedAt : Int
  sessionId : String
  backendId : String
  activeWindowId : Option String
  windows : List (SavedTerminalWindow K)

/-- `command.rs:20–159`. -/
inductive MuxCommand (K : Type) where
  | resizePanes (sessionId windowId : String) (layout : MuxPaneLayout K)
  | activatePane (sessionId windowId paneId : String)
  | activateWindow (sessionId windowId : String)
  | restoreSession (sessionId : String) (tag : MuxSessionTag) (snapshot : SavedTerminalSession K)
  | createPane (sessionId : String) (paneId : Option String) (direction : MuxSplitDirection)
      (cwd : Option String) (argv : List String)
  | newWindow (sessionId : String) (cwd : Option String) (argv : Option (List String))
  | renameWindow (sessionId windowId name : String)
  | activateNextWindow (sessionId : String)
  | activatePreviousWindow (sessionId : String)
  | activateLastWindow (sessionId : String)
  | activateWindowIndex (sessionId : String) (index : Nat)
  | moveWindow (sessionId : String) (windowId : Option String) (delta : Int)
  | moveWindowPreservingSelection (sessionId windowId : String) (delta : Int)
      (selectedWindowId : String)
  | splitPane (sessionId : String) (paneId : Option String) (direction : MuxSplitDirection)
  | mergeWindows (sessionId sourceWindowId targetWindowId : String)
  | swapPanes (sessionId sourcePaneId targetPaneId : String)
  | movePane (sessionId paneId targetPaneId : String) (direction : MuxDirection)
  | extractPane (sessionId paneId : String)
  | selectPane (sessionId : String) (windowId : Option String) (direction : MuxDirection)
  | selectNextPane (sessionId : String) (windowId : Option String)
  | selectPreviousPane (sessionId : String) (windowId : Option String)
  | killPane (sessionId : String) (paneId : Option String)
  | closePane (sessionId : String) (paneId : Option String)
  | createProjectSession (sessionId cwd : String) (tag : MuxSessionTag)
      (argv : Option (List String))
  | renameSession (sessionId name : String)
  | ditchSession (sessionId : String)
  | stampSession (sessionId : String) (tag : MuxSessionTag)

/-- `command.rs:178–210`. -/
def MuxCommand.sessionId {K : Type} : MuxCommand K → String
  | .resizePanes s _ _ | .activatePane s _ _ | .activateWindow s _ | .restoreSession s _ _
  | .createPane s _ _ _ _ | .newWindow s _ _ | .renameWindow s _ _ | .activateNextWindow s
  | .activatePreviousWindow s | .activateLastWindow s | .activateWindowIndex s _
  | .moveWindow s _ _ | .moveWindowPreservingSelection s _ _ _ | .mergeWindows s _ _
  | .swapPanes s _ _ | .movePane s _ _ _ | .extractPane s _ | .splitPane s _ _
  | .selectPane s _ _ | .selectNextPane s _ | .selectPreviousPane s _ | .killPane s _
  | .closePane s _ | .createProjectSession s _ _ _ | .renameSession s _ | .ditchSession s
  | .stampSession s _ => s

/-- `MuxPaneAnchor`. -/
structure MuxPaneAnchor where
  sessionId : String
  paneId : Option String
  panePid : Option Nat
  cwd : Option String
  process : Option String
  deriving DecidableEq, Repr

/-- `MuxWindow`. -/
structure MuxWindow (K : Type) where
  id : String
  index : Nat
  name : String
  active : Bool
  anchor : MuxPaneAnchor
  panes : List MuxPaneAnchor
  layout : Option (MuxPaneLayout K)

/-- `MuxSession`. -/
structure MuxSession (K : Type) where
  id : String
  name : String
  active : Bool
  anchor : MuxPaneAnchor
  activeWindowId : Option String
  windows : List (MuxWindow K)
  tag : MuxSessionTag

/-- `MuxSnapshot`. -/
structure MuxSnapshot (K : Type) where
  sessions : List (MuxSession K)
  activeSessionId : Option String

/-- `snapshot.rs:108–111`. -/
def sessionMatches {K : Type} (session : MuxSession K) (sessionId : String) : Bool :=
  session.id == sessionId || session.name == sessionId

/-- `snapshot.rs:137–142`; `None` for an empty list. -/
def wrapIndex (index : Nat) (delta : Int) (len : Nat) : Option Nat :=
  if len = 0 then none else some (((index : Int) + delta) % len).toNat

/-- `snapshot.rs:144–152`. -/
def clampMoveIndex (index : Nat) (delta : Int) (len : Nat) : Nat :=
  min (if delta < 0 then index - delta.natAbs else index + delta.natAbs) (len - 1)

end Bootty.Mux
