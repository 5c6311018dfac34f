import Bootty.Base.ListEdits
import Bootty.Mux.SessionSnapshot

/-!
# Native topology

Model of `crates/bootty-mux/src/native/state.rs`, up to the layout rewrite that `execute`
performs after each topology change (`Bootty.Mux.Native.Execute`). A `&mut self` method
returns the next state; a `Result` is an `Except` with the source's message. Counters are
naturals with the overflow checks of their machine widths.
-/

namespace Bootty.Mux.Native

open Bootty.Base Bootty.Terminal

/-- `NativePane`. -/
structure NativePane where
  id : String
  cwd : String
  deriving DecidableEq, Repr

/-- `NativeWindow`. -/
structure NativeWindow (K : Type) where
  id : String
  index : Nat
  name : String
  customName : Bool
  activePaneId : String
  panes : List NativePane
  layout : Option (MuxPaneLayout K)

/-- `NativeSession`. -/
structure NativeSession (K : Type) where
  nextWindow : Nat
  id : String
  name : String
  activeWindowId : String
  windows : List (NativeWindow K)
  tag : MuxSessionTag

/-- `NativeMuxState`. -/
structure NativeMuxState (K : Type) where
  activeSessionId : String
  sessions : List (NativeSession K)
  nextPane : Nat
  generation : Nat

/-- `u32::MAX`. -/
def u32Max : Nat := 2 ^ 32 - 1

/-- `u64::MAX`. -/
def u64Max : Nat := 2 ^ 64 - 1

/-- A 1-based index cut off at the largest `u32`. -/
def windowIndex (position : Nat) : Nat := min (position + 1) u32Max

/-- `{:016x}`. -/
def hex16 (n : Nat) : String :=
  let digits := Nat.toDigits 16 n
  String.ofList (List.replicate (16 - digits.length) '0' ++ digits)

/-- The id of a pane that is created. -/
def paneIdOf (generation n : Nat) : String := "pane-" ++ hex16 generation ++ "-" ++ n.repr

/-- The id of a window that is created. -/
def windowIdOf (n : Nat) : String := "tab-" ++ n.repr

/-- `Path::file_name` of a `/`-separated path. -/
def fileName (path : String) : Option String :=
  match (path.splitOn "/").reverse.dropWhile (fun part ↦ part == "" || part == ".") with
  | [] => none
  | last :: _ => if last = ".." then none else some last

/-- `state.rs:634–646`. -/
def defaultWindowName (host : Host) : String :=
  (((host.boottyShell <|> host.shell).bind fileName).filter (· != "")).getD "shell"

/-! ### Locations inside a session -/

section Session

variable {K : Type}

/-- `state.rs:853–865`: the first window that holds the pane. -/
def paneLocation (session : NativeSession K) (paneId : String) : Option (Nat × Nat) :=
  (session.windows.findIdx? (fun window ↦ window.panes.any (·.id == paneId))).bind fun w ↦
    (session.windows[w]?.bind fun window ↦ window.panes.findIdx? (·.id == paneId)).map (w, ·)

/-- `state.rs:831–851`. -/
def targetPaneLocation (session : NativeSession K) (paneId : Option String) :
    Except String (Nat × Nat) :=
  match paneId with
  | some paneId => context (paneLocation session paneId) "pane no longer exists in this session"
  | none => do
    let w ← context (session.windows.findIdx? (·.id == session.activeWindowId))
      "active window no longer exists"
    let window ← context session.windows[w]? "active window no longer exists"
    let p ← context (window.panes.findIdx? (·.id == window.activePaneId))
      "active pane no longer exists"
    pure (w, p)

/-- `state.rs:866–870`. -/
def renumberWindows (windows : List (NativeWindow K)) : List (NativeWindow K) :=
  windows.mapIdx fun position window ↦ { window with index := windowIndex position }

/-- `state.rs:622–632`: a closed tab's identity is never reused. -/
def nextWindowId (session : NativeSession K) : Except String (String × NativeSession K) := do
  ensure (session.nextWindow + 1 ≤ u64Max) "native window identities exhausted"
  pure (windowIdOf session.nextWindow, { session with nextWindow := session.nextWindow + 1 })

/-- The session part of `close_pane`, `state.rs:479–514`. `none` stands for the early return
that changes nothing. -/
def closePaneIn (session : NativeSession K) (paneId : Option String) (closeWindow : Bool) :
    Except String (Option (NativeSession K × Bool)) := do
  let (w, p) ← targetPaneLocation session paneId
  let window ← context session.windows[w]? "window no longer exists"
  if !closeWindow && window.panes.length ≤ 1 then pure none
  else
    let targetWasActive := window.id == session.activeWindowId
    let pane ← context window.panes[p]? "pane no longer exists"
    let panes := window.panes.eraseIdx p
    if panes.isEmpty then
      let windows := renumberWindows (session.windows.eraseIdx w)
      let next := (windows[min w (windows.length - 1)]?.map (·.id)).getD ""
      pure (some ({ session with
        windows
        activeWindowId := if targetWasActive then next else session.activeWindowId },
        targetWasActive))
    else
      let next := (panes[min p (panes.length - 1)]?.map (·.id)).getD window.activePaneId
      let window := { window with
        panes
        activePaneId := if pane.id == window.activePaneId then next else window.activePaneId }
      pure (some ({ session with windows := session.windows.set w window }, targetWasActive))

/-- The session part of `merge_windows`, `state.rs:650–677`. -/
def mergeWindowsIn (session : NativeSession K) (source target : String) :
    Except String (NativeSession K) := do
  let s ← context (session.windows.findIdx? (·.id == source)) "source tab no longer exists"
  ensure (source != target) "a tab cannot be merged into itself"
  let t ← context (session.windows.findIdx? (·.id == target)) "target tab no longer exists"
  let sourceWindow ← context session.windows[s]? "tabs must be distinct and live"
  let targetWindow ← context session.windows[t]? "tabs must be distinct and live"
  ensure (s != t) "tabs must be distinct and live"
  let merged := { targetWindow with
    panes := targetWindow.panes ++ sourceWindow.panes
    activePaneId := sourceWindow.activePaneId }
  pure { session with
    activeWindowId := targetWindow.id
    windows := renumberWindows ((session.windows.set t merged).eraseIdx s) }

/-- The session part of `swap_panes`, `state.rs:680–727`. -/
def swapPanesIn (session : NativeSession K) (source target : String) :
    Except String (NativeSession K) := do
  let (sw, sp) ← context (paneLocation session source) "source pane no longer exists"
  let (tw, tp) ← context (paneLocation session target) "target pane no longer exists"
  ensure (source != target) "a pane cannot be swapped with itself"
  if sw = tw then
    let window ← context session.windows[sw]? "window no longer exists"
    let sourcePane ← context window.panes[sp]? "panes must be distinct and live"
    let targetPane ← context window.panes[tp]? "panes must be distinct and live"
    let panes := (window.panes.set sp targetPane).set tp sourcePane
    pure { session with
      activeWindowId := window.id
      windows := session.windows.set sw { window with panes, activePaneId := source } }
  else
    let sourceWindow ← context session.windows[sw]? "windows no longer exist"
    let targetWindow ← context session.windows[tw]? "windows no longer exist"
    let sourcePane ← context sourceWindow.panes[sp]? "source pane no longer exists"
    let targetPane ← context targetWindow.panes[tp]? "target pane no longer exists"
    let sourceWindow := { sourceWindow with
      panes := sourceWindow.panes.set sp targetPane
      activePaneId :=
        if sourceWindow.activePaneId = source then target else sourceWindow.activePaneId }
    let targetWindow := { targetWindow with
      panes := targetWindow.panes.set tp sourcePane
      activePaneId := source }
    pure { session with
      activeWindowId := targetWindow.id
      windows := (session.windows.set sw sourceWindow).set tw targetWindow }

/-- Take a pane out of its window; a removed focus moves to the window's first pane,
`state.rs:757–763,802–811`. -/
def takePane (window : NativeWindow K) (paneId : String) (position : Nat) : NativeWindow K :=
  let panes := window.panes.eraseIdx position
  { window with
    panes
    activePaneId :=
      if window.activePaneId = paneId then (panes.head?.map (·.id)).getD window.activePaneId
      else window.activePaneId }

/-- The session part of `move_pane`, `state.rs:737–780`. -/
def movePaneIn (session : NativeSession K) (source target : String) (direction : MuxDirection) :
    Except String (NativeSession K) := do
  let (sw, sp) ← context (paneLocation session source) "source pane no longer exists"
  let (tw, _) ← context (paneLocation session target) "target pane no longer exists"
  ensure (source != target) "a pane cannot be moved beside itself"
  let targetWindow ← context session.windows[tw]? "target window no longer exists"
  let old ← context session.windows[sw]? "source window no longer exists"
  let pane ← context old.panes[sp]? "source pane no longer exists"
  let windows := (session.windows.set sw (takePane old source sp)).filter (!·.panes.isEmpty)
  let d ← context (windows.findIdx? (·.id == targetWindow.id)) "target window no longer exists"
  let destination ← context windows[d]? "target window no longer exists"
  let position ← context (destination.panes.findIdx? (·.id == target))
    "target pane no longer exists"
  let after := if direction = .right ∨ direction = .down then 1 else 0
  let destination := { destination with
    panes := destination.panes.insertIdx (position + after) pane
    activePaneId := source }
  pure { session with
    activeWindowId := targetWindow.id
    windows := renumberWindows (windows.set d destination) }

/-- The session part of `extract_pane`, `state.rs:785–826`. -/
def extractPaneIn (session : NativeSession K) (paneId : String) :
    Except String (NativeSession K) := do
  let (w, p) ← context (paneLocation session paneId) "pane no longer exists"
  let source ← context session.windows[w]? "window no longer exists"
  ensure (2 ≤ source.panes.length) "this pane already has its own tab"
  let (windowId, session) ← nextWindowId session
  let pane ← context source.panes[p]? "pane no longer exists"
  let extracted : NativeWindow K :=
    { id := windowId, index := 0, name := source.name, customName := false
      activePaneId := paneId, panes := [pane], layout := none }
  let windows := (session.windows.set w (takePane source paneId p)).insertIdx (w + 1) extracted
  pure { session with activeWindowId := windowId, windows := renumberWindows windows }

/-- The session part of `move_window`, `state.rs:344–363`. -/
def moveWindowIn (session : NativeSession K) (windowId : Option String) (delta : Int) :
    NativeSession K :=
  let target := windowId.getD session.activeWindowId
  match session.windows.findIdx? (·.id == target) with
  | none => session
  | some index =>
    match session.windows[index]? with
    | none => session
    | some window =>
      let next := clampMoveIndex index delta session.windows.length
      { session with
        activeWindowId := target
        windows := renumberWindows ((session.windows.eraseIdx index).insertIdx next window) }

/-- The directory a new tab starts in unless the command names one, `state.rs:294–301`. -/
def inheritedCwd (session : NativeSession K) : String :=
  ((session.windows.find? (·.id == session.activeWindowId)).bind (·.panes.head?)).elim "." (·.cwd)

/-- The session part of `new_window`, `state.rs:292–320`. -/
def newWindowIn (host : Host) (session : NativeSession K) (paneId : String)
    (cwd : Option String) : Except String (NativeSession K) := do
  let inherited := inheritedCwd session
  ensure (session.windows.length + 1 ≤ u32Max) "native window capacity exhausted"
  let (windowId, session) ← nextWindowId session
  let window : NativeWindow K :=
    { id := windowId, index := session.windows.length + 1, name := defaultWindowName host
      customName := false, activePaneId := paneId
      panes := [⟨paneId, cwd.getD inherited⟩], layout := none }
  pure { session with activeWindowId := windowId, windows := session.windows ++ [window] }

end Session

/-! ### The state -/

namespace NativeMuxState

variable {K : Type}

/-- `state.rs:103–110`. -/
def new (generation : Nat) : NativeMuxState K := ⟨"", [], 1, generation⟩

/-- `active_session_mut`, read side. -/
def session? (st : NativeMuxState K) (sessionId : String) : Option (NativeSession K) :=
  st.sessions.find? (·.id == sessionId)

/-- Write back through `active_session_mut`. -/
def modifySession (st : NativeMuxState K) (sessionId : String)
    (f : NativeSession K → NativeSession K) : NativeMuxState K :=
  { st with sessions := modifyFirst (·.id == sessionId) f st.sessions }

/-- `window_mut`, read side. -/
def window? (st : NativeMuxState K) (sessionId windowId : String) : Option (NativeWindow K) :=
  (st.session? sessionId).bind fun session ↦ session.windows.find? (·.id == windowId)

/-- Write back through `window_mut`. -/
def modifyWindow (st : NativeMuxState K) (sessionId windowId : String)
    (f : NativeWindow K → NativeWindow K) : NativeMuxState K :=
  st.modifySession sessionId fun session ↦
    { session with windows := modifyFirst (·.id == windowId) f session.windows }

/-- Select a session. -/
def withActive (st : NativeMuxState K) (sessionId : String) : NativeMuxState K :=
  { st with activeSessionId := sessionId }

/-- `state.rs:591–598`. -/
def nextPaneId (st : NativeMuxState K) : Except String (String × NativeMuxState K) := do
  ensure (st.nextPane + 1 ≤ u64Max) "native pane identities exhausted"
  pure (paneIdOf st.generation st.nextPane, { st with nextPane := st.nextPane + 1 })

/-- `state.rs:55–68`. -/
def sourcePaneId (st : NativeMuxState K) (sessionId : String) (pane : Option String) :
    Except String String := do
  let session ← context (st.session? sessionId) "session no longer exists"
  let (w, p) ← targetPaneLocation session pane
  context ((session.windows[w]?.bind (·.panes[p]?)).map (·.id)) "source pane no longer exists"

/-- Overwrite the directory of the first pane with this id. -/
def setCwdOf (paneId cwd : String) (st : NativeMuxState K) : NativeMuxState K :=
  let inPane := modifyFirst (fun pane : NativePane ↦ pane.id == paneId)
    (fun pane ↦ { pane with cwd := cwd })
  let inWindow := modifyFirst (fun window : NativeWindow K ↦ window.panes.any (·.id == paneId))
    (fun window ↦ { window with panes := inPane window.panes })
  { st with
    sessions := modifyFirst (·.windows.any (·.panes.any (·.id == paneId)))
      (fun session ↦ { session with windows := inWindow session.windows }) st.sessions }

/-- `state.rs:70–81`. -/
def setPaneCwd (st : NativeMuxState K) (paneId cwd : String) :
    Except String (NativeMuxState K) := do
  ensure (st.sessions.any (·.windows.any (·.panes.any (·.id == paneId)))) "native pane unavailable"
  pure (st.setCwdOf paneId cwd)

/-- `state.rs:112–151`. -/
def ensureSession (host : Host) (st : NativeMuxState K) (sessionId cwd : String)
    (tag : MuxSessionTag) : Except String (NativeMuxState K) :=
  match st.session? sessionId with
  | some _ =>
    .ok ((st.modifySession sessionId fun session ↦
      if tag.isEmpty then session else { session with tag := tag }).withActive sessionId)
  | none => do
    let (paneId, st) ← st.nextPaneId
    let window : NativeWindow K :=
      { id := "tab-1", index := 1, name := defaultWindowName host, customName := false
        activePaneId := paneId, panes := [⟨paneId, cwd⟩], layout := none }
    let session : NativeSession K :=
      { nextWindow := 2, id := sessionId, name := sessionId, activeWindowId := window.id
        windows := [window], tag := tag }
    pure ({ st with sessions := st.sessions ++ [session] }.withActive sessionId)

/-- What the pane loop of `restore_session` has built so far. -/
structure RestoredPanes where
  panes : List NativePane := []
  mapping : List (String × String) := []
  activePaneId : String := ""

/-- The pane loop of `restore_session`, `state.rs:180–190`. -/
def restorePanes (focused : String) :
    List SavedTerminalPane → RestoredPanes → NativeMuxState K →
      Except String (RestoredPanes × NativeMuxState K)
  | [], built, st => pure (built, st)
  | saved :: rest, built, st => do
    let (id, st) ← st.nextPaneId
    restorePanes focused rest
      { panes := built.panes ++ [⟨id, saved.cwd⟩]
        mapping := (saved.id, id) :: built.mapping
        activePaneId := if saved.id = focused then id else built.activePaneId }
      st

mutual

/-- `state.rs:1084–1109`; the newest binding of a saved id is the one the map holds. -/
def remapLayout (mapping : List (String × String)) :
    MuxPaneLayout K → Except String (MuxPaneLayout K)
  | .pane id =>
    match mapping.lookup id with
    | some id => .ok (.pane id)
    | none => .error "saved layout pane missing"
  | .split direction weights children =>
    match remapLayouts mapping children with
    | .ok children => .ok (.split direction weights children)
    | .error error => .error error

/-- `remap_layout` over a child list. -/
def remapLayouts (mapping : List (String × String)) :
    List (MuxPaneLayout K) → Except String (List (MuxPaneLayout K))
  | [] => .ok []
  | child :: rest =>
    match remapLayout mapping child with
    | .error error => .error error
    | .ok child =>
      match remapLayouts mapping rest with
      | .error error => .error error
      | .ok rest => .ok (child :: rest)

end

/-- `.map(remap_layout).transpose()?`. -/
def remapSaved (mapping : List (String × String)) :
    Option (MuxPaneLayout K) → Except String (Option (MuxPaneLayout K))
  | none => .ok none
  | some layout => (remapLayout mapping layout).map some

/-- What the window loop of `restore_session` has built so far. -/
structure RestoredWindows (K : Type) where
  windows : List (NativeWindow K) := []
  activeWindowId : String := ""

/-- The window loop of `restore_session`, `state.rs:175–208`. -/
def restoreWindows (activeWindow : Option String) :
    List (SavedTerminalWindow K) → Nat → RestoredWindows K → NativeMuxState K →
      Except String (RestoredWindows K × NativeMuxState K)
  | [], _, built, st => pure (built, st)
  | saved :: rest, position, built, st => do
    let windowId := windowIdOf (position + 1)
    let (panes, st) ← restorePanes saved.focusedPaneId saved.panes {} st
    let activeWindowId :=
      if activeWindow = some saved.id ∨ (built.activeWindowId = "" ∧ position = 0) then windowId
      else built.activeWindowId
    ensure (position + 1 ≤ u32Max) "out of range integral type conversion attempted"
    let layout ← remapSaved panes.mapping saved.layout
    let window : NativeWindow K :=
      { id := windowId, index := position + 1, name := saved.title, customName := true
        activePaneId := panes.activePaneId, panes := panes.panes, layout := layout }
    restoreWindows activeWindow rest (position + 1)
      { windows := built.windows ++ [window], activeWindowId := activeWindowId } st

/-- `state.rs:153–223`. -/
def restoreSession [Scalar K] (host : Host) (st : NativeMuxState K) (id : String)
    (tag : MuxSessionTag) (snapshot : SavedTerminalSession K) :
    Except String (NativeMuxState K) := do
  snapshot.validate host
  ensure (tag.identity == some snapshot.sessionId && tag.space.isSome)
    "restored identity does not match its checkpoint"
  ensure (!st.sessions.any fun session ↦ session.id == id || session.name == id ||
      (tag.identity.isSome && session.tag.identity == tag.identity &&
        session.tag.space == tag.space))
    "restored session already exists"
  let (built, st) ← restoreWindows snapshot.activeWindowId snapshot.windows 0 {} st
  ensure (built.windows.length + 1 ≤ u64Max) "native window capacity exhausted"
  let session : NativeSession K :=
    { nextWindow := built.windows.length + 1, id := id, name := id
      activeWindowId := built.activeWindowId, windows := built.windows, tag := tag }
  pure ({ st with sessions := st.sessions ++ [session] }.withActive id)

/-- `state.rs:225–233`. -/
def stampSession (st : NativeMuxState K) (sessionId : String) (tag : MuxSessionTag) :
    NativeMuxState K :=
  st.modifySession sessionId fun session ↦ { session with tag := tag }

/-- `state.rs:235–246`. -/
def activateWindow (st : NativeMuxState K) (sessionId windowId : String) : NativeMuxState K :=
  match st.session? sessionId with
  | none => st
  | some session =>
    if session.windows.any (·.id == windowId) then
      (st.modifySession sessionId fun session ↦
        { session with activeWindowId := windowId }).withActive sessionId
    else st

/-- `state.rs:247–256`. -/
def renameWindow (host : Host) (st : NativeMuxState K) (sessionId windowId name : String) :
    NativeMuxState K :=
  st.modifyWindow sessionId windowId fun window ↦
    { window with
      customName := name != ""
      name := if name = "" then defaultWindowName host else name }

/-- `state.rs:257–265`. -/
def renameSession (st : NativeMuxState K) (sessionId name : String) : NativeMuxState K :=
  st.modifySession sessionId fun session ↦ { session with name := name }

/-- `state.rs:267–275`. -/
def killSession (st : NativeMuxState K) (sessionId : String) : NativeMuxState K :=
  let sessions := st.sessions.filter (·.id != sessionId)
  { st with
    sessions
    activeSessionId :=
      if st.activeSessionId = sessionId then (sessions.head?.map (·.id)).getD ""
      else st.activeSessionId }

/-- `state.rs:290–323`. The pane identity is spent even when the session is missing. -/
def newWindow (host : Host) (st : NativeMuxState K) (sessionId : String) (cwd : Option String) :
    Except String (NativeMuxState K) := do
  let (paneId, st) ← st.nextPaneId
  match st.session? sessionId with
  | none => pure st
  | some session =>
    let session ← newWindowIn host session paneId cwd
    pure ((st.modifySession sessionId fun _ ↦ session).withActive sessionId)

/-- `state.rs:325–340`. -/
def activateRelativeWindow (st : NativeMuxState K) (sessionId : String) (delta : Int) :
    NativeMuxState K :=
  match st.session? sessionId with
  | none => st
  | some session =>
    match session.windows.findIdx? (·.id == session.activeWindowId) with
    | none => st
    | some index =>
      match (wrapIndex index delta session.windows.length).bind (session.windows[·]?) with
      | none => st
      | some next =>
        (st.modifySession sessionId fun session ↦
          { session with activeWindowId := next.id }).withActive sessionId

/-- `state.rs:342–349`. -/
def activateWindowIndex (st : NativeMuxState K) (sessionId : String) (index : Nat) :
    NativeMuxState K :=
  match st.session? sessionId with
  | none => st
  | some session =>
    match session.windows.find? (·.index == index) with
    | none => st
    | some window =>
      (st.modifySession sessionId fun session ↦
        { session with activeWindowId := window.id }).withActive sessionId

/-- `move_window`. -/
def moveWindow (st : NativeMuxState K) (sessionId : String) (windowId : Option String)
    (delta : Int) : NativeMuxState K :=
  st.modifySession sessionId fun session ↦ moveWindowIn session windowId delta

/-- `move_window_preserving_selection`. -/
def moveWindowPreservingSelection (st : NativeMuxState K) (sessionId windowId : String)
    (delta : Int) (selectedWindowId : String) : NativeMuxState K :=
  (st.moveWindow sessionId (some windowId) delta).activateWindow sessionId selectedWindowId

/-- `state.rs:366–370`, read side. -/
def activeWindow? (st : NativeMuxState K) (sessionId : String) : Option (NativeWindow K) :=
  (st.session? sessionId).bind fun session ↦
    session.windows.find? (·.id == session.activeWindowId)

/-- Write back through `active_window_mut`. -/
def modifyActiveWindow (st : NativeMuxState K) (sessionId : String)
    (f : NativeWindow K → NativeWindow K) : NativeMuxState K :=
  st.modifySession sessionId fun session ↦
    { session with windows := modifyFirst (·.id == session.activeWindowId) f session.windows }

/-- `state.rs:372–400`. -/
def splitPane (st : NativeMuxState K) (sessionId : String) (source : Option String) :
    Except String (NativeMuxState K) := do
  let session ← context (st.session? sessionId) "session no longer exists"
  let (w, p) ← targetPaneLocation session source
  let window ← context session.windows[w]? "window no longer exists"
  let pane ← context window.panes[p]? "pane no longer exists"
  let (paneId, st) ← st.nextPaneId
  let _ ← context (st.window? sessionId window.id) "window no longer exists"
  let st := st.modifyWindow sessionId window.id fun window ↦
    { window with activePaneId := paneId, panes := window.panes ++ [⟨paneId, pane.cwd⟩] }
  pure (st.activateWindow sessionId window.id)

/-- The tail of `CreatePane`, `state.rs:1013–1022`. -/
def setCreatedCwd (st : NativeMuxState K) (sessionId : String) (cwd : Option String) :
    Except String (NativeMuxState K) :=
  match cwd with
  | none => .ok st
  | some cwd => do
    let window ← context (st.activeWindow? sessionId) "created pane window is unavailable"
    let _ ← context window.panes.getLast? "created pane is unavailable"
    let last := fun (panes : List NativePane) ↦
      panes.modify (panes.length - 1) (fun pane ↦ { pane with cwd := cwd })
    pure (st.modifyActiveWindow sessionId fun window ↦
      { window with panes := last window.panes })

/-- `state.rs:402–417`. -/
def selectRelativePane (st : NativeMuxState K) (sessionId : String) (delta : Int) :
    NativeMuxState K :=
  match st.activeWindow? sessionId with
  | none => st
  | some window =>
    match window.panes.findIdx? (·.id == window.activePaneId) with
    | none => st
    | some index =>
      match (wrapIndex index delta window.panes.length).bind (window.panes[·]?) with
      | none => st
      | some next =>
        (st.modifyActiveWindow sessionId fun window ↦
          { window with activePaneId := next.id }).withActive sessionId

/-- An optional `activate_window` before a selection. -/
def activateGiven (st : NativeMuxState K) (sessionId : String) (windowId : Option String) :
    NativeMuxState K :=
  match windowId with
  | some windowId => st.activateWindow sessionId windowId
  | none => st

/-- `state.rs:419–424`. -/
def selectPane (st : NativeMuxState K) (sessionId : String) (windowId : Option String)
    (delta : Int) : NativeMuxState K :=
  (st.activateGiven sessionId windowId).selectRelativePane sessionId delta

/-- `state.rs:436–441`, and `native/layout.rs:116–121`. -/
def layoutDirection : MuxDirection → Direction
  | .left => .left
  | .right => .right
  | .up => .up
  | .down => .down

/-- `state.rs:426–456`. -/
def selectDirectionalPane [Scalar K] (st : NativeMuxState K) (sessionId : String)
    (windowId : Option String) (direction : MuxDirection) : NativeMuxState K :=
  let st := st.activateGiven sessionId windowId
  match st.activeWindow? sessionId with
  | none => st
  | some window =>
    match window.layout.bind PaneLayout.fromMuxLayout with
    | none => st
    | some layout =>
      let unit : SurfaceRect K := .fromMinSize (Scalar.literal 0) (Scalar.literal 0)
        (Scalar.literal 1) (Scalar.literal 1)
      match layout.neighbor window.activePaneId (layoutDirection direction) unit
          (Scalar.literal 0) with
      | none => st
      | some neighbor =>
        (st.modifyActiveWindow sessionId fun window ↦
          { window with activePaneId := neighbor }).withActive sessionId

/-- `state.rs:471–527`. -/
def closePane (st : NativeMuxState K) (sessionId : String) (paneId : Option String)
    (closeWindow : Bool) : Except String (NativeMuxState K) := do
  let session ← context (st.session? sessionId) "session no longer exists"
  let closed ← closePaneIn session paneId closeWindow
  match closed with
  | none => pure st
  | some (session, targetWasActive) =>
    let st := st.modifySession sessionId fun _ ↦ session
    if st.sessions.any (fun session ↦ session.id == sessionId && session.windows.isEmpty) then
      pure (st.killSession sessionId)
    else if targetWasActive then pure (st.withActive sessionId)
    else pure st

/-- Run a session edit that ends by selecting the session. -/
def editSession (st : NativeMuxState K) (sessionId : String)
    (edit : NativeSession K → Except String (NativeSession K)) :
    Except String (NativeMuxState K) := do
  let session ← context (st.session? sessionId) "session no longer exists"
  let session ← edit session
  pure ((st.modifySession sessionId fun _ ↦ session).withActive sessionId)

/-- `merge_windows`. -/
def mergeWindows (st : NativeMuxState K) (sessionId source target : String) :
    Except String (NativeMuxState K) :=
  st.editSession sessionId (mergeWindowsIn · source target)

/-- `swap_panes`. -/
def swapPanes (st : NativeMuxState K) (sessionId source target : String) :
    Except String (NativeMuxState K) :=
  st.editSession sessionId (swapPanesIn · source target)

/-- `move_pane`. -/
def movePane (st : NativeMuxState K) (sessionId source target : String)
    (direction : MuxDirection) : Except String (NativeMuxState K) :=
  st.editSession sessionId (movePaneIn · source target direction)

/-- `extract_pane`. -/
def extractPane (st : NativeMuxState K) (sessionId paneId : String) :
    Except String (NativeMuxState K) :=
  st.editSession sessionId (extractPaneIn · paneId)

/-- `state.rs:872–889`; unlike every other command the session may be named. -/
def activatePane (st : NativeMuxState K) (sessionId windowId paneId : String) :
    Except String (NativeMuxState K) := do
  let named := fun (session : NativeSession K) ↦ session.id == sessionId || session.name == sessionId
  let session ← context (st.sessions.find? named) "native pane session is unavailable"
  let holds := fun (window : NativeWindow K) ↦
    window.id == windowId && window.panes.any (·.id == paneId)
  let _ ← context (session.windows.find? holds) "native pane window is unavailable"
  let focus := modifyFirst holds (fun window ↦ { window with activePaneId := paneId })
  let st := { st with
    sessions := modifyFirst named
      (fun session ↦ { session with windows := focus session.windows }) st.sessions }
  pure (st.activateWindow session.id windowId)

/-- `state.rs:922–1082`. -/
def executeTopology [Scalar K] (host : Host) (st : NativeMuxState K) :
    MuxCommand K → Except String (NativeMuxState K)
  | .activatePane s w p => st.activatePane s w p
  | .activateWindow s w => .ok (st.activateWindow s w)
  | .newWindow s cwd _ => st.newWindow host s cwd
  | .renameWindow s w name => .ok (st.renameWindow host s w name)
  | .activateNextWindow s => .ok (st.activateRelativeWindow s 1)
  | .activatePreviousWindow s => .ok (st.activateRelativeWindow s (-1))
  | .activateLastWindow s => .ok (st.activateRelativeWindow s (-1))
  | .activateWindowIndex s index => .ok (st.activateWindowIndex s index)
  | .moveWindow s w delta => .ok (st.moveWindow s w delta)
  | .moveWindowPreservingSelection s w delta selected =>
    .ok (st.moveWindowPreservingSelection s w delta selected)
  | .createProjectSession s cwd tag argv => do
    ensure (argv.isNone || !st.sessions.any fun session ↦ session.id == s || session.name == s)
      ("duplicate session: " ++ s)
    st.ensureSession host s cwd tag
  | .restoreSession s tag snapshot => st.restoreSession host s tag snapshot
  | .renameSession s name => .ok (st.renameSession s name)
  | .ditchSession s => .ok (st.killSession s)
  | .stampSession s tag => .ok (st.stampSession s tag)
  | .splitPane s pane _ => st.splitPane s pane
  | .createPane s pane _ cwd _ => do
    let st ← st.splitPane s pane
    st.setCreatedCwd s cwd
  | .mergeWindows s source target => st.mergeWindows s source target
  | .swapPanes s source target => st.swapPanes s source target
  | .movePane s pane target direction => st.movePane s pane target direction
  | .extractPane s pane => st.extractPane s pane
  | .selectPane s w direction => .ok (st.selectDirectionalPane s w direction)
  | .selectNextPane s w => .ok (st.selectPane s w 1)
  | .selectPreviousPane s w => .ok (st.selectPane s w (-1))
  | .killPane s pane => st.closePane s pane false
  | .closePane s pane => st.closePane s pane true
  | .resizePanes _ _ _ => .error "command is not a pane operation"

end NativeMuxState
end Bootty.Mux.Native
