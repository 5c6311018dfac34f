import Bootty.Base.Fallible
import Bootty.Mux.Command
import Mathlib.Data.List.Nodup

/-!
# Saved terminal sessions

`SavedTerminalSession::validate`, `crates/bootty-mux/src/session_snapshot.rs:57–183`. The
hash sets are lists; only insertion of a fresh element and set equality are observed. The
history check lives in another crate and is a parameter.
-/

namespace Bootty.Mux

open Bootty.Base

/-- What the modelled code reads from its host: the shell environment of
`native/state.rs:634–646`, the checkout root of a directory
(`workspace/binding_session_names.rs:55–61`) and the history check of `bootty-control`. -/
structure Host where
  boottyShell : Option String := none
  shell : Option String := none
  sessionRoot : String → String := id
  validateHistory : String → Except String Unit

/-- A host without environment variables that accepts every history. -/
def Host.plain : Host := { validateHistory := fun _ ↦ .ok () }

/-- `MAX_SAVED_PANE_TEXT`. -/
def maxSavedPaneText : Nat := 256 * 1024

/-- `MAX_SAVED_SESSION_TEXT`. -/
def maxSavedSessionText : Nat := 8 * 1024 * 1024

/-- `char::is_control`: the general category Cc. -/
def isControl (c : Char) : Bool := c.val < 32 || (127 ≤ c.val && c.val < 160)

/-- `session_snapshot.rs:148–150`. -/
def metadata (value : String) (empty : Bool) : Bool :=
  (empty || value.utf8ByteSize != 0) && value.utf8ByteSize ≤ 4096 && !value.toList.any isControl

/-- `session_snapshot.rs:115–146`. -/
def validatePane (host : Host) (pane : SavedTerminalPane) : Except String Unit := do
  ensure (metadata pane.id false) "saved terminal pane has invalid logical id metadata"
  ensure (metadata pane.backendId false) "saved terminal pane has invalid backend id metadata"
  ensure (metadata pane.cwd false) "saved terminal pane has invalid cwd metadata"
  ensure (pane.cwd.startsWith "/") "saved terminal pane cwd is not an absolute path"
  ensure ((pane.cols == 0) == (pane.rows == 0))
    ("saved terminal pane has incomplete geometry (" ++ toString pane.cols ++ " cols, " ++
      toString pane.rows ++ " rows)")
  ensure (pane.text.utf8ByteSize ≤ maxSavedPaneText)
    ("saved terminal pane history exceeds its byte budget (" ++
      toString pane.text.utf8ByteSize ++ ")")
  (host.validateHistory pane.text).mapError ("saved terminal pane history: " ++ ·)

mutual

/-- `session_snapshot.rs:152–183`, threading the set of leaves seen. -/
def validateLayout {K : Type} [Scalar K] :
    MuxPaneLayout K → List String → Nat → Except String (List String)
  | .pane id, leaves, depth =>
    if depth > 32 then throw "saved terminal layout is too deep"
    else if leaves.contains id then throw "saved terminal layout repeats a pane"
    else pure (id :: leaves)
  | .split _ weights children, leaves, depth =>
    if depth > 32 then throw "saved terminal layout is too deep"
    else if children.length < 2 || weights.length != children.length ||
        weights.any (fun w ↦ !Scalar.isFinite w || decide (w ≤ Scalar.literal 0)) then
      throw "invalid saved terminal split weights"
    else validateLayouts children leaves (depth + 1)

/-- The loop over the children. -/
def validateLayouts {K : Type} [Scalar K] :
    List (MuxPaneLayout K) → List String → Nat → Except String (List String)
  | [], leaves, _ => pure leaves
  | child :: rest, leaves, depth =>
    match validateLayout child leaves depth with
    | .ok leaves => validateLayouts rest leaves depth
    | .error error => .error error

end

/-- The sets and the byte count that `validate` carries from window to window. -/
structure Seen where
  windowIds : List String := []
  paneIds : List String := []
  backendWindows : List String := []
  backendPanes : List String := []
  bytes : Nat := 0

/-- The pane loop of one window. -/
def validatePanes (host : Host) : List SavedTerminalPane → Seen → Except String Seen
  | [], seen => pure seen
  | pane :: rest, seen => do
    validatePane host pane
    ensure (!seen.paneIds.contains pane.id) "saved terminal pane repeats a logical id"
    ensure (!seen.backendPanes.contains pane.backendId) "saved terminal pane repeats a backend id"
    validatePanes host rest
      { seen with
        paneIds := pane.id :: seen.paneIds
        backendPanes := pane.backendId :: seen.backendPanes
        bytes := seen.bytes + pane.text.utf8ByteSize }

/-- Set equality of two id lists. -/
def sameIds (xs ys : List String) : Bool := xs.all ys.contains && ys.all xs.contains

variable {K : Type} [Scalar K]

/-- The leaves of a saved layout; a missing layout has none. -/
def savedLeaves : Option (MuxPaneLayout K) → Except String (List String)
  | some layout => validateLayout layout [] 0
  | none => pure []

/-- The body of the window loop, `session_snapshot.rs:74–104`. -/
def validateWindow (host : Host) (window : SavedTerminalWindow K) (seen : Seen) :
    Except String Seen := do
  ensure (metadata window.id false && metadata window.backendId false &&
      !seen.windowIds.contains window.id && !seen.backendWindows.contains window.backendId &&
      metadata window.title true && !window.panes.isEmpty && window.panes.length ≤ 32)
    "invalid saved terminal window"
  let leaves ← savedLeaves window.layout
  let seen ← validatePanes host window.panes
    { seen with
      windowIds := window.id :: seen.windowIds
      backendWindows := window.backendId :: seen.backendWindows }
  let current := window.panes.map (·.id)
  ensure (current.contains window.focusedPaneId &&
      (window.layout.isNone || sameIds leaves current))
    "saved terminal layout does not match its panes"
  pure seen

/-- The windows are checked one by one. -/
def validateWindows (host : Host) : List (SavedTerminalWindow K) → Seen → Except String Seen
  | [], seen => pure seen
  | window :: rest, seen => do
    let seen ← validateWindow host window seen
    validateWindows host rest seen

/-- `session_snapshot.rs:57–113`. -/
def SavedTerminalSession.validate (host : Host) (s : SavedTerminalSession K) :
    Except String Unit := do
  ensure (0 ≤ s.capturedAt && metadata s.sessionId false && metadata s.backendId false &&
      !s.windows.isEmpty && s.windows.length ≤ 32)
    "invalid saved terminal session"
  let seen ← validateWindows host s.windows {}
  ensure (seen.bytes ≤ maxSavedSessionText && s.activeWindowId.all seen.windowIds.contains)
    "saved terminal session exceeds its budget or has invalid focus"

/-! ### What validation establishes -/

variable {host : Host} {seen after : Seen}

/-- A window that passed has panes, and its focus is one of them. -/
theorem focused_of_validateWindow {window : SavedTerminalWindow K}
    (h : validateWindow host window seen = .ok after) :
    window.panes ≠ [] ∧ ∃ pane ∈ window.panes, pane.id = window.focusedPaneId := by
  simp only [validateWindow, bind_eq_ok, ensure_eq_ok, Bool.and_eq_true] at h
  obtain ⟨_, hfirst, leaves, -, seen', -, _, hlast, -⟩ := h
  constructor
  · rintro he
    simp [he] at hfirst
  · obtain ⟨pane, hp, he⟩ := List.mem_map.mp (List.contains_iff_mem.mp hlast.1)
    exact ⟨pane, hp, he⟩

variable {windows : List (SavedTerminalWindow K)}

private theorem focused_of_validateWindows (h : validateWindows host windows seen = .ok after) :
    ∀ window ∈ windows, window.panes ≠ [] ∧
      ∃ pane ∈ window.panes, pane.id = window.focusedPaneId := by
  induction windows generalizing seen with
  | nil => simp
  | cons w ws ih =>
    rw [validateWindows, bind_eq_ok] at h
    obtain ⟨mid, hw, hrest⟩ := h
    intro window hm
    rcases List.mem_cons.mp hm with rfl | hm
    · exact focused_of_validateWindow hw
    · exact ih hrest window hm

variable {s : SavedTerminalSession K}

/-- A session that passed has windows, each with panes and a live focus. -/
theorem SavedTerminalSession.windows_of_validate (h : s.validate host = .ok ()) :
    s.windows ≠ [] ∧ ∀ window ∈ s.windows, window.panes ≠ [] ∧
      ∃ pane ∈ window.panes, pane.id = window.focusedPaneId := by
  simp only [validate, bind_eq_ok, ensure_eq_ok, Bool.and_eq_true] at h
  obtain ⟨_, hfirst, seen, hwindows, -⟩ := h
  refine ⟨?_, focused_of_validateWindows hwindows⟩
  rintro he
  simp [he] at hfirst

/-! ### Ids that repeat -/

/-- The ids that have been seen are distinct. -/
structure Seen.Distinct (seen : Seen) : Prop where
  windowIds : seen.windowIds.Nodup
  paneIds : seen.paneIds.Nodup

/-- The panes of a window that passed are seen, and none of them for the second time. -/
theorem seen_of_validatePanes {panes : List SavedTerminalPane}
    (h : validatePanes host panes seen = .ok after) :
    after.windowIds = seen.windowIds ∧
      after.paneIds = (panes.map (·.id)).reverse ++ seen.paneIds ∧
        (seen.paneIds.Nodup → after.paneIds.Nodup) := by
  induction panes generalizing seen with
  | nil =>
    obtain rfl := pure_eq_ok.mp h
    exact ⟨rfl, rfl, id⟩
  | cons pane rest ih =>
    simp only [validatePanes, bind_eq_ok, ensure_eq_ok] at h
    obtain ⟨_, _, _, hnew, _, _, hrest⟩ := h
    obtain ⟨hwindows, hpanes, hnodup⟩ := ih hrest
    refine ⟨hwindows, ?_, ?_⟩
    · rw [hpanes, List.map_cons, List.reverse_cons, List.append_assoc]
      rfl
    · intro hseen
      apply hnodup
      apply List.nodup_cons.mpr
      exact ⟨by simpa using hnew, hseen⟩

/-- The windows that passed are seen, and none of them or of their panes for the second time. -/
theorem seen_of_validateWindows (h : validateWindows host windows seen = .ok after) :
    after.windowIds = (windows.map (·.id)).reverse ++ seen.windowIds ∧
      after.paneIds = ((windows.flatMap (·.panes)).map (·.id)).reverse ++ seen.paneIds ∧
        (seen.Distinct → after.Distinct) := by
  induction windows generalizing seen with
  | nil =>
    obtain rfl := pure_eq_ok.mp h
    exact ⟨rfl, rfl, id⟩
  | cons window rest ih =>
    rw [validateWindows, bind_eq_ok] at h
    obtain ⟨mid, hwindow, hrest⟩ := h
    simp only [validateWindow, bind_eq_ok, ensure_eq_ok, Bool.and_eq_true] at hwindow
    obtain ⟨_, hfirst, _, _, mid', hpanes, _, _, hmid⟩ := hwindow
    obtain rfl := pure_eq_ok.mp hmid
    obtain ⟨hids, hpaneIds, hnodup⟩ := seen_of_validatePanes hpanes
    obtain ⟨hafter, hafterPanes, hdistinct⟩ := ih hrest
    refine ⟨?_, ?_, ?_⟩
    · rw [hafter, hids, List.map_cons, List.reverse_cons, List.append_assoc]
      rfl
    · rw [hafterPanes, hpaneIds, List.flatMap_cons, List.map_append, List.reverse_append,
        List.append_assoc]
    · intro hseen
      apply hdistinct
      refine ⟨?_, hnodup hseen.paneIds⟩
      rw [hids]
      apply List.nodup_cons.mpr
      exact ⟨by simpa using hfirst.1.1.1.1.2, hseen.windowIds⟩

/-- A session that passed repeats no id of a window or a pane. -/
theorem SavedTerminalSession.ids_of_validate (h : s.validate host = .ok ()) :
    (s.windows.map (·.id)).Nodup ∧ ((s.windows.flatMap (·.panes)).map (·.id)).Nodup := by
  simp only [validate, bind_eq_ok] at h
  obtain ⟨_, _, seen, hwindows, _⟩ := h
  obtain ⟨hids, hpaneIds, hdistinct⟩ := seen_of_validateWindows hwindows
  have hseen := hdistinct ⟨List.nodup_nil, List.nodup_nil⟩
  rw [List.append_nil] at hids hpaneIds
  constructor
  · exact List.nodup_reverse.mp (hids ▸ hseen.windowIds)
  · exact List.nodup_reverse.mp (hpaneIds ▸ hseen.paneIds)

/-- The error for a pane that repeats an id. -/
def repeatedPane : String := "saved terminal pane repeats a logical id"

private theorem append_ne {front rest text : String}
    (h : text.toList.take front.toList.length ≠ front.toList) : front ++ rest ≠ text := by
  intro heq
  apply h
  rw [← heq, String.toList_append, List.take_left]

private theorem validatePane_ne (host : Host) (pane : SavedTerminalPane) :
    validatePane host pane ≠ .error repeatedPane := by
  unfold validatePane
  apply bind_ne_error (ensure_ne_error (by decide +kernel))
  intro _
  apply bind_ne_error (ensure_ne_error (by decide +kernel))
  intro _
  apply bind_ne_error (ensure_ne_error (by decide +kernel))
  intro _
  apply bind_ne_error (ensure_ne_error (by decide +kernel))
  intro _
  apply bind_ne_error
  · apply ensure_ne_error
    rw [String.append_assoc, String.append_assoc, String.append_assoc]
    exact append_ne (by decide +kernel)
  intro _
  apply bind_ne_error
  · apply ensure_ne_error
    rw [String.append_assoc]
    exact append_ne (by decide +kernel)
  intro _
  cases host.validateHistory pane.text with
  | ok _ => exact fun h ↦ nomatch h
  | error error =>
    intro h
    exact append_ne (by decide +kernel) (Except.error.inj h)

mutual

private theorem validateLayout_ne (layout : MuxPaneLayout K) (leaves : List String) (depth : Nat) :
    validateLayout layout leaves depth ≠ .error repeatedPane := by
  cases layout with
  | pane id =>
    unfold validateLayout
    split
    · exact fun h ↦ absurd (Except.error.inj h) (by decide +kernel)
    split
    · exact fun h ↦ absurd (Except.error.inj h) (by decide +kernel)
    · exact fun h ↦ nomatch h
  | split direction weights children =>
    unfold validateLayout
    split
    · exact fun h ↦ absurd (Except.error.inj h) (by decide +kernel)
    split
    · exact fun h ↦ absurd (Except.error.inj h) (by decide +kernel)
    · exact validateLayouts_ne children leaves (depth + 1)

private theorem validateLayouts_ne (children : List (MuxPaneLayout K)) (leaves : List String)
    (depth : Nat) : validateLayouts children leaves depth ≠ .error repeatedPane := by
  cases children with
  | nil => exact fun h ↦ nomatch h
  | cons child rest =>
    unfold validateLayouts
    split
    · next leaves' _ => exact validateLayouts_ne rest leaves' depth
    · next error herror =>
      intro h
      rw [Except.error.inj h] at herror
      exact validateLayout_ne child leaves depth herror

end

private theorem validatePanes_ne {panes : List SavedTerminalPane}
    (h : ((panes.map (·.id)).reverse ++ seen.paneIds).Nodup) :
    validatePanes host panes seen ≠ .error repeatedPane := by
  induction panes generalizing seen with
  | nil => exact fun h ↦ nomatch h
  | cons pane rest ih =>
    rw [List.map_cons, List.reverse_cons, List.append_assoc] at h
    have hnew : pane.id ∉ seen.paneIds := (List.nodup_cons.mp (List.nodup_append.mp h).2.1).1
    unfold validatePanes
    apply bind_ne_error (validatePane_ne host pane)
    intro _
    apply bind_ne_error
    · intro hrepeats
      have hseen := (ensure_eq_error.mp hrepeats).1
      exact hnew (by simpa using hseen)
    intro _
    apply bind_ne_error (ensure_ne_error (by decide +kernel))
    intro _
    exact ih h

private theorem validateWindow_ne {window : SavedTerminalWindow K}
    (h : ((window.panes.map (·.id)).reverse ++ seen.paneIds).Nodup) :
    validateWindow host window seen ≠ .error repeatedPane := by
  unfold validateWindow
  apply bind_ne_error (ensure_ne_error (by decide +kernel))
  intro _
  apply bind_ne_error
  · cases window.layout with
    | none => exact fun h ↦ nomatch h
    | some layout => exact validateLayout_ne layout [] 0
  intro leaves
  apply bind_ne_error
  · exact validatePanes_ne h
  intro _
  apply bind_ne_error (ensure_ne_error (by decide +kernel))
  intro _
  exact fun h ↦ nomatch h

private theorem validateWindows_ne
    (h : (((windows.flatMap (·.panes)).map (·.id)).reverse ++ seen.paneIds).Nodup) :
    validateWindows host windows seen ≠ .error repeatedPane := by
  induction windows generalizing seen with
  | nil => exact fun h ↦ nomatch h
  | cons window rest ih =>
    rw [List.flatMap_cons, List.map_append, List.reverse_append, List.append_assoc] at h
    intro herror
    rcases bind_eq_error.mp herror with hwindow | ⟨mid, hwindow, hrest⟩
    · exact validateWindow_ne (List.nodup_append.mp h).2.1 hwindow
    · have hseen : validateWindows host [window] seen = .ok mid := by
        rw [validateWindows, hwindow]
        rfl
      have ⟨_, hpanes, _⟩ := seen_of_validateWindows hseen
      rw [List.flatMap_singleton] at hpanes
      rw [← hpanes] at h
      exact ih h hrest

/-- A session whose panes have distinct ids is not refused for repeating one. -/
theorem SavedTerminalSession.validate_ne_repeatedPane
    (h : ((s.windows.flatMap (·.panes)).map (·.id)).Nodup) :
    s.validate host ≠ .error repeatedPane := by
  unfold validate
  apply bind_ne_error (ensure_ne_error (by decide +kernel))
  intro _
  apply bind_ne_error
  · apply validateWindows_ne
    rw [List.append_nil]
    exact List.nodup_reverse.mpr h
  intro _
  exact ensure_ne_error (by decide +kernel)

end Bootty.Mux
