import Bootty.Base.FreshName
import Bootty.Base.KeptKeys
import Bootty.Mux.Checkpoint
import Bootty.Mux.Native.State
import Bootty.Mux.PaneLayout

/-!
# Keys of a checkpoint

Model of `crates/bootty-mux/src/workspace/session_snapshots.rs:111–160`, `197–395` and `611–643`:
the windows and the panes of a checkpoint get keys that outlive the backend's ids. A mapping of
restored sessions is a hash map and is modelled by its entries. Histories of restored panes and
the fence of a prepared checkpoint are left out.
-/

namespace Bootty.Mux

open Bootty.Base

variable {K : Type}

/-- The saved keys that a restoration gave to windows and panes, with their ids. -/
structure RestoredSessionMapping where
  generation : Nat
  windows : List (String × String)
  panes : List (String × String)
  windows_nodup : (windows.map (·.1)).Nodup
  panes_nodup : (panes.map (·.1)).Nodup

/-- The part of a binding that a checkpoint is made of. -/
structure CheckpointBinding (K : Type) extends BindingRuntime K where
  bindingGeneration : Nat
  restoredSessions : String → Option RestoredSessionMapping
  /-- The layouts of windows by session and window. -/
  paneLayouts : String → String → Option (PaneLayout K)

/-! ### Keys -/

/-- The names that `session_snapshots.rs:637–641` tries. -/
def savedName (actual : String) : Nat → String
  | 0 => actual
  | suffix + 1 => actual ++ "-saved-" ++ toString (suffix + 1)

/-- The loop of `session_snapshots.rs:637–642`. -/
def unusedFrom (actual : String) (reserved : List String) : (tries suffix : Nat) → String
  | 0, suffix => savedName actual suffix
  | tries + 1, suffix =>
    if savedName actual suffix ∉ reserved then savedName actual suffix
    else unusedFrom actual reserved tries (suffix + 1)

/-- `session_snapshots.rs:632–643`. -/
def unusedSavedKey (actual : String) (reserved : List String) : String :=
  unusedFrom actual reserved (reserved.dedup.length + 1) 0

/-- The panes that a checkpoint of a window lists, `session_snapshots.rs:340–344`. -/
def MuxWindow.anchors (window : MuxWindow K) : List MuxPaneAnchor :=
  if window.panes.isEmpty then [window.anchor] else window.panes

namespace SavedTerminalSession

/-- The keys and ids of the windows. -/
def windowKeys (snapshot : SavedTerminalSession K) : List (String × String) :=
  snapshot.windows.map fun window ↦ (window.id, window.backendId)

/-- The keys and ids of the panes. -/
def paneKeys (snapshot : SavedTerminalSession K) : List (String × String) :=
  (snapshot.windows.flatMap (·.panes)).map fun pane ↦ (pane.id, pane.backendId)

end SavedTerminalSession

namespace CheckpointBinding

variable (b : CheckpointBinding K) (identity : String)

/-- The mapping of a restoration in this generation. -/
def restored : Option RestoredSessionMapping :=
  (b.restoredSessions identity).filter (·.generation == b.bindingGeneration)

/-- The live checkpoint. -/
def saved : Option (SavedTerminalSession K) := (b.sessions.get identity).bind (·.terminalSnapshot)

/-- The keys of windows that a restoration in this generation gave. -/
def restoredWindows : List (String × String) := ((b.restored identity).map (·.windows)).getD []

/-- The restored panes, saved and live. -/
def restoredPanes : List (String × String) := ((b.restored identity).map (·.panes)).getD []

/-- The keys of the saved windows. -/
def savedWindows : List (String × String) := ((b.saved identity).map (·.windowKeys)).getD []

/-- The keys of the saved panes. -/
def savedPanes : List (String × String) := ((b.saved identity).map (·.paneKeys)).getD []

/-- The windows that are attached. -/
def attachedWindows : List (MuxWindow K) :=
  ((b.sessionAttachment identity).map (·.windows)).getD []

/-- What a new key of a window must differ from, `session_snapshots.rs:249–269`. -/
def reservedWindowKeys (actual : String) : List String :=
  (b.savedWindows identity).map (·.1) ++
    ((b.restoredSessions identity).map fun mapping ↦ mapping.windows.map (·.1)).getD [] ++
      ((b.attachedWindows identity).map (·.id)).filter (· != actual)

/-- What a new key of a pane must differ from, `session_snapshots.rs:303–324`. -/
def reservedPaneKeys (actual : String) : List String :=
  (b.savedPanes identity).map (·.1) ++
    ((b.restoredSessions identity).map fun mapping ↦ mapping.panes.map (·.1)).getD [] ++
      (((b.attachedWindows identity).flatMap (·.panes)).filterMap (·.paneId)).filter (· != actual)

/-- `session_snapshots.rs:218–271`. -/
def savedWindowKey (actual : String) : String :=
  keptKey (b.restoredWindows identity) (b.savedWindows identity)
    (fun actual ↦ unusedSavedKey actual (b.reservedWindowKeys identity actual)) actual

/-- `session_snapshots.rs:273–327`. -/
def savedPaneKey (actual : String) : String :=
  keptKey (b.restoredPanes identity) (b.savedPanes identity)
    (fun actual ↦ unusedSavedKey actual (b.reservedPaneKeys identity actual)) actual

/-! ### Checkpoints -/

/-- `session_snapshots.rs:347–360`. -/
def checkpointPane (cwd : String) (pane : MuxPaneAnchor) : Except String SavedTerminalPane := do
  let id ← context pane.paneId "checkpoint pane is unavailable"
  pure
    { id := b.savedPaneKey identity id, backendId := id, cwd := pane.cwd.getD cwd
      cols := 0, rows := 0, text := "", omittedLines := 0 }

/-- `session_snapshots.rs:611–630`. -/
def remapLayout (ids : List (String × String)) (layout : MuxPaneLayout K) :
    Option (MuxPaneLayout K) :=
  (Native.NativeMuxState.remapLayout ids layout).toOption

/-- The layout of a window in a checkpoint, `session_snapshots.rs:376–386`. -/
def checkpointLayout (ids : List (String × String)) :
    Option (MuxPaneLayout K) → Except String (Option (MuxPaneLayout K))
  | none => .ok none
  | some layout =>
    (context (remapLayout ids layout) "checkpoint layout contains an unavailable pane").map some

/-- `session_snapshots.rs:329–395`. -/
def checkpointWindow (session : String) (window : MuxWindow K) :
    Except String (SavedTerminalWindow K) := do
  let layout := b.paneLayouts session window.id
  let saved ← context (b.sessions.get identity) "checkpoint task is unavailable"
  let panes ← window.anchors.mapM (b.checkpointPane identity saved.cwd)
  let ids := panes.map fun pane ↦ (pane.backendId, pane.id)
  let focused ← context ((layout.map (·.focused)).or window.anchor.paneId)
    "checkpoint focus is unavailable"
  let focusedPaneId ← context (ids.lookup focused) "checkpoint focused pane is unavailable"
  let layout ← checkpointLayout ids ((layout.map (·.snapshot)).or window.layout)
  pure
    { id := b.savedWindowKey identity window.id, backendId := window.id, title := window.name
      focusedPaneId, layout, panes }

/-- `session_snapshots.rs:132–148`. -/
def checkpointSnapshot (session : MuxSession K) (capturedAt : Int) :
    Except String (SavedTerminalSession K) := do
  let windows ← session.windows.mapM (b.checkpointWindow identity session.id)
  let activeWindowId := session.activeWindowId.bind fun active ↦
    (windows.find? (·.backendId == active)).map (·.id)
  pure { capturedAt, sessionId := identity, backendId := session.id, activeWindowId, windows }

/-- `session_snapshots.rs:118–151`: the snapshot of a checkpoint that is being prepared. -/
def prepareSnapshot [Scalar K] (host : Host) (generation : Nat) (capturedAt : Int) :
    Except String (SavedTerminalSession K) := do
  ensure (generation == b.bindingGeneration) "checkpoint binding is stale"
  let _ ← context (b.sessions.get identity) "checkpoint identity is not held"
  let session ← context (b.sessionAttachment identity) "checkpoint original is unavailable"
  let snapshot ← b.checkpointSnapshot identity session capturedAt
  snapshot.validate host
  pure snapshot

end CheckpointBinding

/-! ### New keys -/

private theorem toList_savedName (actual : String) (suffix : Nat) :
    (savedName actual (suffix + 1)).toList =
      (actual.toList ++ "-saved".toList) ++ '-' :: decimal (suffix + 1) := by
  have hdash : "-saved-".toList = "-saved".toList ++ ['-'] := by decide +kernel
  rw [savedName, String.toList_append, String.toList_append, hdash]
  show _ ++ (Nat.repr (suffix + 1)).toList = _
  rw [Nat.toList_repr, decimal]
  simp

/-- Two ids have a name in common only where one of them is a name of the other. -/
theorem savedName_eq {a c : String} {i j : Nat} (h : savedName a i = savedName c j) :
    a = c ∧ i = j ∨ i = 0 ∧ 0 < j ∨ j = 0 ∧ 0 < i := by
  cases i with
  | zero =>
    cases j with
    | zero => exact .inl ⟨h, rfl⟩
    | succ j => exact .inr (.inl ⟨rfl, Nat.zero_lt_succ j⟩)
  | succ i =>
    cases j with
    | zero => exact .inr (.inr ⟨rfl, Nat.zero_lt_succ i⟩)
    | succ j =>
      have hlist := congrArg String.toList h
      rw [toList_savedName, toList_savedName] at hlist
      have ⟨hfront, hnumber⟩ :=
        append_separator_inj (dash_not_mem_decimal _) (dash_not_mem_decimal _) hlist
      exact .inl ⟨String.toList_inj.mp (List.append_cancel_right hfront),
        decimal_injective hnumber⟩

/-- A new name is a different one. -/
theorem savedName_ne_self (actual : String) (suffix : Nat) :
    savedName actual (suffix + 1) ≠ actual := by
  intro h
  have hlength := congrArg (fun text : String ↦ text.toList.length) h
  simp only [toList_savedName, List.length_append, List.length_cons] at hlength
  omega

private theorem savedName_injective (actual : String) : Function.Injective (savedName actual) := by
  intro i j h
  rcases savedName_eq h with ⟨_, heq⟩ | ⟨rfl, hj⟩ | ⟨rfl, hi⟩
  · exact heq
  · obtain ⟨j, rfl⟩ := Nat.exists_eq_add_of_lt hj
    rw [Nat.zero_add] at h
    exact absurd h.symm (savedName_ne_self actual j)
  · obtain ⟨i, rfl⟩ := Nat.exists_eq_add_of_lt hi
    rw [Nat.zero_add] at h
    exact absurd h (savedName_ne_self actual i)

/-- The first name that is not reserved. -/
def FirstUnused (actual : String) (reserved : List String) (suffix : Nat) : Prop :=
  savedName actual suffix ∉ reserved ∧ ∀ earlier < suffix, savedName actual earlier ∈ reserved

variable {reserved : List String}

private theorem unusedFrom_eq {actual : String} {tries suffix last : Nat}
    (hlast : savedName actual last ∉ reserved)
    (hbefore : ∀ k, suffix ≤ k → k < last → savedName actual k ∈ reserved) (hle : suffix ≤ last)
    (htries : last < suffix + tries) :
    unusedFrom actual reserved tries suffix = savedName actual last := by
  induction tries generalizing suffix with
  | zero => omega
  | succ tries ih =>
    unfold unusedFrom
    by_cases heq : suffix = last
    · rw [heq, if_pos hlast]
    · rw [if_neg (not_not.mpr (hbefore suffix (Nat.le_refl _) (by omega)))]
      exact ih (fun k hk ↦ hbefore k (by omega)) (by omega) (by omega)

/-- The loop ends at the first name that is not reserved, and there is one. -/
theorem unusedSavedKey_eq {actual : String} {suffix : Nat} (h : FirstUnused actual reserved suffix)
    :
    unusedSavedKey actual reserved = savedName actual suffix := by
  have ⟨free, _, hbound, hfree⟩ := exists_free (savedName_injective actual) reserved.dedup 0
  rw [List.mem_dedup] at hfree
  have hle : suffix ≤ free := by
    by_contra hlt
    exact hfree (h.2 free (by omega))
  exact unusedFrom_eq h.1 (fun k _ hk ↦ h.2 k hk) (Nat.zero_le _) (by omega)

private theorem exists_firstUnused (actual : String) (reserved : List String) :
    ∃ suffix, FirstUnused actual reserved suffix := by
  have ⟨free, _, _, hfree⟩ := exists_free (savedName_injective actual) reserved 0
  classical
  have hexists : ∃ suffix, savedName actual suffix ∉ reserved := ⟨free, hfree⟩
  refine ⟨Nat.find hexists, Nat.find_spec hexists, ?_⟩
  intro earlier hlt
  exact not_not.mp (Nat.find_min hexists hlt)

/-- The new key is not reserved. -/
theorem unusedSavedKey_not_mem (actual : String) (reserved : List String) :
    unusedSavedKey actual reserved ∉ reserved := by
  have ⟨suffix, hfirst⟩ := exists_firstUnused actual reserved
  rw [unusedSavedKey_eq hfirst]
  exact hfirst.1

/-- Two ids that get one new key: the key of the one is the id of the other. -/
theorem unusedSavedKey_collide {a c : String} {reserved' : List String} (hne : a ≠ c)
    (h : unusedSavedKey a reserved = unusedSavedKey c reserved') :
    (∃ suffix, a = savedName c (suffix + 1) ∧ FirstUnused c reserved' (suffix + 1)) ∨
      ∃ suffix, c = savedName a (suffix + 1) ∧ FirstUnused a reserved (suffix + 1) := by
  have ⟨i, hi⟩ := exists_firstUnused a reserved
  have ⟨j, hj⟩ := exists_firstUnused c reserved'
  rw [unusedSavedKey_eq hi, unusedSavedKey_eq hj] at h
  rcases savedName_eq h with ⟨heq, _⟩ | ⟨rfl, hpos⟩ | ⟨rfl, hpos⟩
  · exact absurd heq hne
  · left
    cases j with
    | zero => omega
    | succ j => exact ⟨j, h, hj⟩
  · right
    cases i with
    | zero => omega
    | succ i => exact ⟨i, h.symm, hi⟩

end Bootty.Mux
