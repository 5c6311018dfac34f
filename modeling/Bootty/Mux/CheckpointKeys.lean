import Bootty.Base.Binary32
import Bootty.Mux.SavedKeys

/-!
# Keys of a checkpoint are distinct and kept

`crates/bootty-mux/src/workspace/session_snapshots.rs:218–327`. Windows of a checkpoint get distinct
keys. Panes do where no new key is the id of another pane, which may be missed for a window that
lists no panes: the pane it is anchored to is checkpointed but not reserved. Keys are kept by the
checkpoints that follow a published one.
-/

namespace Bootty.Mux

open Bootty.Base

variable {K : Type}

/-- The ids of the panes that a checkpoint lists. -/
def MuxSession.paneIds (session : MuxSession K) : List String :=
  (session.windows.flatMap (·.anchors)).filterMap (·.paneId)

/-- No item is the new key of another one. -/
def Apart (reserved : String → List String) (items : Set String) : Prop :=
  ∀ a ∈ items, ∀ c ∈ items, ∀ suffix, a = savedName c (suffix + 1) →
    (∀ earlier ≤ suffix, savedName c earlier ∈ reserved c) → a ∈ reserved c

variable {items : Set String}

private theorem Apart.injOn {reserved : String → List String} (h : Apart reserved items) :
    Set.InjOn (fun a ↦ unusedSavedKey a (reserved a)) items := by
  intro a ha c hc hkeys
  by_contra hne
  rcases unusedSavedKey_collide hne hkeys with ⟨suffix, heq, hfirst⟩ | ⟨suffix, heq, hfirst⟩
  · exact hfirst.1 (heq ▸ h a ha c hc suffix heq fun k hk ↦ hfirst.2 k (Nat.lt_succ_of_le hk))
  · exact hfirst.1 (heq ▸ h c hc a ha suffix heq fun k hk ↦ hfirst.2 k (Nat.lt_succ_of_le hk))

/-- Where an item that is reserved for itself is reserved for all, no other condition will do. -/
theorem apart_of_injOn {reserved : String → List String}
    (hself : ∀ a c, a ∈ reserved a → a ∈ reserved c)
    (h : Set.InjOn (fun a ↦ unusedSavedKey a (reserved a)) items) : Apart reserved items := by
  intro a ha c hc suffix heq hearlier
  by_contra hfree
  have hkeyC : unusedSavedKey c (reserved c) = a := by
    rw [heq]
    apply unusedSavedKey_eq
    refine ⟨heq ▸ hfree, ?_⟩
    intro k hk
    exact hearlier k (Nat.le_of_lt_succ hk)
  have hkeyA : unusedSavedKey a (reserved a) = savedName a 0 := by
    apply unusedSavedKey_eq
    refine ⟨fun hmem ↦ hfree (hself a c hmem), ?_⟩
    intro k hk
    omega
  have hsame : a = c := h ha hc (hkeyA.trans hkeyC.symm)
  exact savedName_ne_self c suffix (heq.symm.trans hsame)

variable {host : Host} {capturedAt : Int} {snapshot : SavedTerminalSession K}

namespace CheckpointBinding

variable {b : CheckpointBinding K} {identity : String}

/-! ### Keys of windows and panes -/

variable {table : RestoredSessionMapping → List (String × String)}

private theorem restored_subset {key : String}
    (h : key ∈ (((b.restored identity).map table).getD []).map (·.1)) :
    key ∈ ((b.restoredSessions identity).map fun mapping ↦ (table mapping).map (·.1)).getD [] := by
  unfold restored at h
  cases hmapping : b.restoredSessions identity with
  | none =>
    rw [hmapping] at h
    cases h
  | some mapping =>
    rw [hmapping, Option.filter_some] at h
    split at h
    · exact h
    · cases h

private theorem restored_nodup (h : ∀ mapping, ((table mapping).map (·.1)).Nodup) :
    ((((b.restored identity).map table).getD []).map (·.1)).Nodup := by
  cases b.restored identity with
  | none => exact List.nodup_nil
  | some mapping => exact h mapping

private theorem newKey_not_mem {saved reserved others : List String} (actual : String)
    (h : reserved = saved ++
      ((b.restoredSessions identity).map fun mapping ↦ (table mapping).map (·.1)).getD [] ++
        others) :
    unusedSavedKey actual reserved ∉ (((b.restored identity).map table).getD []).map (·.1) ∧
      unusedSavedKey actual reserved ∉ saved := by
  have hnew := unusedSavedKey_not_mem actual reserved
  constructor
  · intro hmem
    apply hnew
    rw [h]
    exact List.mem_append_left _ (List.mem_append_right _ (restored_subset (h ▸ hmem)))
  · intro hmem
    apply hnew
    rw [h]
    exact List.mem_append_left _ (List.mem_append_left _ (h ▸ hmem))

/-- A new key of a window is not a key in either table. -/
theorem newWindowKey_not_mem (b : CheckpointBinding K) (identity actual : String) :
    unusedSavedKey actual (b.reservedWindowKeys identity actual) ∉
        (b.restoredWindows identity).map (·.1) ∧
      unusedSavedKey actual (b.reservedWindowKeys identity actual) ∉
        (b.savedWindows identity).map (·.1) :=
  newKey_not_mem actual rfl

/-- A new key of a pane is not a key in either table. -/
theorem newPaneKey_not_mem (b : CheckpointBinding K) (identity actual : String) :
    unusedSavedKey actual (b.reservedPaneKeys identity actual) ∉
        (b.restoredPanes identity).map (·.1) ∧
      unusedSavedKey actual (b.reservedPaneKeys identity actual) ∉
        (b.savedPanes identity).map (·.1) :=
  newKey_not_mem actual rfl

/-- The live checkpoint repeats no key. -/
def SavedDistinct (b : CheckpointBinding K) (identity : String) : Prop :=
  ((b.savedWindows identity).map (·.1)).Nodup ∧ ((b.savedPanes identity).map (·.1)).Nodup

private theorem savedDistinct_of_validate [Scalar K]
    (h : ∀ snapshot, b.saved identity = some snapshot → snapshot.validate host = .ok ()) :
    b.SavedDistinct identity := by
  unfold SavedDistinct savedWindows savedPanes
  cases hsaved : b.saved identity with
  | none => exact ⟨List.nodup_nil, List.nodup_nil⟩
  | some snapshot =>
    have ⟨hwindows, hpanes⟩ := snapshot.ids_of_validate (h snapshot hsaved)
    simpa [SavedTerminalSession.windowKeys, SavedTerminalSession.paneKeys, Function.comp_def]
      using And.intro hwindows hpanes

variable {session : MuxSession K}

private theorem savedWindowKey_injOn (hsession : b.sessionAttachment identity = some session)
    (hsaved : b.SavedDistinct identity) :
    Set.InjOn (b.savedWindowKey identity) {id | id ∈ session.windows.map (·.id)} := by
  apply keptKey_injOn (restored_nodup fun mapping ↦ mapping.windows_nodup) hsaved.1
  · intro actual _ _
    exact b.newWindowKey_not_mem identity actual
  · apply Apart.injOn
    -- Every other window of the session is reserved.
    rintro a ⟨ha, _⟩ c _ suffix heq _
    have hattached : a ∈ (b.attachedWindows identity).map (·.id) := by
      rw [attachedWindows, hsession]
      exact ha
    refine List.mem_append_right _ (List.mem_filter.mpr ⟨hattached, ?_⟩)
    rw [bne_iff_ne, heq]
    exact savedName_ne_self c suffix

/-- Panes get distinct keys where no pane that needs a new key is the new key of another one. -/
theorem savedPaneKey_injOn_iff (hsaved : b.SavedDistinct identity) :
    Set.InjOn (b.savedPaneKey identity) {id | id ∈ session.paneIds} ↔
      Apart (b.reservedPaneKeys identity) {id | id ∈ session.paneIds ∧
        Unkept (b.restoredPanes identity) (b.savedPanes identity) id} := by
  constructor
  · intro h
    apply apart_of_injOn
    · intro a c hmem
      simp only [reservedPaneKeys, List.mem_append, List.mem_filter, bne_self_eq_false,
        Bool.false_eq_true, and_false, or_false] at hmem
      exact List.mem_append_left _ (List.mem_append.mpr hmem)
    · rintro a ⟨ha, hunkept⟩ c ⟨hc, hunkept'⟩ hkeys
      apply h ha hc
      rw [savedPaneKey, savedPaneKey, keptKey_of_unkept hunkept, keptKey_of_unkept hunkept']
      exact hkeys
  · intro h
    apply keptKey_injOn (restored_nodup fun mapping ↦ mapping.panes_nodup) hsaved.2
    · intro actual _ _
      exact b.newPaneKey_not_mem identity actual
    · exact h.injOn

/-- They do where every window lists its panes. -/
theorem apart_of_panes
    (hsession : b.sessionAttachment identity = some session)
    (hpanes : ∀ window ∈ session.windows, window.panes ≠ [])
    (hitems : ∀ id ∈ items, id ∈ session.paneIds) :
    Apart (b.reservedPaneKeys identity) items := by
  intro a ha c _ suffix heq _
  have ⟨pane, hpane, hid⟩ := List.mem_filterMap.mp (hitems a ha)
  have ⟨window, hwindow, hanchors⟩ := List.mem_flatMap.mp hpane
  rw [MuxWindow.anchors, if_neg (by simpa using hpanes window hwindow)] at hanchors
  have hlisted : a ∈ ((b.attachedWindows identity).flatMap (·.panes)).filterMap (·.paneId) := by
    rw [attachedWindows, hsession]
    exact List.mem_filterMap.mpr ⟨pane, List.mem_flatMap.mpr ⟨window, hwindow, hanchors⟩, hid⟩
  refine List.mem_append_right _ (List.mem_filter.mpr ⟨hlisted, ?_⟩)
  rw [bne_iff_ne, heq]
  exact savedName_ne_self c suffix

/-! ### Keys of a checkpoint -/

private theorem checkpointPanes_keys {cwd : String} {anchors : List MuxPaneAnchor}
    {panes : List SavedTerminalPane}
    (h : anchors.mapM (b.checkpointPane identity cwd) = .ok panes) :
    panes.map (fun pane ↦ (pane.id, pane.backendId)) =
      (anchors.filterMap (·.paneId)).map fun id ↦ (b.savedPaneKey identity id, id) := by
  have hsteps := forall₂_of_mapM_eq_ok h
  clear h
  induction hsteps with
  | nil => rfl
  | cons hpane _ ih =>
    have ⟨id, hid, heq⟩ := bind_eq_ok.mp hpane
    obtain rfl := pure_eq_ok.mp heq
    rw [List.filterMap_cons, context_eq_ok.mp hid, List.map_cons, List.map_cons, ih]

private theorem checkpointWindow_keys {session : String} {window : MuxWindow K}
    {saved : SavedTerminalWindow K}
    (h : b.checkpointWindow identity session window = .ok saved) :
    (saved.id, saved.backendId) = (b.savedWindowKey identity window.id, window.id) ∧
      saved.panes.map (fun pane ↦ (pane.id, pane.backendId)) =
        (window.anchors.filterMap (·.paneId)).map fun id ↦ (b.savedPaneKey identity id, id) := by
  simp only [checkpointWindow, bind_eq_ok] at h
  obtain ⟨_, _, panes, hpanes, _, _, _, _, _, _, heq⟩ := h
  obtain rfl := pure_eq_ok.mp heq
  exact ⟨rfl, checkpointPanes_keys hpanes⟩

/-- A checkpoint lists the keys of the windows and the panes. -/
theorem keys_of_checkpointSnapshot
    (h : b.checkpointSnapshot identity session capturedAt = .ok snapshot) :
    snapshot.windowKeys =
        session.windows.map (fun window ↦ (b.savedWindowKey identity window.id, window.id)) ∧
      snapshot.paneKeys = session.paneIds.map fun id ↦ (b.savedPaneKey identity id, id) := by
  have ⟨windows, hwindows, heq⟩ := bind_eq_ok.mp h
  obtain rfl := pure_eq_ok.mp heq
  show windows.map _ = _ ∧ (windows.flatMap _).map _ = _
  have hsteps := forall₂_of_mapM_eq_ok hwindows
  unfold MuxSession.paneIds
  clear h heq hwindows
  generalize session.windows = attached at hsteps ⊢
  induction hsteps with
  | nil => exact ⟨rfl, rfl⟩
  | cons hwindow _ ih =>
    have ⟨hids, hpanes⟩ := checkpointWindow_keys hwindow
    constructor
    · rw [List.map_cons, List.map_cons, hids, ih.1]
    · rw [List.flatMap_cons, List.map_append, hpanes, ih.2, List.flatMap_cons,
        List.filterMap_append, List.map_append]

private theorem distinct_of_injOn
    (hwindows : Set.InjOn (b.savedWindowKey identity) {id | id ∈ session.windows.map (·.id)})
    (hpanes : Set.InjOn (b.savedPaneKey identity) {id | id ∈ session.paneIds})
    (hwindowIds : (session.windows.map (·.id)).Nodup) (hpaneIds : session.paneIds.Nodup)
    (h : b.checkpointSnapshot identity session capturedAt = .ok snapshot) :
    (snapshot.windowKeys.map (·.1)).Nodup ∧ (snapshot.paneKeys.map (·.1)).Nodup := by
  have ⟨hwindowKeys, hpaneKeys⟩ := keys_of_checkpointSnapshot h
  rw [hwindowKeys, hpaneKeys, List.map_map, List.map_map]
  constructor
  · have hmap := hwindowIds.map_on fun a ha c hc heq ↦ hwindows ha hc heq
    rw [List.map_map] at hmap
    exact hmap
  · exact hpaneIds.map_on fun a ha c hc heq ↦ hpanes ha hc heq

/-! ### Later checkpoints -/

/-- A later state of a binding in the generation in which a checkpoint with these keys has been
published. What is attached is arbitrary. -/
structure Continues (b later : CheckpointBinding K) (identity : String)
    (snapshot : SavedTerminalSession K) : Prop where
  /-- The mapping of a restoration in this generation is a hash map, listed in some order. -/
  windows : (later.restoredWindows identity).Perm (b.restoredWindows identity)
  panes : (later.restoredPanes identity).Perm (b.restoredPanes identity)
  savedWindows : later.savedWindows identity = snapshot.windowKeys
  savedPanes : later.savedPanes identity = snapshot.paneKeys

/-- Windows and panes of both checkpoints have the same key in both. -/
def KeepsKeys (snapshot snapshot' : SavedTerminalSession K) : Prop :=
  (∀ key key' id, (key, id) ∈ snapshot.windowKeys → (key', id) ∈ snapshot'.windowKeys →
      key' = key) ∧
    ∀ key key' id, (key, id) ∈ snapshot.paneKeys → (key', id) ∈ snapshot'.paneKeys → key' = key

/-- The targets of the mapping of a restoration in this generation are distinct. -/
def TargetsDistinct (b : CheckpointBinding K) (identity : String) : Prop :=
  ((b.restoredWindows identity).map (·.2)).Nodup ∧ ((b.restoredPanes identity).map (·.2)).Nodup

/-- Keys are kept by a checkpoint that follows a published one. -/
theorem keepsKeys_of_continues {later : CheckpointBinding K} {session' : MuxSession K}
    {capturedAt' : Int} {snapshot' : SavedTerminalSession K} (htargets : b.TargetsDistinct identity)
    (h : b.checkpointSnapshot identity session capturedAt = .ok snapshot)
    (hcontinues : b.Continues later identity snapshot)
    (h' : later.checkpointSnapshot identity session' capturedAt' = .ok snapshot') :
    KeepsKeys snapshot snapshot' := by
  have ⟨hwindows, hpanes⟩ := keys_of_checkpointSnapshot h
  have ⟨hwindows', hpanes'⟩ := keys_of_checkpointSnapshot h'
  constructor
  · intro key key' id hmem hmem'
    rw [hwindows'] at hmem'
    rw [← hcontinues.savedWindows] at hwindows hmem
    apply eq_of_listed_keys hcontinues.windows htargets.1 _ hwindows hmem hmem'
    intro actual
    exact (b.newWindowKey_not_mem identity actual).1
  · intro key key' id hmem hmem'
    rw [hpanes'] at hmem'
    rw [← hcontinues.savedPanes] at hpanes hmem
    apply eq_of_listed_keys hcontinues.panes htargets.2 _ hpanes hmem hmem'
    intro actual
    exact (b.newPaneKey_not_mem identity actual).1

end CheckpointBinding

/-! ### Prepared, saved and published -/

variable {ws : WorkspaceRuntime K}

/-- The rest of the workspace makes the checkpoint of the snapshot that its binding prepares. -/
theorem CheckpointBinding.prepareSessionCheckpoint_eq [Scalar K] {b : CheckpointBinding K}
    {scope : SpaceId} {identity : String} {generation : Nat}
    (hbinding : ws.binding scope = some b.toBindingRuntime)
    (h : b.prepareSnapshot identity host generation capturedAt = .ok snapshot) :
    ∃ prepared, ws.prepareSessionCheckpoint host scope identity generation capturedAt
        snapshot.activeWindowId snapshot.windows = .ok prepared ∧
      prepared.scope = scope ∧ prepared.identity = identity ∧ prepared.snapshot = snapshot := by
  simp only [prepareSnapshot, bind_eq_ok] at h
  obtain ⟨_, _, saved, hsaved, session, hsession, _, hsnapshot, _, hvalid, heq⟩ := h
  obtain rfl := pure_eq_ok.mp heq
  obtain ⟨windows, _, hwindows⟩ := bind_eq_ok.mp hsnapshot
  obtain rfl := pure_eq_ok.mp hwindows
  refine ⟨⟨scope, identity, generation, saved.terminalSnapshot, _⟩, ?_, rfl, rfl, rfl⟩
  rw [WorkspaceRuntime.prepareSessionCheckpoint, hbinding, context_some, ok_bind, hsaved, ok_bind,
    hsession, ok_bind]
  dsimp only
  rw [hvalid]
  rfl

variable {captures : List SessionPaneCapture}

private theorem keys_of_fillPanes {panes panes' : List SavedTerminalPane}
    {rest : List SessionPaneCapture}
    (h : PreparedSessionCheckpoint.fillPanes panes captures = .ok (panes', rest)) :
    panes'.map (fun pane ↦ (pane.id, pane.backendId)) =
      panes.map fun pane ↦ (pane.id, pane.backendId) := by
  induction panes generalizing captures panes' with
  | nil =>
    cases h
    rfl
  | cons pane panes ih =>
    simp only [PreparedSessionCheckpoint.fillPanes, bind_eq_ok] at h
    obtain ⟨_, _, ⟨_, _⟩, hrest, heq⟩ := h
    cases pure_eq_ok.mp heq
    rw [List.map_cons, List.map_cons, ih hrest]

private theorem keys_of_fillWindows {windows windows' : List (SavedTerminalWindow K)}
    {rest : List SessionPaneCapture}
    (h : PreparedSessionCheckpoint.fillWindows windows captures = .ok (windows', rest)) :
    windows'.map (fun window ↦ (window.id, window.backendId)) =
        windows.map (fun window ↦ (window.id, window.backendId)) ∧
      (windows'.flatMap (·.panes)).map (fun pane ↦ (pane.id, pane.backendId)) =
        (windows.flatMap (·.panes)).map fun pane ↦ (pane.id, pane.backendId) := by
  induction windows generalizing captures windows' with
  | nil =>
    cases h
    exact ⟨rfl, rfl⟩
  | cons window windows ih =>
    simp only [PreparedSessionCheckpoint.fillWindows, bind_eq_ok] at h
    obtain ⟨⟨_, _⟩, hpanes, ⟨_, _⟩, hrest, heq⟩ := h
    cases pure_eq_ok.mp heq
    obtain ⟨hwindows, hall⟩ := ih hrest
    constructor
    · rw [List.map_cons, List.map_cons, hwindows]
    · rw [List.flatMap_cons, List.flatMap_cons, List.map_append, List.map_append, hall,
        keys_of_fillPanes hpanes]

section Publish

variable [DecidableEq K] [Scalar K]

variable {receipt : SavedSessionCheckpoint K}

/-- Captures of panes change no key. -/
theorem PreparedSessionCheckpoint.keys_of_save {prepared : PreparedSessionCheckpoint K}
    {repository repository' : WorkspaceRepository K}
    (h : prepared.save host captures repository = .ok (repository', receipt)) :
    receipt.scope = prepared.scope ∧ receipt.identity = prepared.identity ∧
      receipt.snapshot.windowKeys = prepared.snapshot.windowKeys ∧
        receipt.snapshot.paneKeys = prepared.snapshot.paneKeys := by
  simp only [save, bind_eq_ok] at h
  have ⟨_, _, ⟨_, _⟩, hfill, _, _, _, _, _, _, heq⟩ := h
  cases pure_eq_ok.mp heq
  exact ⟨rfl, rfl, keys_of_fillWindows hfill⟩

omit [Scalar K] in
private theorem snapshot_of_setTerminalSnapshot {m : SessionMembership K} {identity : String}
    {session : WorkspaceSession K} (h : m.get identity = some session)
    (snapshot : SavedTerminalSession K) :
    (((m.setTerminalSnapshot identity snapshot).getD m).get identity).bind (·.terminalSnapshot) =
      some snapshot := by
  unfold SessionMembership.setTerminalSnapshot SessionMembership.update
  rw [h, Option.bind_some]
  split
  · next hsame =>
    rw [Option.getD_none, h, Option.bind_some, ← hsame]
  · have hfind : m.find? (fun session ↦ session.identity == identity) = some session := h
    have hidentity : (session.identity == identity) = true := by
      simpa using List.find?_some hfind
    rw [Option.getD_some, SessionMembership.get, find?_modifyFirst h hidentity]
    rfl

/-- An admitted receipt is the live checkpoint. -/
theorem WorkspaceRuntime.live_of_publish {ws' : WorkspaceRuntime K}
    (h : ws.publishSessionCheckpoint host receipt = .ok (true, ws')) :
    ∃ binding, ws'.binding receipt.scope = some binding ∧
      (binding.sessions.get receipt.identity).bind (·.terminalSnapshot) =
        some receipt.snapshot := by
  rcases hbinding : ws.binding receipt.scope with _ | binding
  · rw [publishSessionCheckpoint, hbinding] at h
    cases h
  rcases hget : binding.sessions.get receipt.identity with _ | session
  · simp only [publishSessionCheckpoint, hbinding, hget] at h
    cases h
  · simp only [publishSessionCheckpoint, hbinding, hget, bind_eq_ok] at h
    have ⟨_, _, hshown⟩ := h
    split at hshown
    · cases hshown
    · cases hshown
      have hscope : (binding.scope == receipt.scope) = true := by
        simpa using (scope_of_binding hbinding).2
      refine ⟨_, find?_modifyFirst hbinding hscope, ?_⟩
      exact snapshot_of_setTerminalSnapshot hget receipt.snapshot

/-- A binding whose checkpoint is prepared, saved and published continues in its generation. -/
theorem CheckpointBinding.continues_of_publish {b later : CheckpointBinding K}
    {prepared : PreparedSessionCheckpoint K} {repository repository' : WorkspaceRepository K}
    {ws' : WorkspaceRuntime K}
    (hsave : prepared.save host captures repository = .ok (repository', receipt))
    (hpublish : ws.publishSessionCheckpoint host receipt = .ok (true, ws'))
    (hsessions : (ws'.binding prepared.scope).map (·.sessions) = some later.sessions)
    (hgeneration : later.bindingGeneration = b.bindingGeneration)
    (hrestored : later.restoredSessions = b.restoredSessions) :
    b.Continues later prepared.identity prepared.snapshot := by
  have ⟨hscope, hidentity, hwindows, hpanes⟩ := PreparedSessionCheckpoint.keys_of_save hsave
  have ⟨binding, hbinding, hlive⟩ := WorkspaceRuntime.live_of_publish hpublish
  have hsaved : later.saved prepared.identity = some receipt.snapshot := by
    rw [← hscope, hbinding] at hsessions
    obtain hsessions := Option.some.inj hsessions
    rw [saved, ← hsessions, ← hidentity]
    exact hlive
  have hsame : later.restored prepared.identity = b.restored prepared.identity := by
    rw [restored, restored, hgeneration, hrestored]
  refine ⟨?_, ?_, ?_, ?_⟩
  · rw [restoredWindows, hsame, restoredWindows]
  · rw [restoredPanes, hsame, restoredPanes]
  · rw [savedWindows, hsaved, ← hwindows]
    rfl
  · rw [savedPanes, hsaved, ← hpanes]
    rfl

end Publish

/-! ### The condition -/

namespace CheckpointBinding

variable [Scalar K] {b : CheckpointBinding K} {identity : String}

/-- Windows and panes get distinct keys, so that no checkpoint repeats one, and keep them in the
checkpoint that follows a published one. -/
structure KeysHold (host : Host) (b : CheckpointBinding K) (identity : String)
    (session : MuxSession K) : Prop where
  windows : Set.InjOn (b.savedWindowKey identity) {id | id ∈ session.windows.map (·.id)}
  panes : Set.InjOn (b.savedPaneKey identity) {id | id ∈ session.paneIds}
  distinct : ∀ capturedAt snapshot,
    b.checkpointSnapshot identity session capturedAt = .ok snapshot →
      (snapshot.windowKeys.map (·.1)).Nodup ∧ (snapshot.paneKeys.map (·.1)).Nodup
  admitted : ∀ capturedAt snapshot,
    b.checkpointSnapshot identity session capturedAt = .ok snapshot →
      snapshot.validate host ≠ .error repeatedPane
  kept : ∀ capturedAt snapshot, b.checkpointSnapshot identity session capturedAt = .ok snapshot →
    ∀ later, b.Continues later identity snapshot → ∀ session' capturedAt' snapshot',
      later.checkpointSnapshot identity session' capturedAt' = .ok snapshot' →
        KeepsKeys snapshot snapshot'

/-- No pane that needs a new key has the id that is the new key of another one, unless it is
reserved. -/
def PanesApart (b : CheckpointBinding K) (identity : String) (session : MuxSession K) : Prop :=
  Apart (b.reservedPaneKeys identity) {id | id ∈ session.paneIds ∧
    Unkept (b.restoredPanes identity) (b.savedPanes identity) id}

/-- The keys of a checkpoint are unique and stable exactly where no pane that needs a new key has
the id that is the new key of another one. -/
theorem keysHold_iff (host : Host) (b : CheckpointBinding K) (identity : String)
    (session : MuxSession K) (hsession : b.sessionAttachment identity = some session)
    (hwindowIds : (session.windows.map (·.id)).Nodup) (hpaneIds : session.paneIds.Nodup)
    (hsaved : ∀ snapshot, b.saved identity = some snapshot → snapshot.validate host = .ok ())
    (htargets : b.TargetsDistinct identity) :
    b.KeysHold host identity session ↔ b.PanesApart identity session := by
  have hdistinct := savedDistinct_of_validate hsaved
  constructor
  · intro h
    exact (savedPaneKey_injOn_iff hdistinct).mp h.panes
  · intro h
    have hwindows := savedWindowKey_injOn hsession hdistinct
    have hpanes := (savedPaneKey_injOn_iff hdistinct).mpr h
    refine ⟨hwindows, hpanes, ?_, ?_, ?_⟩
    · intro capturedAt snapshot hsnapshot
      exact distinct_of_injOn hwindows hpanes hwindowIds hpaneIds hsnapshot
    · intro capturedAt snapshot hsnapshot
      have hkeys := distinct_of_injOn hwindows hpanes hwindowIds hpaneIds hsnapshot
      apply snapshot.validate_ne_repeatedPane
      rw [SavedTerminalSession.paneKeys, List.map_map] at hkeys
      exact hkeys.2
    · intro capturedAt snapshot hsnapshot later hcontinues session' capturedAt' snapshot' hlater
      exact keepsKeys_of_continues htargets hsnapshot hcontinues hlater

private def sampleAnchor (pane : String) : MuxPaneAnchor :=
  { sessionId := "s", paneId := some pane, panePid := none, cwd := some "/src", process := none }

/-- A window that lists these panes and is anchored to one. -/
private def sampleWindow (id pane : String) (panes : List String) : MuxWindow Binary32 :=
  { id, index := 1, name := id, active := false, anchor := sampleAnchor pane
    panes := panes.map sampleAnchor, layout := none }

private def sampleSession (windows : List (MuxWindow Binary32)) : MuxSession Binary32 :=
  { id := "s", name := "x", active := true, anchor := sampleAnchor "pane-1"
    activeWindowId := none, windows, tag := ⟨some "x", some "a"⟩ }

/-- The live checkpoint has a key that looks like the id of another pane. -/
private def sampleSnapshot : SavedTerminalSession Binary32 :=
  { capturedAt := 1, sessionId := "x", backendId := "s", activeWindowId := none
    windows :=
      [{ id := "window-1", backendId := "window-9", title := "", focusedPaneId := "pane-1"
         layout := none
         panes := [{ id := "pane-1", backendId := "pane-9", cwd := "/src", cols := 0, rows := 0
                     text := "" }] }] }

/-- A Space whose session has these windows. -/
private def sampleBinding (windows : List (MuxWindow Binary32)) : CheckpointBinding Binary32 :=
  { scope := 1, spaceTag := "a", remote := false
    sessions :=
      [{ identity := "x", backendName := "x", displayName := "x", explicit := false, cwd := "/src"
         state := {}, terminalSnapshot := some sampleSnapshot }]
    mux := { hasSnapshot := true, allSessions := [sampleSession windows] }
    bindingGeneration := 7, restoredSessions := fun _ ↦ none, paneLayouts := fun _ _ ↦ none }

/-- Two windows that list their panes. -/
private def listing : List (MuxWindow Binary32) :=
  [sampleWindow "window-1" "pane-1" ["pane-1"],
    sampleWindow "window-2" "pane-1-saved-1" ["pane-1-saved-1"]]

/-- The same windows, where the pane of each is its anchor. -/
private def anchored : List (MuxWindow Binary32) :=
  [sampleWindow "window-1" "pane-1" [], sampleWindow "window-2" "pane-1-saved-1" []]

private theorem saved_sampleBinding (windows : List (MuxWindow Binary32)) :
    ∀ snapshot, (sampleBinding windows).saved "x" = some snapshot →
      snapshot.validate Host.plain = .ok () := by
  intro snapshot h
  obtain rfl := Option.some.inj h
  decide +kernel

/-- Windows that list their panes. -/
theorem keysHold_iff_listing :
    (sampleBinding listing).KeysHold Host.plain "x" (sampleSession listing) ↔
      (sampleBinding listing).PanesApart "x" (sampleSession listing) :=
  keysHold_iff Host.plain (sampleBinding listing) "x" (sampleSession listing) rfl
    (by decide +kernel) (by decide +kernel) (saved_sampleBinding listing)
    ⟨List.nodup_nil, List.nodup_nil⟩

private def refusal {α : Type} : Except String α → Option String
  | .error error => some error
  | .ok _ => none

/-- The key for the pane `pane-1` is taken, and its new key is the id of the other pane, which is
only an anchor. The checkpoint is refused. -/
theorem not_keysHold :
    (sampleBinding anchored).prepareSnapshot "x" Host.plain 7 2 = .error repeatedPane ∧
      ¬ ∀ (b : CheckpointBinding Binary32) (session : MuxSession Binary32),
        b.sessionAttachment "x" = some session → (session.windows.map (·.id)).Nodup →
          session.paneIds.Nodup →
            (∀ snapshot, b.saved "x" = some snapshot → snapshot.validate Host.plain = .ok ()) →
              b.TargetsDistinct "x" → b.KeysHold Host.plain "x" session := by
  have hrefused :
      (sampleBinding anchored).prepareSnapshot "x" Host.plain 7 2 = .error repeatedPane := by
    have hrefusal : refusal ((sampleBinding anchored).prepareSnapshot "x" Host.plain 7 2) =
        some repeatedPane := by decide +kernel
    unfold refusal at hrefusal
    split at hrefusal
    · next error herror => rw [herror, Option.some.inj hrefusal]
    · cases hrefusal
  refine ⟨hrefused, ?_⟩
  intro h
  have hkeys : (sampleBinding anchored).savedPaneKey "x" "pane-1" =
      (sampleBinding anchored).savedPaneKey "x" "pane-1-saved-1" := by decide +kernel
  have hold := h (sampleBinding anchored) (sampleSession anchored) rfl (by decide +kernel)
    (by decide +kernel) (saved_sampleBinding anchored) ⟨List.nodup_nil, List.nodup_nil⟩
  have heq := hold.panes (by decide +kernel) (by decide +kernel) hkeys
  exact absurd heq (by decide +kernel)

end CheckpointBinding
end Bootty.Mux
