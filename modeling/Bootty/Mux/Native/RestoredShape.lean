import Bootty.Mux.Native.Conservation
import Bootty.Mux.Native.RestoredSession

/-!
# A checkpoint comes back in its shape

`execute` of a `RestoreSession` (`crates/bootty-mux/src/native/state.rs:153–223,891–920`) with exact
weights: the session that is added has the windows of the checkpoint under new pane ids. The layout
pass (`native/layout.rs:10–77`) puts a saved layout into its normal form and rearranges nothing.
-/

namespace Bootty.Mux.Native

open Bootty.Base

/-- A window has the shape of a saved one under new pane ids. -/
structure RestoresWindow (newId : String → String) (saved : SavedTerminalWindow ℚ)
    (window : NativeWindow ℚ) : Prop where
  title : window.name = saved.title
  panes : window.panes = saved.panes.map fun pane ↦ ⟨newId pane.id, pane.cwd⟩
  focus : window.activePaneId = newId saved.focusedPaneId
  layout : ∀ layout, saved.layout = some layout →
    ∃ tree, layout.normalize = some tree ∧ window.layout = some (tree.rename newId)
  leaves : saved.layout = none → ∃ tree, window.layout = some tree ∧ tree.leaves.Perm window.paneIds

/-- A session has the shape of a checkpoint under new pane ids. -/
structure Restores (newId : String → String) (snapshot : SavedTerminalSession ℚ)
    (session : NativeSession ℚ) : Prop where
  bijective : Set.BijOn newId {id | id ∈ (snapshot.windows.flatMap (·.panes)).map (·.id)}
    {id | id ∈ (session.windows.flatMap (·.panes)).map (·.id)}
  windows : List.Forall₂ (RestoresWindow newId) snapshot.windows session.windows
  windowIds : session.windowIds.Nodup
  firstActive : snapshot.activeWindowId = none →
    session.windows[0]?.map (·.id) = some session.activeWindowId
  savedActive : ∀ (i : Nat) window, snapshot.windows[i]? = some window →
    snapshot.activeWindowId = some window.id →
      session.windows[i]?.map (·.id) = some session.activeWindowId

namespace NativeMuxState

variable {st : NativeMuxState ℚ} {host : Host} {id : String} {tag : MuxSessionTag}
  {snapshot : SavedTerminalSession ℚ} {newId : String → String}

/-! ### The layout pass -/

private theorem fromMuxLayout_of_normalize {t root : MuxPaneLayout ℚ}
    (h : t.normalize = some root) (hn : t.leaves.Nodup) :
    ∃ l, PaneLayout.fromMuxLayout t = some l ∧ l.root = root := by
  have ⟨focused, hfocused⟩ := (MuxPaneLayout.canonical_of_normalize h).weighted.firstLeaf
  have hleaves : root.leaves = t.leaves := MuxPaneLayout.leaves_normalize h
  refine ⟨⟨root, focused⟩, ?_, rfl⟩
  simp [PaneLayout.fromMuxLayout, h, hfocused, PaneLayout.panes, hleaves, hn]

private theorem windowLayout_of_shown {before : MuxSnapshot ℚ} {command : MuxCommand ℚ}
    {layouts : LayoutMap (PaneLayout ℚ)} {session : MuxSession ℚ} {window : MuxWindow ℚ}
    {ids : List String} {l : PaneLayout ℚ} (hsplit : splitOf command = none)
    (hnone : layouts (session.id, window.id) = none)
    (hsome : window.layout.bind PaneLayout.fromMuxLayout = some l)
    (hids : window.panes.filterMap (·.paneId) = ids) (hne : ids ≠ []) (hn : ids.Nodup)
    (hmem : ∀ id, id ∈ l.panes ↔ id ∈ ids) :
    windowLayout before command layouts session window = .ok (some l.root) := by
  have ⟨first, rest, hcons⟩ := List.exists_cons_of_ne_nil hne
  have ⟨tree, _, htree⟩ := Option.bind_eq_some_iff.mp hsome
  have hperm : l.panes.Perm ids :=
    (List.perm_ext_iff_of_nodup (PaneLayout.wf_of_fromMuxLayout htree).nodup hn).mpr hmem
  have hfit : fitLayout before command session.id (first :: rest) l = l := by
    rw [fitLayout, hsplit, ← hcons]
    exact PaneLayout.reconcile_eq_self hmem .right
  have hstart : (layouts (session.id, window.id) <|>
      window.layout.bind PaneLayout.fromMuxLayout).getD (.single first) = l := by
    rw [hnone, hsome]
    rfl
  rw [windowLayout_eq (hids.trans hcons) hstart (by rw [hfit, ← hcons]; exact hperm), hfit]

private theorem normalized_of_saved {before : MuxSnapshot ℚ} {changed : NativeMuxState ℚ}
    {command : MuxCommand ℚ} {layouts : LayoutMap (PaneLayout ℚ)} {session : NativeSession ℚ}
    {position : Nat} {saved : SavedTerminalWindow ℚ} {layout : MuxPaneLayout ℚ}
    (hsplit : splitOf command = none) (hnone : layouts (session.id, windowIdOf (position + 1)) = none)
    (hsound : saved.Sound) (hlayout : saved.layout = some layout)
    (hn : (restoredWindow newId position saved).paneIds.Nodup)
    (hinj : Set.InjOn newId {id | id ∈ layout.leaves}) :
    ∃ tree, layout.normalize = some tree ∧
      windowLayout before command layouts (changed.snapshotSession session)
        (changed.snapshotWindow session (restoredWindow newId position saved)) =
          .ok (some (tree.rename newId)) := by
  have ⟨tree, htree⟩ := (hsound.weighted layout hlayout).normalize
  have hrenamed : (layout.rename newId).normalize = some (tree.rename newId) := by
    rw [MuxPaneLayout.normalize_rename, htree]
    rfl
  have hleaves : (layout.rename newId).leaves = layout.leaves.map newId :=
    MuxPaneLayout.leaves_rename newId layout
  have hnodup : (layout.rename newId).leaves.Nodup := by
    rw [hleaves]
    exact (hsound.leaves_nodup layout hlayout).map_on fun a ha b hb heq ↦ hinj ha hb heq
  have ⟨l, hl, hroot⟩ := fromMuxLayout_of_normalize hrenamed hnodup
  have hids : (restoredWindow newId position saved).paneIds =
      (saved.panes.map (·.id)).map newId := by
    rw [NativeWindow.paneIds, restoredWindow, restoredPanes, List.map_map, List.map_map]
    rfl
  have hne : (restoredWindow newId position saved).paneIds ≠ [] := by
    rw [hids]
    exact List.ne_nil_of_mem (List.mem_map_of_mem hsound.focused)
  have hsome : (changed.snapshotWindow session (restoredWindow newId position saved)).layout.bind
      PaneLayout.fromMuxLayout = some l := by
    rw [snapshotWindow, restoredWindow, hlayout]
    exact hl
  have hmem : ∀ id, id ∈ l.panes ↔ id ∈ (restoredWindow newId position saved).paneIds := by
    intro id
    rw [(PaneLayout.fromMuxLayout_eq_some hl).2.1, hleaves, hids, List.mem_map, List.mem_map]
    apply exists_congr
    intro old
    rw [hsound.mem_leaves layout hlayout old]
  refine ⟨tree, htree, ?_⟩
  rw [← hroot]
  exact windowLayout_of_shown hsplit hnone hsome (snapshotWindow_ids changed session _) hne hn hmem

/-! ### The restored session -/

/-- A session with the layouts of a map. -/
def laidOut (layouts : LayoutMap (MuxPaneLayout ℚ)) (session : NativeSession ℚ) :
    NativeSession ℚ :=
  { session with
    windows := session.windows.map fun window ↦
      { window with layout := layouts (session.id, window.id) } }

private theorem panes_laidOut (layouts : LayoutMap (MuxPaneLayout ℚ))
    (session : NativeSession ℚ) :
    (laidOut layouts session).windows.flatMap (·.panes) = session.windows.flatMap (·.panes) := by
  rw [laidOut, List.flatMap_map]

variable {layouts : LayoutMap (MuxPaneLayout ℚ)}

private theorem restores_laidOut (hsound : snapshot.Sound)
    (hinj : Set.InjOn newId {id | id ∈ savedPaneIds snapshot.windows})
    (hwindowIds : (restoredSession newId id tag snapshot).windowIds.Nodup)
    (hwindows : ∀ window ∈ snapshot.windows, ∀ i,
      restoredWindow newId i window ∈ restoredWindows newId 0 snapshot.windows →
        RestoresWindow newId window { restoredWindow newId i window with
          layout := layouts (id, windowIdOf (i + 1)) }) :
    Restores newId snapshot (laidOut layouts (restoredSession newId id tag snapshot)) := by
  have hget : ∀ (i : Nat) window, snapshot.windows[i]? = some window →
      (laidOut layouts (restoredSession newId id tag snapshot)).windows[i]?.map (·.id) =
        some (windowIdOf (i + 1)) := by
    intro i window hwindow
    rw [laidOut, List.getElem?_map, restoredSession, getElem?_restoredWindows, hwindow,
      Nat.zero_add]
    rfl
  refine ⟨?_, ?_, ?_, ?_, ?_⟩
  · have himage : {pane | pane ∈ ((laidOut layouts
        (restoredSession newId id tag snapshot)).windows.flatMap (·.panes)).map (·.id)} =
          newId '' {pane | pane ∈ savedPaneIds snapshot.windows} := by
      rw [panes_laidOut, restoredSession, panes_restoredWindows, restoredPanes, List.map_map]
      ext pane
      simp [savedPaneIds]
    rw [himage]
    exact hinj.bijOn_image
  · rw [laidOut, List.forall₂_map_right_iff]
    exact forall₂_restoredWindows hwindows
  · rw [NativeSession.windowIds, laidOut, List.map_map]
    exact hwindowIds
  · intro hnone
    obtain ⟨first, rest, hcons⟩ := List.exists_cons_of_ne_nil hsound.windows_ne_nil
    rw [hget 0 first (by rw [hcons]; rfl), laidOut, restoredSession, hnone]
    exact congrArg some (selectedAfter_none hsound.windows_ne_nil).symm
  · intro i window hwindow hactive
    rw [hget i window hwindow, laidOut, restoredSession]
    dsimp only
    rw [selectedAfter_some hsound.windowIds hwindow hactive, Nat.zero_add]

private theorem restoresWindow_of_layouts (hsound : snapshot.Sound)
    (hunclaimed : st.Unclaimed id tag) (hok : TopologyOk (st.withRestored id tag snapshot))
    (hlayouts : updatedLayouts st.snapshot (st.withRestored id tag snapshot).snapshot
      (.restoreSession id tag snapshot) = .ok layouts)
    (hagrees : ((st.withRestored id tag snapshot).withLayouts layouts).Agrees)
    (hnewId : st.newPaneId (savedPaneIds snapshot.windows) = newId) {window : SavedTerminalWindow ℚ}
    (hwindow : window ∈ snapshot.windows) {i : Nat}
    (hmem : restoredWindow newId i window ∈ restoredWindows newId 0 snapshot.windows) :
    RestoresWindow newId window { restoredWindow newId i window with
      layout := layouts (id, windowIdOf (i + 1)) } := by
  have hsession : restoredSession newId id tag snapshot ∈
      (st.withRestored id tag snapshot).sessions := by
    rw [← hnewId]
    exact List.mem_append_right _ (List.mem_singleton_self _)
  refine ⟨rfl, rfl, rfl, ?_, ?_⟩
  · intro layout hlayout
    have hnone : currentLayouts st.snapshot (id, windowIdOf (i + 1)) = none := by
      by_contra hsome
      have ⟨l, hl⟩ := Option.ne_none_iff_exists'.mp hsome
      have ⟨s, hs, w, _, hkey⟩ := exists_window_of_currentLayouts hl
      exact (hunclaimed s hs).1 (Prod.mk.inj hkey).1.symm
    have hinj : Set.InjOn newId {pane | pane ∈ layout.leaves} := by
      rw [← hnewId]
      apply (injOn_newPaneId st (savedPaneIds snapshot.windows)).mono
      intro pane hpane
      have ⟨saved, hsaved, heq⟩ := List.mem_map.mp
        (((hsound.window window hwindow).mem_leaves layout hlayout pane).mp hpane)
      exact List.mem_map.mpr ⟨saved, List.mem_flatMap.mpr ⟨window, hwindow, hsaved⟩, heq⟩
    have ⟨tree, htree, hlaid⟩ := @normalized_of_saved newId st.snapshot
      (st.withRestored id tag snapshot) (.restoreSession id tag snapshot) _
      (restoredSession newId id tag snapshot) i window layout rfl hnone
      (hsound.window window hwindow) hlayout (nodup_paneIds hok hsession hmem) hinj
    have hfound := layOut_eq_ok (nodup_keys hok) (fun _ _ ↦ rfl) hlayouts _
      (mem_snapshotWindows hsession hmem)
    exact ⟨tree, htree, Except.ok.inj (hfound.symm.trans hlaid)⟩
  · intro _
    have ⟨tree, htree, _, _, hperm⟩ := hagrees _ (List.mem_map_of_mem hsession) _
      (List.mem_map_of_mem hmem)
    exact ⟨tree, htree, hperm⟩

private theorem sessions_eq_of_others {sessions : List (NativeSession ℚ)}
    {session : NativeSession ℚ} (hfree : ∀ s ∈ sessions, s.id ≠ id) (hid : session.id = id)
    (hothers : ((sessions ++ [session]).map (laidOut layouts)).filter (·.id != id) =
      sessions.filter (·.id != id)) :
    (sessions ++ [session]).map (laidOut layouts) = sessions ++ [laidOut layouts session] := by
  have hkept : sessions.filter (·.id != id) = sessions :=
    List.filter_eq_self.mpr fun s hs ↦ bne_iff_ne.mpr (hfree s hs)
  have hlaid : (sessions.map (laidOut layouts)).filter (·.id != id) =
      sessions.map (laidOut layouts) := by
    apply List.filter_eq_self.mpr
    intro s hs
    have ⟨before, hbefore, heq⟩ := List.mem_map.mp hs
    rw [← heq]
    exact bne_iff_ne.mpr (hfree before hbefore)
  have hnew : [laidOut layouts session].filter (·.id != id) = [] := by
    apply List.filter_eq_nil_iff.mpr
    intro s hs
    rw [List.mem_singleton.mp hs]
    simpa [laidOut] using hid
  rw [List.map_append, List.map_singleton, List.filter_append, hlaid, hnew, List.append_nil,
    hkept] at hothers
  rw [List.map_append, List.map_singleton, hothers]

/-! ### Main results -/

/-- From a state with its invariants a checkpoint that passed is restored in its shape. -/
theorem execute_restoreSession (hi : st.Invariant) (ha : st.Agrees)
    (hvalid : snapshot.validate host = .ok ()) (hidentity : tag.identity = some snapshot.sessionId)
    (hspace : tag.space.isSome) (hunclaimed : st.Unclaimed id tag)
    (hroom : st.nextPane + savedCount snapshot.windows ≤ u64Max) :
    ∃ st' session, st.execute host (.restoreSession id tag snapshot) = .ok st' ∧
      st'.sessions = st.sessions ++ [session] ∧ session.id = id ∧ session.tag = tag ∧
      Restores (st.newPaneId (savedPaneIds snapshot.windows)) snapshot session := by
  have hsound := snapshot.sound_of_validate hvalid
  have hrestore := restoreSession_of_room hvalid hidentity hspace hunclaimed hroom
  have hchanged : st.executeTopology host (.restoreSession id tag snapshot) =
      .ok (st.withRestored id tag snapshot) := hrestore
  obtain ⟨_, hstep, _⟩ := restoreSession_step hrestore
  have hok := hstep.ok hi.topology
  obtain ⟨layouts, hlayouts, hagrees⟩ := updatedLayouts_isOk hi.topology ha hok
    (separates_of_executeTopology hchanged)
  have hexecute : st.execute host (.restoreSession id tag snapshot) =
      .ok ((st.withRestored id tag snapshot).withLayouts layouts) := by
    change st.executeAndLayOut host _ = _
    rw [executeAndLayOut, hchanged, ok_bind, hlayouts, ok_bind]
    rfl
  obtain ⟨_, _, _, _, _, _, hothers⟩ := execute_effect hi ha hexecute
  refine ⟨_, laidOut layouts (restoredSession (st.newPaneId (savedPaneIds snapshot.windows)) id tag
    snapshot), hexecute, ?_, rfl, rfl, ?_⟩
  · exact sessions_eq_of_others (fun s hs ↦ (hunclaimed s hs).1) rfl hothers
  · apply restores_laidOut hsound (injOn_newPaneId st _)
    · exact (hok.sessions _ (List.mem_append_right _ (List.mem_singleton_self _))).ids.nodup
    · intro window hwindow i hmem
      exact restoresWindow_of_layouts hsound hunclaimed hok hlayouts hagrees rfl hwindow hmem

private theorem newPaneId_notMem_of_prefix (generation : Nat) (ops : List (TopologyOp ℚ))
    (ids : List String) (pane : String) (i : Nat) :
    (run generation ops).newPaneId ids pane ∉ (run generation (ops.take i)).paneIds := by
  intro hmem
  have ⟨n, hn, hid⟩ := minted_of_prefix generation ops i _ hmem
  rw [newPaneId, generation_run] at hid
  have := paneIdOf_injective _ hid
  omega

/-- In every state of every run, a checkpoint that passed is restored in its shape under pane ids
that are new to the run, and the other sessions stay as they are. -/
theorem restoreSession_keeps_shape (generation : Nat) (ops : List (TopologyOp ℚ)) (host : Host)
    (id : String) (tag : MuxSessionTag) (snapshot : SavedTerminalSession ℚ)
    (hvalid : snapshot.validate host = .ok ()) (hidentity : tag.identity = some snapshot.sessionId)
    (hspace : tag.space.isSome) (hunclaimed : (run generation ops).Unclaimed id tag)
    (hroom : (run generation ops).nextPane + savedCount snapshot.windows ≤ u64Max) :
    ∃ st' session newId,
      (run generation ops).execute host (.restoreSession id tag snapshot) = .ok st' ∧
      st'.sessions = (run generation ops).sessions ++ [session] ∧
      session.id = id ∧ session.tag = tag ∧ Restores newId snapshot session ∧
      ∀ pane i, newId pane ∉ (run generation (ops.take i)).paneIds := by
  have ⟨st', session, hexecute, hsessions, hid, htag, hrestores⟩ :=
    execute_restoreSession (invariant_run generation ops) (agrees_run generation ops) hvalid
      hidentity hspace hunclaimed hroom
  exact ⟨st', session, _, hexecute, hsessions, hid, htag, hrestores,
    newPaneId_notMem_of_prefix generation ops _⟩

/-- A checkpoint of two windows, with a layout for the first of them. -/
def twoWindows : SavedTerminalSession ℚ :=
  { capturedAt := 0, sessionId := "x", backendId := "$1", activeWindowId := some "w2"
    windows :=
      [{ id := "w1", backendId := "@1", title := "edit", focusedPaneId := "p2"
         layout := some (.split .right [1, 3] [.pane "p1", .pane "p2"])
         panes := [⟨"p1", "%1", "/src", 80, 24, "", 0⟩, ⟨"p2", "%2", "/doc", 80, 24, "", 0⟩] },
       { id := "w2", backendId := "@2", title := "run", focusedPaneId := "p3", layout := none
         panes := [⟨"p3", "%3", "/src", 80, 24, "", 0⟩] }] }

private theorem validate_twoWindows : twoWindows.validate .plain = .ok () := by
  have ⟨_, h⟩ := exists_of_isOk (x := twoWindows.validate .plain) (by decide +kernel)
  exact h

/-- Two windows that are restored beside another session. -/
theorem restoreSession_keeps_shape_twoWindows :
    let ops : List (TopologyOp ℚ) := [.execute .plain (.createProjectSession "other" "/src" {} none)]
    ∃ st' session newId,
      (run 7 ops).execute .plain (.restoreSession "work" ⟨some "x", some "a"⟩ twoWindows) =
        .ok st' ∧
      st'.sessions = (run 7 ops).sessions ++ [session] ∧ Restores newId twoWindows session ∧
      newId "p1" ∉ (run 7 ops).paneIds := by
  intro ops
  have ⟨st', session, newId, hexecute, hsessions, _, _, hrestores, hfresh⟩ :=
    restoreSession_keeps_shape 7 ops .plain "work" ⟨some "x", some "a"⟩ twoWindows
      validate_twoWindows rfl rfl (by decide +kernel) (by decide +kernel)
  exact ⟨st', session, newId, hexecute, hsessions, hrestores, hfresh "p1" ops.length⟩

/-- An unused id is not enough: a session that already carries the identity in the space is not
restored a second time. -/
theorem not_restored_twice :
    ¬ ∀ (generation : Nat) (ops : List (TopologyOp ℚ)) (host : Host) (id : String)
        (tag : MuxSessionTag) (snapshot : SavedTerminalSession ℚ),
      snapshot.validate host = .ok () → tag.identity = some snapshot.sessionId →
        tag.space.isSome → (∀ s ∈ (run generation ops).sessions, s.id ≠ id ∧ s.name ≠ id) →
          (run generation ops).nextPane + savedCount snapshot.windows ≤ u64Max →
            ∃ st', (run generation ops).execute host (.restoreSession id tag snapshot) = .ok st' := by
  intro h
  have ⟨st', hst'⟩ := h 7
    [.execute .plain (.createProjectSession "other" "/src" ⟨some "x", some "a"⟩ none)] .plain
    "work" ⟨some "x", some "a"⟩ twoWindows validate_twoWindows rfl rfl (by decide +kernel)
    (by decide +kernel)
  have hisOk : (((run 7 [.execute .plain
      (.createProjectSession "other" "/src" ⟨some "x", some "a"⟩ none)]).execute .plain
        (.restoreSession "work" ⟨some "x", some "a"⟩ twoWindows)).isOk) = false := by
    decide +kernel
  rw [hst'] at hisOk
  cases hisOk

end NativeMuxState
end Bootty.Mux.Native
