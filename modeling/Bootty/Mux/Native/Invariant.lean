import Bootty.Mux.Native.Shape

/-!
# The invariant over whole runs

`execute` (`native/state.rs:891–1082`) is a topology step followed by the layout rewrite.
Every operation of the server keeps the topology invariant together with `Shown`: each
window's layout shows exactly its panes. Directional navigation relies on the latter.
-/

namespace Bootty.Mux.Native

open Bootty.Base

variable {K : Type}

namespace NativeMuxState

/-! ### The effect of a command -/

/-- The panes a command adds and removes. -/
def CommandEffect (st : NativeMuxState K) (command : MuxCommand K)
    (added removed : Multiset NativePane) : Prop :=
  match command with
  | .splitPane _ _ _ | .createPane _ _ _ _ _ => removed = 0 ∧ ∃ pane, added = {pane}
  | .newWindow s _ _ =>
    removed = 0 ∧ (s ∉ st.sessionIds ∧ added = 0 ∨ s ∈ st.sessionIds ∧ ∃ pane, added = {pane})
  | .createProjectSession s _ _ _ =>
    removed = 0 ∧ (s ∈ st.sessionIds ∧ added = 0 ∨ s ∉ st.sessionIds ∧ ∃ pane, added = {pane})
  | .restoreSession _ _ snapshot =>
    removed = 0 ∧
      added.map (·.cwd) = ((snapshot.windows.flatMap (·.panes)).map (·.cwd) : List String)
  | .closePane s pane | .killPane s pane =>
    added = 0 ∧ (removed = 0 ∨ ∃ session target, st.session? s = some session ∧
      Targets session pane target ∧ removed = {target})
  | .ditchSession s => added = 0 ∧ removed = (st.session? s).elim 0 (·.panes)
  | _ => added = 0 ∧ removed = 0

private theorem mem_sessionIds_of_session? {st : NativeMuxState K} {id : String}
    {s : NativeSession K}
    (h : st.session? id = some s) : id ∈ st.sessionIds :=
  List.mem_map.mpr ⟨s, List.mem_of_find?_eq_some h, by simpa using List.find?_some h⟩

private theorem notMem_sessionIds_of_session? {st : NativeMuxState K} {id : String}
    (h : st.session? id = none) : id ∉ st.sessionIds := by
  intro hmem
  obtain ⟨s, hs, hid⟩ := List.mem_map.mp hmem
  exact List.find?_eq_none.mp h s hs (by simpa using hid)

variable {host : Host} {command : MuxCommand K}

/-- Every successful topology change is a step on the addressed session with the effect of
its command. -/
theorem executeTopology_step [Scalar K] {st st' : NativeMuxState K} (hok : TopologyOk st)
    (hfit : st.LayoutsFit) (h : st.executeTopology host command = .ok st') :
    ∃ added removed, st.CommandEffect command added removed ∧
      TopologyStep (st.addressed command) added removed st st' := by
  cases command with
  | resizePanes => simp [executeTopology] at h
  | activatePane s w p => exact ⟨0, 0, ⟨rfl, rfl⟩, (rearranged_activatePane hok.sessionIds h).toStep⟩
  | activateWindow s w =>
    obtain rfl := Except.ok.inj h
    exact ⟨0, 0, ⟨rfl, rfl⟩, (rearranged_activateWindow st s w).toStep⟩
  | restoreSession s tag snapshot =>
    obtain ⟨added, hstep, hcwds⟩ := restoreSession_step h
    exact ⟨added, 0, ⟨rfl, hcwds⟩, hstep⟩
  | createPane s pane direction cwd argv =>
    simp only [executeTopology, bind_eq_ok] at h
    obtain ⟨st₁, hsplit, hcwd⟩ := h
    obtain ⟨_, _, -, -, hstep⟩ := createPane_step hsplit hcwd
    exact ⟨_, 0, ⟨rfl, _, rfl⟩, hstep⟩
  | newWindow s cwd argv =>
    rcases newWindow_step h with ⟨absent, hstep⟩ | ⟨session, found, hstep⟩
    · exact ⟨0, 0, ⟨rfl, .inl ⟨notMem_sessionIds_of_session? absent, rfl⟩⟩, hstep⟩
    · exact ⟨_, 0, ⟨rfl, .inr ⟨mem_sessionIds_of_session? found, _, rfl⟩⟩, hstep⟩
  | renameWindow s w name =>
    obtain rfl := Except.ok.inj h
    exact ⟨0, 0, ⟨rfl, rfl⟩, (rearranged_renameWindow host st s w name).toStep⟩
  | activateNextWindow s =>
    obtain rfl := Except.ok.inj h
    exact ⟨0, 0, ⟨rfl, rfl⟩, (rearranged_activateRelativeWindow st s 1).toStep⟩
  | activatePreviousWindow s =>
    obtain rfl := Except.ok.inj h
    exact ⟨0, 0, ⟨rfl, rfl⟩, (rearranged_activateRelativeWindow st s (-1)).toStep⟩
  | activateLastWindow s =>
    obtain rfl := Except.ok.inj h
    exact ⟨0, 0, ⟨rfl, rfl⟩, (rearranged_activateRelativeWindow st s (-1)).toStep⟩
  | activateWindowIndex s index =>
    obtain rfl := Except.ok.inj h
    exact ⟨0, 0, ⟨rfl, rfl⟩, (rearranged_activateWindowIndex st s index).toStep⟩
  | moveWindow s w delta =>
    obtain rfl := Except.ok.inj h
    exact ⟨0, 0, ⟨rfl, rfl⟩, (rearranged_moveWindow st s w delta).toStep⟩
  | moveWindowPreservingSelection s w delta selected =>
    obtain rfl := Except.ok.inj h
    exact ⟨0, 0, ⟨rfl, rfl⟩,
      (rearranged_moveWindowPreservingSelection st s w delta selected).toStep⟩
  | splitPane s pane direction =>
    obtain ⟨_, _, -, -, hstep⟩ := splitPane_step h
    exact ⟨_, 0, ⟨rfl, _, rfl⟩, hstep⟩
  | mergeWindows s source target =>
    exact ⟨0, 0, ⟨rfl, rfl⟩, (rearranged_editSession (fun _ _ ↦ mergeWindowsIn_step) h).toStep⟩
  | swapPanes s source target =>
    exact ⟨0, 0, ⟨rfl, rfl⟩, (rearranged_editSession (fun _ _ ↦ swapPanesIn_step) h).toStep⟩
  | movePane s pane target direction =>
    exact ⟨0, 0, ⟨rfl, rfl⟩, (rearranged_editSession (fun _ _ ↦ movePaneIn_step) h).toStep⟩
  | extractPane s pane =>
    exact ⟨0, 0, ⟨rfl, rfl⟩, (rearranged_editSession (fun _ _ ↦ extractPaneIn_step) h).toStep⟩
  | selectPane s w direction =>
    obtain rfl := Except.ok.inj h
    exact ⟨0, 0, ⟨rfl, rfl⟩, (rearranged_selectDirectionalPane hfit s w direction).toStep⟩
  | selectNextPane s w =>
    obtain rfl := Except.ok.inj h
    exact ⟨0, 0, ⟨rfl, rfl⟩, (rearranged_selectPane st s w 1).toStep⟩
  | selectPreviousPane s w =>
    obtain rfl := Except.ok.inj h
    exact ⟨0, 0, ⟨rfl, rfl⟩, (rearranged_selectPane st s w (-1)).toStep⟩
  | killPane s pane =>
    obtain ⟨session, found, ⟨rfl, -⟩ | ⟨target, ht, hstep⟩⟩ := closePane_step hok h
    · exact ⟨0, 0, ⟨rfl, .inl rfl⟩, .keep (Nat.le_refl _)⟩
    · exact ⟨0, _, ⟨rfl, .inr ⟨session, target, found, ht, rfl⟩⟩, hstep⟩
  | closePane s pane =>
    obtain ⟨session, found, ⟨rfl, -⟩ | ⟨target, ht, hstep⟩⟩ := closePane_step hok h
    · exact ⟨0, 0, ⟨rfl, .inl rfl⟩, .keep (Nat.le_refl _)⟩
    · exact ⟨0, _, ⟨rfl, .inr ⟨session, target, found, ht, rfl⟩⟩, hstep⟩
  | createProjectSession s cwd tag argv =>
    simp only [executeTopology, bind_eq_ok, ensure_eq_ok] at h
    obtain ⟨_, -, h⟩ := h
    rcases ensureSession_step h with ⟨⟨session, found⟩, hstep⟩ | ⟨absent, hstep⟩
    · exact ⟨0, 0, ⟨rfl, .inl ⟨mem_sessionIds_of_session? found, rfl⟩⟩, hstep⟩
    · exact ⟨_, 0, ⟨rfl, .inr ⟨notMem_sessionIds_of_session? absent, _, rfl⟩⟩, hstep⟩
  | renameSession s name =>
    obtain rfl := Except.ok.inj h
    exact ⟨0, 0, ⟨rfl, rfl⟩, (rearranged_renameSession st s name).toStep⟩
  | ditchSession s =>
    obtain rfl := Except.ok.inj h
    refine ⟨0, _, ⟨rfl, rfl⟩, ?_⟩
    rw [← sum_filter_panes hok.sessionIds]
    exact killSession_step st s
  | stampSession s tag =>
    obtain rfl := Except.ok.inj h
    exact ⟨0, 0, ⟨rfl, rfl⟩, (rearranged_stampSession st s tag).toStep⟩

/-! ### Layouts show the panes -/

variable {pane cwd : String}

section Shown

variable {st st' : NativeMuxState K}

/-- After the rewrite every window shows its panes. -/
theorem shown_withLayouts [Scalar K] {before : MuxSnapshot K}
    {layouts : LayoutMap (MuxPaneLayout K)} (hok : TopologyOk st)
    (h : updatedLayouts before st.snapshot command = .ok layouts) :
    (st.withLayouts layouts).Shown := by
  simp only [updatedLayouts, bind_eq_ok] at h
  obtain ⟨rearranged, -, h⟩ := h
  intro s hs w hw
  obtain ⟨s₀, hs₀, rfl⟩ := List.mem_map.mp hs
  obtain ⟨w₀, hw₀, rfl⟩ := List.mem_map.mp hw
  have hfocused := (hok.sessions s₀ hs₀).focused w₀ hw₀
  have hone := layOut_eq_ok (nodup_keys hok) (fun _ _ ↦ rfl) h _ (mem_snapshotWindows hs₀ hw₀)
  obtain ⟨tree, htree, hperm⟩ := windowLayout_perm (snapshotWindow_ids st s₀ w₀)
    (paneIds_ne_nil hfocused) (nodup_paneIds hok hs₀ hw₀) hone
  exact ⟨tree, htree, hperm⟩

/-- A directory is written without touching a layout or a pane id. -/
theorem display_setCwdOf {s' : NativeSession K} {w' : NativeWindow K}
    (hs' : s' ∈ (st.setCwdOf pane cwd).sessions) (hw' : w' ∈ s'.windows) :
    ∃ s ∈ st.sessions, ∃ w ∈ s.windows, w'.layout = w.layout ∧ w'.paneIds = w.paneIds := by
  rcases mem_modifyFirst hs' with hs' | ⟨s, hs, -, rfl⟩
  · exact ⟨s', hs', w', hw', rfl, rfl⟩
  · rcases mem_modifyFirst hw' with hw' | ⟨w, hw, -, rfl⟩
    · exact ⟨s, hs, w', hw', rfl, rfl⟩
    · refine ⟨s, hs, w, hw, rfl, ?_⟩
      apply map_modifyFirst
      intro p
      rfl

private theorem Shown.setPaneCwd (hs : st.Shown) (h : st.setPaneCwd pane cwd = .ok st') :
    st'.Shown := by
  simp only [NativeMuxState.setPaneCwd, bind_eq_ok, pure_eq_ok] at h
  obtain ⟨_, -, rfl⟩ := h
  intro s' hs' w' hw'
  obtain ⟨s, hmem, w, hw, hlayout, hids⟩ := display_setCwdOf hs' hw'
  rw [hlayout, hids]
  exact hs s hmem w hw

/-- A layout that is set is shown. -/
theorem Shown.setLayout [Scalar K] {session window : String} {layout : MuxPaneLayout K}
    (hok : TopologyOk st) (hs : st.Shown) (h : st.setLayout session window layout = .ok st') :
    st'.Shown := by
  simp only [NativeMuxState.setLayout, bind_eq_ok, context_eq_ok, ensure_eq_ok, pure_eq_ok] at h
  obtain ⟨w, hw, l, -, _, hcheck, rfl⟩ := h
  obtain ⟨s, found, hfind⟩ := Option.bind_eq_some_iff.mp hw
  have hperm : l.snapshot.leaves.Perm w.paneIds := by
    refine perm_of_check (nodup_paneIds hok (List.mem_of_find?_eq_some found)
      (List.mem_of_find?_eq_some hfind)) ?_
    rw [Bool.and_eq_true, beq_iff_eq] at hcheck ⊢
    exact ⟨hcheck.1.symm, hcheck.2⟩
  intro s' hs' w' hw'
  rw [modifyWindow, modifySession, modifyFirst_const found, modifyFirst_const hfind] at hs'
  rcases mem_modifyFirst hs' with hs' | ⟨_, -, -, rfl⟩
  · exact hs s' hs' w' hw'
  · rcases mem_modifyFirst hw' with hw' | ⟨_, -, -, rfl⟩
    · exact hs s (List.mem_of_find?_eq_some found) w' hw'
    · exact ⟨_, rfl, hperm⟩

end Shown

/-! ### Runs -/

/-- What every operation keeps. -/
structure Invariant (st : NativeMuxState K) : Prop where
  topology : TopologyOk st
  shown : st.Shown

theorem invariant_new (generation : Nat) : (new generation : NativeMuxState K).Invariant :=
  ⟨topologyOk_new generation, by simp [Shown, new]⟩

section Operations

variable [Scalar K] {st st' : NativeMuxState K}

private theorem Invariant.executeAndLayOut (hi : st.Invariant)
    (h : st.executeAndLayOut host command = .ok st') : st'.Invariant := by
  simp only [NativeMuxState.executeAndLayOut, bind_eq_ok, pure_eq_ok] at h
  obtain ⟨changed, hchanged, layouts, hlayouts, rfl⟩ := h
  obtain ⟨_, _, -, hstep⟩ := executeTopology_step hi.topology hi.shown.layoutsFit hchanged
  have hok := hstep.ok hi.topology
  exact ⟨(sameShape_withLayouts changed layouts).ok hok, shown_withLayouts hok hlayouts⟩

theorem Invariant.setLayout {session window : String} {layout : MuxPaneLayout K}
    (hi : st.Invariant) (h : st.setLayout session window layout = .ok st') : st'.Invariant :=
  ⟨(sameShape_setLayout h).ok hi.topology, hi.shown.setLayout hi.topology h⟩

omit [Scalar K] in
/-- A directory changes no topology. -/
theorem Invariant.setPaneCwd (hi : st.Invariant) (h : st.setPaneCwd pane cwd = .ok st') :
    st'.Invariant :=
  ⟨(sameShape_setPaneCwd h).ok hi.topology, hi.shown.setPaneCwd h⟩

/-- `execute` is a resize, which proposes a layout, or a topology change laid out. -/
theorem execute_cases (h : st.execute host command = .ok st') :
    (∃ s w layout proposed, command = .resizePanes s w layout ∧
        st.setLayout s w proposed = .ok st') ∨
      st.executeAndLayOut host command = .ok st' := by
  unfold execute at h
  split at h
  · next s w layout =>
    obtain ⟨proposed, h⟩ := setLayout_of_resizePanes h
    exact .inl ⟨s, w, layout, proposed, rfl, h⟩
  · exact .inr h

/-- A command keeps the invariant. -/
theorem Invariant.execute (hi : st.Invariant) (h : st.execute host command = .ok st') :
    st'.Invariant := by
  rcases execute_cases h with ⟨_, _, _, _, -, h⟩ | h
  · exact hi.setLayout h
  · exact hi.executeAndLayOut h

private theorem Invariant.apply {op : TopologyOp K} (hi : st.Invariant)
    (h : st.apply op = .ok st') :
    st'.Invariant := by
  cases op with
  | execute host command => exact hi.execute h
  | setLayout s w layout => exact hi.setLayout h
  | setPaneCwd pane cwd => exact hi.setPaneCwd h

private theorem Invariant.step (hi : st.Invariant) (op : TopologyOp K) :
    (st.step op).Invariant := by
  unfold NativeMuxState.step
  split
  · next h => exact hi.apply h
  · exact hi

/-- Every state of every run satisfies the invariant. -/
theorem invariant_run (generation : Nat) (ops : List (TopologyOp K)) :
    (run generation ops).Invariant := by
  induction ops using List.reverseRecOn with
  | nil => exact invariant_new generation
  | append_singleton ops op ih => simpa using ih.step op

end Operations

/-- The topology invariant as the server's clients see it. -/
structure WellFormed (st : NativeMuxState K) : Prop where
  sessionIds : (st.sessions.map (·.id)).Nodup
  windowIds : ∀ s ∈ st.sessions, (s.windows.map (·.id)).Nodup
  paneIds : ((st.sessions.flatMap fun s ↦ s.windows.flatMap (·.panes)).map (·.id)).Nodup
  hasWindow : ∀ s ∈ st.sessions, s.windows ≠ []
  hasPane : ∀ s ∈ st.sessions, ∀ w ∈ s.windows, w.panes ≠ []
  activeWindow : ∀ s ∈ st.sessions, s.activeWindowId ∈ s.windows.map (·.id)
  activePane : ∀ s ∈ st.sessions, ∀ w ∈ s.windows, w.activePaneId ∈ w.panes.map (·.id)
  index : ∀ s ∈ st.sessions, s.windows.length < 2 ^ 32 →
    ∀ i w, s.windows[i]? = some w → w.index = i + 1
  noSession : st.sessions = [] → st.activeSessionId = ""
  activeSession : st.sessions ≠ [] → st.activeSessionId ∈ st.sessions.map (·.id)

theorem coe_flatMap_panes (st : NativeMuxState K) :
    ((st.sessions.flatMap fun s ↦ s.windows.flatMap (·.panes) : List NativePane) :
      Multiset NativePane) = st.panes := by
  simp only [panes, NativeSession.panes, panesOf, coe_flatMap]

private theorem wellFormed_of_topologyOk {st : NativeMuxState K} (h : TopologyOk st) :
    st.WellFormed where
  sessionIds := h.sessionIds
  windowIds := fun s hs ↦ (h.sessions s hs).ids.nodup
  paneIds := by
    rw [← Multiset.coe_nodup, ← Multiset.map_coe, coe_flatMap_panes]
    exact h.paneIds
  hasWindow := fun s hs ↦ (h.sessions s hs).windows_ne_nil
  hasPane := fun s hs w hw h0 ↦
    paneIds_ne_nil ((h.sessions s hs).focused w hw) (by rw [NativeWindow.paneIds, h0]; rfl)
  activeWindow := fun s hs ↦ (h.sessions s hs).active
  activePane := fun s hs w hw ↦ (h.sessions s hs).focused w hw
  index := by
    intro s hs hlen i w hi
    have hlt : i < s.windows.length := (List.getElem?_eq_some_iff.mp hi).1
    rw [(h.sessions s hs).numbered i w hi, windowIndex, u32Max]
    omega
  noSession := fun h0 ↦ by
    have := h.selected
    rwa [Selected, if_pos h0] at this
  activeSession := fun h0 ↦ by
    have := h.selected
    rwa [Selected, if_neg h0] at this

/-- Whatever is asked of a fresh server, its topology stays well formed. -/
theorem wellFormed_run [Scalar K] (generation : Nat) (ops : List (TopologyOp K)) :
    (run generation ops).WellFormed :=
  wellFormed_of_topologyOk (invariant_run generation ops).topology

end NativeMuxState
end Bootty.Mux.Native
