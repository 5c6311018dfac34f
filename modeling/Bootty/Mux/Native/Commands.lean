import Bootty.Mux.Native.Topology
import Bootty.Mux.PaneLayoutOps

/-!
# The effect of each command

One law for each topology change of `native/state.rs`: it is a `TopologyStep` on the session
it addresses, with exactly the panes the command adds and removes.
-/

namespace Bootty.Mux.Native

open Bootty.Base

variable {K : Type}

/-! ### Edits of the addressed session -/

/-- The addressed session goes from `s` to `s'`, every counter stays, and the session may
be selected. -/
structure Edited (id : String) (added removed : Multiset NativePane) (st st' : NativeMuxState K)
    (s s' : NativeSession K) : Prop where
  found : st.session? id = some s
  step : SessionStep added removed s s'
  sessions : st'.sessions = modifyFirst (·.id == id) (fun _ ↦ s') st.sessions
  generation_eq : st'.generation = st.generation
  nextPane_eq : st'.nextPane = st.nextPane
  active : st'.activeSessionId = st.activeSessionId ∨ st'.activeSessionId = id

namespace Edited

variable {id : String} {a r a' r' : Multiset NativePane} {st t u : NativeMuxState K}
  {s s' s'' : NativeSession K}

private theorem modify (found : st.session? id = some s) (step : SessionStep a r s s') :
    Edited id a r st (st.modifySession id fun _ ↦ s') s s' :=
  ⟨found, step, rfl, rfl, rfl, .inl rfl⟩

private theorem select (h : Edited id a r st t s s') : Edited id a r st (t.withActive id) s s' :=
  ⟨h.found, h.step, h.sessions, h.generation_eq, h.nextPane_eq, .inr rfl⟩

private theorem session?_eq (h : Edited id a r st t s s') : t.session? id = some s' := by
  have hid : s.id = id := by simpa using List.find?_some h.found
  rw [NativeMuxState.session?, h.sessions]
  exact find?_modifyFirst h.found (by simpa using h.step.id_eq.trans hid)

private theorem trans (h : Edited id a r st t s s') {s₁ : NativeSession K}
    (h' : Edited id a' r' t u s₁ s'') : Edited id (a + a') (r + r') st u s s'' := by
  obtain rfl := Option.some.inj (h.session?_eq.symm.trans h'.found)
  have hid : s'.id = id := by simpa using List.find?_some h'.found
  refine ⟨h.found, h.step.trans h'.step, ?_, h'.generation_eq.trans h.generation_eq,
    h'.nextPane_eq.trans h.nextPane_eq, ?_⟩
  · rw [h'.sessions, h.sessions, modifyFirst_modifyFirst h.found (by simpa using hid)]
  · rcases h'.active with ha | ha
    · rw [ha]
      exact h.active
    · exact .inr ha

private theorem toStep (h : Edited id 0 r st t s s') : TopologyStep id 0 r st t :=
  .edit_keep h.found h.step h.sessions h.generation_eq h.nextPane_eq h.active

end Edited

/-- Nothing happens, or the addressed session is edited without a pane coming or going. -/
def Rearranged (id : String) (st st' : NativeMuxState K) : Prop :=
  st' = st ∨ ∃ s s', Edited id 0 0 st st' s s'

namespace Rearranged

variable {id : String} {st t u : NativeMuxState K}

/-- A rearrangement is a step without new panes. -/
theorem toStep (h : Rearranged id st t) : TopologyStep id 0 0 st t := by
  rcases h with rfl | ⟨s, s', h⟩
  · exact .keep (Nat.le_refl _)
  · exact h.toStep

private theorem trans (h : Rearranged id st t) (h' : Rearranged id t u) : Rearranged id st u := by
  rcases h with rfl | ⟨s, s', h⟩
  · exact h'
  · rcases h' with rfl | ⟨s₁, s'', h'⟩
    · exact .inr ⟨s, s', h⟩
    · exact .inr ⟨s, s'', by simpa using h.trans h'⟩

/-- Editing through `active_session_mut`, where a missing session is not edited. -/
theorem modifySession {f : NativeSession K → NativeSession K}
    (h : ∀ s, st.session? id = some s → SessionStep 0 0 s (f s)) :
    Rearranged id st (st.modifySession id f) := by
  cases hs : st.session? id with
  | none =>
    left
    rw [NativeMuxState.modifySession, modifyFirst_of_find?_eq_none hs]
  | some s =>
    right
    refine ⟨s, f s, ?_⟩
    have : st.modifySession id f = st.modifySession id fun _ ↦ f s := by
      rw [NativeMuxState.modifySession, modifyFirst_const hs]
      rfl
    rw [this]
    exact .modify hs (h s hs)

end Rearranged

namespace NativeMuxState

variable {st st' : NativeMuxState K} {id : String}

/-- Selecting the session after editing it. -/
theorem rearranged_modify_select {s : NativeSession K} {f : NativeSession K → NativeSession K}
    (found : st.session? id = some s) (h : SessionStep 0 0 s (f s)) :
    Rearranged id st ((st.modifySession id f).withActive id) := by
  have : st.modifySession id f = st.modifySession id fun _ ↦ f s := by
    rw [NativeMuxState.modifySession, modifyFirst_const found]
    rfl
  rw [this]
  exact .inr ⟨s, f s, (Edited.modify found h).select⟩

theorem rearranged_activateWindow (st : NativeMuxState K) (id window : String) :
    Rearranged id st (st.activateWindow id window) := by
  unfold activateWindow
  split
  · exact .inl rfl
  · next s found =>
    split
    · next hw =>
      refine rearranged_modify_select found (.of_activate ?_)
      obtain ⟨w, hw, hid⟩ := List.any_eq_true.mp hw
      exact List.mem_map.mpr ⟨w, hw, by simpa using hid⟩
    · exact .inl rfl

private theorem rearranged_activateGiven (st : NativeMuxState K) (id : String)
    (window : Option String) :
    Rearranged id st (st.activateGiven id window) := by
  cases window with
  | none => exact .inl rfl
  | some window => exact rearranged_activateWindow st id window

theorem rearranged_stampSession (st : NativeMuxState K) (id : String) (tag : MuxSessionTag) :
    Rearranged id st (st.stampSession id tag) :=
  .modifySession fun s _ ↦ .of_labels s s.name tag

theorem rearranged_renameSession (st : NativeMuxState K) (id name : String) :
    Rearranged id st (st.renameSession id name) :=
  .modifySession fun s _ ↦ .of_labels s name s.tag

private theorem step_modifyWindow {s : NativeSession K} {p : NativeWindow K → Bool}
    {f : NativeWindow K → NativeWindow K}
    (h : ∀ w, s.windows.find? p = some w → WindowStep 0 0 w (f w)) :
    SessionStep 0 0 s { s with windows := modifyFirst p f s.windows } := by
  cases hw : s.windows.find? p with
  | none =>
    rw [modifyFirst_of_find?_eq_none hw]
    exact .refl s
  | some w => exact .of_modifyFirst hw (h w hw)

theorem rearranged_renameWindow (host : Host) (st : NativeMuxState K) (id window name : String) :
    Rearranged id st (st.renameWindow host id window name) :=
  .modifySession fun _ _ ↦ step_modifyWindow fun _ _ ↦ ⟨rfl, rfl, rfl, fun h ↦ h⟩

theorem rearranged_activateRelativeWindow (st : NativeMuxState K) (id : String) (delta : Int) :
    Rearranged id st (st.activateRelativeWindow id delta) := by
  unfold activateRelativeWindow
  split
  · exact .inl rfl
  · next s found =>
    split
    · exact .inl rfl
    · split
      · exact .inl rfl
      · next next hnext =>
        refine rearranged_modify_select found (.of_activate ?_)
        obtain ⟨i, -, hi⟩ := Option.bind_eq_some_iff.mp hnext
        exact List.mem_map.mpr ⟨next, List.mem_of_getElem? hi, rfl⟩

theorem rearranged_activateWindowIndex (st : NativeMuxState K) (id : String) (index : Nat) :
    Rearranged id st (st.activateWindowIndex id index) := by
  unfold activateWindowIndex
  split
  · exact .inl rfl
  · next s found =>
    split
    · exact .inl rfl
    · next w hw =>
      refine rearranged_modify_select found (.of_activate ?_)
      exact List.mem_map.mpr ⟨w, List.mem_of_find?_eq_some hw, rfl⟩

theorem rearranged_moveWindow (st : NativeMuxState K) (id : String) (window : Option String)
    (delta : Int) : Rearranged id st (st.moveWindow id window delta) :=
  .modifySession fun s _ ↦ moveWindowIn_step s window delta

theorem rearranged_moveWindowPreservingSelection (st : NativeMuxState K) (id window : String)
    (delta : Int) (selected : String) :
    Rearranged id st (st.moveWindowPreservingSelection id window delta selected) :=
  (rearranged_moveWindow st id (some window) delta).trans (rearranged_activateWindow _ id selected)

theorem rearranged_editSession {edit : NativeSession K → Except String (NativeSession K)}
    (hedit : ∀ s s', edit s = .ok s' → SessionStep 0 0 s s')
    (h : st.editSession id edit = .ok st') : Rearranged id st st' := by
  simp only [editSession, bind_eq_ok, context_eq_ok, pure_eq_ok] at h
  obtain ⟨s, found, s', he, rfl⟩ := h
  exact .inr ⟨s, s', (Edited.modify found (hedit s s' he)).select⟩

/-! ### Focus inside a window -/

private theorem rearranged_focus {w : NativeWindow K} {pane : String}
    (hw : st.activeWindow? id = some w) (hp : pane ∈ w.paneIds) :
    Rearranged id st ((st.modifyActiveWindow id fun window ↦
      { window with activePaneId := pane }).withActive id) := by
  obtain ⟨s, found, hw⟩ := Option.bind_eq_some_iff.mp hw
  exact rearranged_modify_select found (.of_modifyFirst hw ⟨rfl, rfl, rfl, fun _ ↦ hp⟩)

private theorem rearranged_selectRelativePane (st : NativeMuxState K) (id : String) (delta : Int) :
    Rearranged id st (st.selectRelativePane id delta) := by
  unfold selectRelativePane
  split
  · exact .inl rfl
  · next w hw =>
    split
    · exact .inl rfl
    · split
      · exact .inl rfl
      · next next hnext =>
        obtain ⟨i, -, hi⟩ := Option.bind_eq_some_iff.mp hnext
        exact rearranged_focus hw (List.mem_map_of_mem (List.mem_of_getElem? hi))

theorem rearranged_selectPane (st : NativeMuxState K) (id : String) (window : Option String)
    (delta : Int) : Rearranged id st (st.selectPane id window delta) :=
  (rearranged_activateGiven st id window).trans (rearranged_selectRelativePane _ id delta)

/-- No layout names a pane its window does not have. -/
def LayoutsFit (st : NativeMuxState K) : Prop :=
  ∀ windows ∈ st.sessions.map (·.windows), ∀ w ∈ windows, ∀ layout ∈ w.layout,
    ∀ p ∈ layout.leaves, p ∈ w.paneIds

private theorem layoutsFit_activateWindow (h : st.LayoutsFit) (window : String) :
    (st.activateWindow id window).LayoutsFit := by
  unfold activateWindow
  split
  · exact h
  · split
    · intro windows hw
      have hwindows : (modifyFirst (·.id == id)
          (fun s : NativeSession K ↦ { s with activeWindowId := window }) st.sessions).map
            (·.windows) = st.sessions.map (·.windows) := by
        apply map_modifyFirst
        intro
        rfl
      exact h windows (hwindows ▸ hw)
    · exact h

private theorem layoutsFit_activateGiven (h : st.LayoutsFit) (window : Option String) :
    (st.activateGiven id window).LayoutsFit := by
  cases window with
  | none => exact h
  | some window => exact layoutsFit_activateWindow h window

/-- Navigation lands on a live pane as long as the layouts fit. -/
theorem rearranged_selectDirectionalPane [Scalar K] (hfit : st.LayoutsFit) (id : String)
    (window : Option String) (direction : MuxDirection) :
    Rearranged id st (st.selectDirectionalPane id window direction) := by
  have hfit' : (st.activateGiven id window).LayoutsFit := layoutsFit_activateGiven hfit window
  refine (rearranged_activateGiven st id window).trans ?_
  simp only [selectDirectionalPane]
  split
  · exact .inl rfl
  · next w hw =>
    split
    · exact .inl rfl
    · next layout hlayout =>
      split
      · exact .inl rfl
      · next pane hpane =>
        refine rearranged_focus hw ?_
        obtain ⟨tree, htree, hl⟩ := Option.bind_eq_some_iff.mp hlayout
        obtain ⟨s, found, hw⟩ := Option.bind_eq_some_iff.mp hw
        have hmem := PaneLayout.neighbor_mem hpane
        rw [(PaneLayout.fromMuxLayout_eq_some hl).2.1] at hmem
        exact hfit' s.windows (List.mem_map_of_mem (List.mem_of_find?_eq_some found)) w
          (List.mem_of_find?_eq_some hw) tree htree pane hmem

/-! ### Panes that come -/

/-- How an id is minted. -/
theorem nextPaneId_eq_ok {paneId : String} (h : st.nextPaneId = .ok (paneId, st')) :
    paneId = paneIdOf st.generation st.nextPane ∧
      st' = { st with nextPane := st.nextPane + 1 } := by
  simp only [nextPaneId, bind_eq_ok, ensure_eq_ok, pure_eq_ok, Prod.mk.injEq] at h
  obtain ⟨-, -, rfl, rfl⟩ := h
  exact ⟨rfl, rfl⟩

private theorem topologyStep_of_minted {dir : String} {s s' : NativeSession K}
    (h : Edited id {⟨paneIdOf st.generation st.nextPane, dir⟩} 0
      { st with nextPane := st.nextPane + 1 } st' s s') :
    TopologyStep id {⟨paneIdOf st.generation st.nextPane, dir⟩} 0 st st' := by
  have hc : st'.nextPane = st.nextPane + 1 := h.nextPane_eq
  refine .edit h.found h.step h.sessions h.generation_eq (by omega) h.active ?_ (by simp)
  intro pane hp
  rw [Multiset.mem_singleton] at hp
  exact ⟨st.nextPane, Nat.le_refl _, by omega, by rw [hp]⟩

/-- A new tab adds one pane to an existing session and nothing otherwise. -/
theorem newWindow_step {host : Host} {cwd : Option String}
    (h : st.newWindow host id cwd = .ok st') :
    (st.session? id = none ∧ TopologyStep id 0 0 st st') ∨
      ∃ s, st.session? id = some s ∧
        TopologyStep id {⟨paneIdOf st.generation st.nextPane, cwd.getD (inheritedCwd s)⟩} 0
          st st' := by
  simp only [newWindow, bind_eq_ok, Prod.exists] at h
  obtain ⟨paneId, st₁, hmint, h⟩ := h
  obtain ⟨rfl, rfl⟩ := nextPaneId_eq_ok hmint
  split at h
  · next absent =>
    obtain rfl := pure_eq_ok.mp h
    exact .inl ⟨absent, .keep (Nat.le_succ _)⟩
  · next s found =>
    simp only [bind_eq_ok, pure_eq_ok] at h
    obtain ⟨s', hnew, rfl⟩ := h
    exact .inr ⟨s, found, topologyStep_of_minted (Edited.modify found (newWindowIn_step hnew)).select⟩

/-- Selecting a tab that exists. -/
theorem activateWindow_eq {s : NativeSession K} {window : String}
    (found : st.session? id = some s) (h : window ∈ s.windowIds) :
    st.activateWindow id window =
      (st.modifySession id fun _ ↦ { s with activeWindowId := window }).withActive id := by
  have hany : s.windows.any (·.id == window) = true := by
    obtain ⟨w, hw, rfl⟩ := List.mem_map.mp h
    exact List.any_eq_true.mpr ⟨w, hw, by simp⟩
  simp only [activateWindow, found, hany, if_true]
  rw [modifySession, modifyFirst_const found]
  rfl

variable {source : Option String}

private theorem splitPane_edited (h : st.splitPane id source = .ok st') :
    ∃ pane s s', Targets s source pane ∧ st.session? id = some s ∧
      Edited id {⟨paneIdOf st.generation st.nextPane, pane.cwd⟩} 0
        { st with nextPane := st.nextPane + 1 } st' s s' ∧
      ∃ w front, st'.activeWindow? id = some w ∧
        w.panes = front ++ [⟨paneIdOf st.generation st.nextPane, pane.cwd⟩] := by
  simp only [splitPane, bind_eq_ok, context_eq_ok, pure_eq_ok, Prod.exists] at h
  obtain ⟨s, found, i, p, hl, window, hw, pane, hp, paneId, st₁, hmint, first, hfirst, rfl⟩ := h
  obtain ⟨rfl, rfl⟩ := nextPaneId_eq_ok hmint
  obtain ⟨window', pane', hw', hp', ht⟩ := targetPaneLocation_eq_ok hl
  obtain rfl := Option.some.inj (hw.symm.trans hw')
  obtain rfl := Option.some.inj (hp.symm.trans hp')
  set new : NativePane := ⟨paneIdOf st.generation st.nextPane, pane.cwd⟩ with hnew
  set st₁ : NativeMuxState K := { st with nextPane := st.nextPane + 1 } with hst₁
  set f : NativeWindow K → NativeWindow K := fun w ↦
    { w with activePaneId := new.id, panes := w.panes ++ [new] } with hf
  have found₁ : st₁.session? id = some s := found
  have hfind : s.windows.find? (·.id == window.id) = some first := by
    simpa [window?, found₁] using hfirst
  have hfid : first.id = window.id := by simpa using List.find?_some hfind
  set s₁ : NativeSession K :=
    { s with windows := modifyFirst (·.id == window.id) f s.windows } with hs₁
  have hfind₁ : s₁.windows.find? (·.id == window.id) = some (f first) :=
    find?_modifyFirst hfind (by simpa [hf] using hfid)
  have hstep : SessionStep {new} 0 s s₁ := by
    refine .of_modifyFirst hfind ⟨rfl, rfl, ?_, fun _ ↦ ?_⟩
    · simp [hf, ← Multiset.coe_add]
    · simp [hf, NativeWindow.Focused, NativeWindow.paneIds]
  have hmod : st₁.modifyWindow id window.id f = st₁.modifySession id fun _ ↦ s₁ := by
    rw [modifyWindow, modifySession, modifyFirst_const found₁]
    rfl
  have hedit := Edited.modify found₁ hstep
  rw [← hmod] at hedit
  have hmem : window.id ∈ s₁.windowIds :=
    List.mem_map.mpr ⟨f first, List.mem_of_find?_eq_some hfind₁, hfid⟩
  have hactivate := activateWindow_eq hedit.session?_eq hmem
  have hall := hedit.trans (Edited.modify hedit.session?_eq (.of_activate hmem)).select
  rw [add_zero, add_zero] at hall
  refine ⟨pane, s, _, ht, found, by rw [hactivate]; exact hall, f first, first.panes, ?_, rfl⟩
  rw [activeWindow?, hactivate, hall.session?_eq]
  exact hfind₁

/-- What a split does. -/
theorem splitPane_step (h : st.splitPane id source = .ok st') :
    ∃ pane s, st.session? id = some s ∧ Targets s source pane ∧
      TopologyStep id {⟨paneIdOf st.generation st.nextPane, pane.cwd⟩} 0 st st' := by
  obtain ⟨pane, s, s', ht, found, hedit, -⟩ := splitPane_edited h
  exact ⟨pane, s, found, ht, topologyStep_of_minted hedit⟩

private theorem modify_last (front : List NativePane) (old : NativePane)
    (f : NativePane → NativePane) :
    (front ++ [old]).modify ((front ++ [old]).length - 1) f = front ++ [f old] := by
  rw [show (front ++ [old]).length - 1 = front.length by simp]
  induction front with
  | nil => rfl
  | cons x xs ih => simpa using ih

/-- A created pane is a split pane whose directory may be overwritten. -/
theorem createPane_step {cwd : Option String} {st₁ : NativeMuxState K}
    (h : st.splitPane id source = .ok st₁) (h' : st₁.setCreatedCwd id cwd = .ok st') :
    ∃ pane s, st.session? id = some s ∧ Targets s source pane ∧
      TopologyStep id {⟨paneIdOf st.generation st.nextPane, cwd.getD pane.cwd⟩} 0 st st' := by
  obtain ⟨pane, s, s₁, ht, found, hedit, w, front, hw, hpanes⟩ := splitPane_edited h
  refine ⟨pane, s, found, ht, ?_⟩
  cases cwd with
  | none =>
    obtain rfl := Except.ok.inj h'
    exact topologyStep_of_minted hedit
  | some dir =>
    simp only [setCreatedCwd, bind_eq_ok, context_eq_ok, pure_eq_ok] at h'
    obtain ⟨_, -, _, -, rfl⟩ := h'
    obtain ⟨s₂, found₂, hfind⟩ := Option.bind_eq_some_iff.mp hw
    obtain rfl := Option.some.inj (hedit.session?_eq.symm.trans found₂)
    set f : NativeWindow K → NativeWindow K := fun w ↦ { w with
      panes := w.panes.modify (w.panes.length - 1) fun pane ↦ { pane with cwd := dir } } with hf
    have hstep : SessionStep {⟨paneIdOf st.generation st.nextPane, dir⟩}
        {⟨paneIdOf st.generation st.nextPane, pane.cwd⟩} s₁
        { s₁ with windows := modifyFirst (·.id == s₁.activeWindowId) f s₁.windows } := by
      refine .of_modifyFirst hfind ⟨rfl, rfl, ?_, fun hfoc ↦ ?_⟩
      · simp only [hf, hpanes, modify_last, ← Multiset.coe_add, Multiset.coe_singleton]
        abel
      · have hids : (f w).paneIds = w.paneIds := by
          simp only [hf, NativeWindow.paneIds, hpanes, modify_last, List.map_append, List.map_cons,
            List.map_nil]
        rw [NativeWindow.Focused, hids]
        exact hfoc
    have hmod : st₁.modifyActiveWindow id f = st₁.modifySession id fun _ ↦
        { s₁ with windows := modifyFirst (·.id == s₁.activeWindowId) f s₁.windows } := by
      rw [modifyActiveWindow, modifySession, modifyFirst_const found₂]
      rfl
    have hall := hedit.trans (Edited.modify found₂ hstep)
    rw [← hmod] at hall
    -- The pane with the inherited directory comes and goes within the command.
    refine topologyStep_of_minted ⟨hall.found, ?_, hall.sessions, hall.generation_eq,
      hall.nextPane_eq, hall.active⟩
    have hcancel := hall.step
    rw [add_comm {_} {_}, zero_add] at hcancel
    exact SessionStep.cancel (r := 0) (by simpa using hcancel)

/-- Asking for a session that exists adopts its tag; otherwise one pane is added with it. -/
theorem ensureSession_step {host : Host} {cwd : String} {tag : MuxSessionTag}
    (h : st.ensureSession host id cwd tag = .ok st') :
    (∃ s, st.session? id = some s) ∧ TopologyStep id 0 0 st st' ∨
      st.session? id = none ∧
        TopologyStep id {⟨paneIdOf st.generation st.nextPane, cwd⟩} 0 st st' := by
  unfold ensureSession at h
  split at h
  · next s found =>
    obtain rfl := Except.ok.inj h
    refine .inl ⟨⟨s, found⟩, (rearranged_modify_select found ?_).toStep⟩
    split
    · exact .refl s
    · exact .of_labels s s.name tag
  · next absent =>
    simp only [bind_eq_ok, pure_eq_ok, Prod.exists] at h
    obtain ⟨paneId, st₁, hmint, rfl⟩ := h
    obtain ⟨rfl, rfl⟩ := nextPaneId_eq_ok hmint
    refine .inr ⟨absent, ?_⟩
    set window : NativeWindow K :=
      { id := "tab-1", index := 1, name := defaultWindowName host, customName := false
        activePaneId := paneIdOf st.generation st.nextPane
        panes := [⟨paneIdOf st.generation st.nextPane, cwd⟩], layout := none } with hwindow
    set s : NativeSession K :=
      { nextWindow := 2, id := id, name := id, activeWindowId := window.id, windows := [window]
        tag := tag } with hs
    have hpanes : s.panes = {⟨paneIdOf st.generation st.nextPane, cwd⟩} := by
      simp [hs, hwindow, NativeSession.panes, panesOf]
    have hok : SessionOk s := by
      refine ⟨⟨by simp [hs, NativeSession.windowIds], ?_⟩, ?_, ?_, ?_⟩
      · simp only [hs, NativeSession.windowIds, List.map_cons, List.map_nil, List.mem_singleton,
          forall_eq]
        exact ⟨1, by omega, rfl⟩
      · simp [hs, hwindow, NativeWindow.Focused, NativeWindow.paneIds]
      · intro i w hi
        obtain ⟨rfl, rfl⟩ : i = 0 ∧ w = window := by
          cases i with
          | zero => exact ⟨rfl, by simpa [hs] using hi.symm⟩
          | succ i => simp [hs] at hi
        rfl
      · simp [hs, NativeSession.windowIds]
    rw [← hpanes]
    refine .create (s := s) rfl absent hok rfl rfl (Nat.le_succ _) rfl ?_ ?_
    · rw [hpanes]
      intro pane hp
      rw [Multiset.mem_singleton] at hp
      exact ⟨st.nextPane, Nat.le_refl _, Nat.lt_succ_self _, by rw [hp]⟩
    · rw [hpanes]
      simp

/-! ### Panes that go -/

/-- Ditching a session removes exactly its panes. -/
theorem killSession_step (st : NativeMuxState K) (id : String) :
    TopologyStep id 0 ((st.sessions.filter (·.id == id)).map (·.panes)).sum st
      (st.killSession id) := by
  refine ⟨.drop _, rfl, Nat.le_refl _, by simp, by simp, fun hsel ↦ ?_⟩
  unfold Selected at hsel ⊢
  change if st.sessions.filter (·.id != id) = [] then _ else _ ∈ (st.sessions.filter _).map _
  simp only [killSession]
  split
  · next hnil =>
    split
    · simp [hnil]
    · next hne =>
      by_cases h0 : st.sessions = []
      · rwa [if_pos h0] at hsel
      · rw [if_neg h0] at hsel
        obtain ⟨s, hs, hid⟩ := List.mem_map.mp hsel
        have := List.filter_eq_nil_iff.mp hnil s hs
        exact absurd (by simpa using this) (fun h ↦ hne (hid ▸ h))
  · next hnil =>
    split
    · obtain ⟨s, rest, hs⟩ := List.exists_cons_of_ne_nil hnil
      simp [hs]
    · next hne =>
      have h0 : st.sessions ≠ [] := fun h0 ↦ hnil (by simp [h0])
      rw [if_neg h0] at hsel
      obtain ⟨s, hs, hid⟩ := List.mem_map.mp hsel
      refine List.mem_map.mpr ⟨s, List.mem_filter.mpr ⟨hs, ?_⟩, hid⟩
      simpa [hid] using hne

private theorem filter_eq_of_nodup {s : NativeSession K} (hn : st.sessionIds.Nodup)
    (found : st.session? id = some s) : st.sessions.filter (·.id == id) = [s] := by
  obtain ⟨before, after, he, hb, ha⟩ := exists_split_of_find? found
  have hafter : ∀ x ∈ after, (x.id == id) = false := by
    intro x hx
    rw [NativeMuxState.sessionIds, he, List.map_append, List.map_cons] at hn
    have := (List.nodup_cons.mp (List.nodup_append.mp hn).2.1).1
    simp only [beq_iff_eq] at ha
    simp only [beq_eq_false_iff_ne]
    exact fun hxid ↦ this (List.mem_map.mpr ⟨x, hx, hxid.trans ha.symm⟩)
  rw [he, List.filter_append, List.filter_cons, if_pos ha,
    List.filter_eq_nil_iff.mpr (by simpa using hb),
    List.filter_eq_nil_iff.mpr (by simpa using hafter), List.nil_append]

/-- The panes a ditched session takes with it. -/
theorem sum_filter_panes (hn : st.sessionIds.Nodup) (id : String) :
    ((st.sessions.filter (·.id == id)).map (·.panes)).sum = (st.session? id).elim 0 (·.panes) := by
  cases found : st.session? id with
  | none =>
    rw [List.filter_eq_nil_iff.mpr fun x hx ↦ List.find?_eq_none.mp found x hx]
    rfl
  | some s =>
    rw [filter_eq_of_nodup hn found]
    simp

private theorem killSession_modifySession {s s' : NativeSession K}
    (found : st.session? id = some s) (hid : s'.id = s.id) :
    (st.modifySession id fun _ ↦ s').killSession id = st.killSession id := by
  have hfilter : (modifyFirst (·.id == id) (fun _ ↦ s') st.sessions).filter (·.id != id) =
      st.sessions.filter (·.id != id) := by
    obtain ⟨before, after, he, hb, ha⟩ := exists_split_of_find? found
    have hs' : s'.id = id := hid.trans (by simpa using ha)
    simp only [beq_iff_eq] at ha
    simp [he, modifyFirst_append_cons hb (by simpa using ha), List.filter_append, hs', ha]
  simp only [killSession, modifySession, hfilter]

/-- Closing removes the addressed pane, with its window and session when they end up empty;
a kill leaves the last pane of a window alone. -/
theorem closePane_step (hok : TopologyOk st) {paneId : Option String} {all : Bool}
    (h : st.closePane id paneId all = .ok st') :
    ∃ s, st.session? id = some s ∧
      (st' = st ∧ all = false ∨ ∃ pane, Targets s paneId pane ∧ TopologyStep id 0 {pane} st st') := by
  simp only [closePane, bind_eq_ok, context_eq_ok] at h
  obtain ⟨s, found, closed, hclosed, h⟩ := h
  refine ⟨s, found, ?_⟩
  cases closed with
  | none =>
    left
    refine ⟨(pure_eq_ok.mp h).symm, ?_⟩
    exact closePaneIn_eq_none hclosed
  | some closed =>
    obtain ⟨s', active⟩ := closed
    obtain ⟨pane, ht, hid, hcases⟩ := closePaneIn_eq_some hclosed
    refine .inr ⟨pane, ht, ?_⟩
    have hs'id : s'.id = id := hid.trans (by simpa using List.find?_some found)
    simp only at h
    rcases hcases with ⟨hempty, hpanes⟩ | ⟨hne, hstep⟩
    · have hany : (st.modifySession id fun _ ↦ s').sessions.any
          (fun s ↦ s.id == id && s.windows.isEmpty) = true := by
        have hmem := List.mem_of_find?_eq_some
          (find?_modifyFirst (f := fun _ ↦ s') found (by simpa using hs'id))
        exact List.any_eq_true.mpr ⟨s', hmem, by simp [hs'id, hempty]⟩
      rw [if_pos hany, pure_eq_ok, killSession_modifySession found hid] at h
      have := killSession_step st id
      rw [sum_filter_panes hok.sessionIds, found] at this
      rw [← h, ← hpanes]
      exact this
    · have hedit := Edited.modify found hstep
      have hany : ¬(st.modifySession id fun _ ↦ s').sessions.any
          (fun s ↦ s.id == id && s.windows.isEmpty) = true := by
        intro hany
        obtain ⟨x, hx, hxe⟩ := List.any_eq_true.mp hany
        have := (hedit.toStep.ok hok).sessions x hx
        simp only [Bool.and_eq_true, List.isEmpty_iff] at hxe
        exact this.windows_ne_nil hxe.2
      rw [if_neg hany] at h
      split at h
      · obtain rfl := pure_eq_ok.mp h
        exact hedit.select.toStep
      · obtain rfl := pure_eq_ok.mp h
        exact hedit.toStep

/-! ### Focusing a pane by name -/

/-- The session a command addresses. -/
def addressed (st : NativeMuxState K) : MuxCommand K → String
  | .activatePane name _ _ =>
    ((st.sessions.find? fun s ↦ s.id == name || s.name == name).map (·.id)).getD name
  | command => command.sessionId

/-- Focusing a pane rearranges. -/
theorem rearranged_activatePane (hn : st.sessionIds.Nodup) {name window pane : String}
    (h : st.activatePane name window pane = .ok st') :
    Rearranged (st.addressed (.activatePane name window pane)) st st' := by
  simp only [activatePane, bind_eq_ok, context_eq_ok, pure_eq_ok] at h
  obtain ⟨s, hs, w, hw, rfl⟩ := h
  have haddressed : st.addressed (.activatePane name window pane) = s.id := by
    simp [addressed, hs]
  rw [haddressed]
  set named : NativeSession K → Bool := fun s ↦ s.id == name || s.name == name with hnamed
  set holds : NativeWindow K → Bool := fun w ↦ w.id == window && w.panes.any (·.id == pane)
    with hholds
  have hstep : SessionStep 0 0 s { s with
      windows := modifyFirst holds (fun w ↦ { w with activePaneId := pane }) s.windows } := by
    refine .of_modifyFirst hw ⟨rfl, rfl, rfl, fun _ ↦ ?_⟩
    have := List.find?_some hw
    simp only [hholds, Bool.and_eq_true, List.any_eq_true, beq_iff_eq] at this
    obtain ⟨-, p, hp, he⟩ := this
    exact List.mem_map.mpr ⟨p, hp, he⟩
  -- The session found by name is also the first one with its id.
  obtain ⟨before, after, he, hb, ha⟩ := exists_split_of_find? hs
  have hb' : ∀ x ∈ before, (x.id == s.id) = false := by
    intro x hx
    rw [sessionIds, he, List.map_append, List.map_cons] at hn
    simp only [beq_eq_false_iff_ne]
    exact fun hxs ↦ (List.nodup_append.mp hn).2.2 x.id (List.mem_map_of_mem hx) s.id (by simp) hxs
  have found : st.session? s.id = some s := by
    rw [session?, he]
    exact find?_append_cons hb' (by simp)
  refine Rearranged.trans ?_ (rearranged_activateWindow _ s.id window)
  refine .inr ⟨s, _, found, hstep, ?_, rfl, rfl, .inl rfl⟩
  change modifyFirst named _ st.sessions = _
  rw [he, modifyFirst_append_cons hb ha, modifyFirst_append_cons hb' (by simp)]

end NativeMuxState
end Bootty.Mux.Native
