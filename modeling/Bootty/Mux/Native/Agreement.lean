import Bootty.Mux.Native.Invariant

/-!
# Topology and split tree agree

With exact weights, every window of every reachable state has a canonical layout whose
leaves are its panes. `execute_topology` and `rearrange` change the two sides independently;
`reconcile` then makes them meet, and none of the checks of `native/layout.rs` can fail.
-/

namespace Bootty.Mux.Native

open Bootty.Base

namespace NativeMuxState

/-- Every window's layout is a canonical tree with exactly its panes as leaves. -/
def Agrees (st : NativeMuxState ℚ) : Prop :=
  ∀ s ∈ st.sessions, ∀ w ∈ s.windows, ∃ tree, w.layout = some tree ∧ tree.Canonical ∧
    tree.leaves.Nodup ∧ tree.leaves.Perm (w.panes.map (·.id))

variable {st st' : NativeMuxState ℚ}

/-! ### Windows and their panes -/

variable {K : Type} {pane : String}

/-- A pane id belongs to one window of one session. -/
theorem eq_of_mem_paneIds {st : NativeMuxState K} (hok : TopologyOk st) {s s' : NativeSession K}
    {w w' : NativeWindow K} (hs : s ∈ st.sessions) (hw : w ∈ s.windows) (hs' : s' ∈ st.sessions)
    (hw' : w' ∈ s'.windows) (hp : pane ∈ w.paneIds) (hp' : pane ∈ w'.paneIds) :
    s = s' ∧ w = w' := by
  have hnodup := hok.paneIds
  rw [paneIds_eq_sum] at hnodup
  have hsum : (st.sessions.map fun s ↦
      (s.shape.windows.map fun w ↦ (w.paneIds : Multiset String)).sum).sum =
      ((st.sessions.flatMap fun s ↦ s.windows.map (s, ·)).map fun entry ↦
        (entry.2.paneIds : Multiset String)).sum := by
    rw [sum_map_flatMap]
    congr 1
    refine List.map_congr_left fun s _ ↦ ?_
    rw [NativeSession.shape, List.map_map, List.map_map]
    rfl
  rw [hsum] at hnodup
  have hmem : ∀ {s : NativeSession K} {w : NativeWindow K}, s ∈ st.sessions → w ∈ s.windows →
      (s, w) ∈ st.sessions.flatMap fun s ↦ s.windows.map (s, ·) := fun hs hw ↦
    List.mem_flatMap.mpr ⟨_, hs, List.mem_map_of_mem hw⟩
  exact Prod.mk.inj (eq_of_mem_of_nodup_sum hnodup (hmem hs hw) (hmem hs' hw') (x := pane)
    (by simpa using hp) (by simpa using hp'))

/-- A window is known by its session and id. -/
theorem eq_of_key_eq {st : NativeMuxState K} (hok : TopologyOk st) {s s' : NativeSession K}
    {w w' : NativeWindow K} (hs : s ∈ st.sessions) (hw : w ∈ s.windows) (hs' : s' ∈ st.sessions)
    (hw' : w' ∈ s'.windows) (hid : s.id = s'.id) (hwid : w.id = w'.id) :
    s = s' ∧ w = w' := by
  obtain rfl : s = s' := List.inj_on_of_nodup_map hok.sessionIds hs hs' hid
  exact ⟨rfl, List.inj_on_of_nodup_map (hok.sessions s hs).ids.nodup hw hw' hwid⟩

/-- The map of current layouts holds each window's own tree. -/
theorem currentLayouts_of_agrees (hok : TopologyOk st) (ha : st.Agrees)
    {s : NativeSession ℚ} {w : NativeWindow ℚ} (hs : s ∈ st.sessions) (hw : w ∈ s.windows) :
    ∃ l, currentLayouts st.snapshot (s.id, w.id) = some l ∧ l.Wf ∧ w.layout = some l.root ∧
      ∀ p, p ∈ l.panes ↔ p ∈ w.paneIds := by
  obtain ⟨tree, htree, hc, hn, hperm⟩ := ha s hs w hw
  obtain ⟨l, hl, rfl⟩ := PaneLayout.fromMuxLayout_of_canonical hc hn
  refine ⟨l, ?_, PaneLayout.wf_of_fromMuxLayout hl, htree, fun p ↦ hperm.mem_iff⟩
  rw [currentLayouts_snapshot hok hs hw, htree]
  exact hl

variable {key : String × String}

private theorem keyFor_eq_some [Scalar K] {st : NativeMuxState K} {session : String}
    (h : keyFor st.snapshot session pane = some key) :
    ∃ s ∈ st.sessions, ∃ w ∈ s.windows, pane ∈ w.paneIds ∧ key = (s.id, w.id) ∧
      s.id = session := by
  simp only [keyFor, snapshot, List.find?_map, Option.map_eq_some_iff, Option.bind_eq_some_iff] at h
  obtain ⟨window, ⟨mux, ⟨s, hs, rfl⟩, hwindow⟩, rfl⟩ := h
  simp only [snapshotSession, List.find?_map, Option.map_eq_some_iff] at hwindow
  obtain ⟨w, hw, rfl⟩ := hwindow
  have hid : s.id = session := by simpa [snapshotSession] using List.find?_some hs
  have hshown := List.find?_some hw
  simp only [Function.comp_apply, snapshotWindow, List.any_map, List.any_eq_true, anchorForPane,
    anchorForOptionalPane, Option.map_some, beq_iff_eq, Option.some.injEq] at hshown
  obtain ⟨p, hp, he⟩ := hshown
  exact ⟨s, List.mem_of_find?_eq_some hs, w, List.mem_of_find?_eq_some hw,
    List.mem_map.mpr ⟨p, hp, he⟩, by rw [hid]; rfl, hid⟩

/-! ### Rearranging -/

/-- Every layout of the map is well formed. -/
def WfMap (layouts : LayoutMap (PaneLayout ℚ)) : Prop := ∀ key l, layouts key = some l → l.Wf

private theorem wfMap_currentLayouts (before : MuxSnapshot ℚ) : WfMap (currentLayouts before) := by
  intro key l h
  obtain ⟨tree, htree⟩ := exists_of_currentLayouts h
  exact PaneLayout.wf_of_fromMuxLayout htree

variable {layouts : LayoutMap (PaneLayout ℚ)}

private theorem wfMap_update (h : WfMap layouts) {value : Option (PaneLayout ℚ)}
    (hv : ∀ l ∈ value, l.Wf) :
    WfMap (Function.update layouts key value) := by
  intro key' l hl
  by_cases hk : key' = key
  · subst hk
    rw [Function.update_self] at hl
    exact hv l hl
  · rw [Function.update_of_ne hk] at hl
    exact h key' l hl

private theorem WfMap.editLayout (h : WfMap layouts) {f : PaneLayout ℚ → Option (PaneLayout ℚ)}
    (hf : ∀ l, l.Wf → ((f l).getD l).Wf) : WfMap (editLayout layouts key f) := by
  unfold Native.editLayout
  split
  · next l hl =>
    refine wfMap_update h fun l' hl' ↦ ?_
    rw [← Option.some.inj hl']
    exact hf l (h key l hl)
  · exact h

private theorem editLayout_of_ne {key' : String × String} {f : PaneLayout ℚ → Option (PaneLayout ℚ)}
    (h : key' ≠ key) :
    editLayout layouts key f key' = layouts key' := by
  unfold Native.editLayout
  cases layouts key with
  | none => rfl
  | some l => exact Function.update_of_ne h _ _

private theorem tryEditLayout_isOk (h : WfMap layouts) (key : String × String)
    (f : PaneLayout ℚ → Option (PaneLayout ℚ)) (error : String)
    (hf : ∀ l, layouts key = some l → ∃ l', f l = some l' ∧ l'.Wf) :
    ∃ layouts', tryEditLayout layouts key f error = .ok layouts' ∧ WfMap layouts' ∧
      ∀ key', key' ≠ key → layouts' key' = layouts key' := by
  unfold tryEditLayout
  split
  · next l hl =>
    obtain ⟨l', he, hw⟩ := hf l hl
    refine ⟨Function.update layouts key (some l'), by simp [he], ?_, fun key' hk ↦
      Function.update_of_ne hk _ _⟩
    exact wfMap_update h fun x hx ↦ Option.some.inj hx ▸ hw
  · exact ⟨layouts, rfl, h, fun _ _ ↦ rfl⟩

/-- The ids a command names twice must differ. -/
def Separates (command : MuxCommand ℚ) : Prop :=
  match command with
  | .movePane _ pane target _ => pane ≠ target
  | .mergeWindows _ source target => source ≠ target
  | _ => True

/-- A command that succeeds separates. -/
theorem separates_of_executeTopology {host : Host} {command : MuxCommand ℚ}
    (h : st.executeTopology host command = .ok st') : Separates command := by
  cases command with
  | movePane s pane target direction =>
    simp only [executeTopology, movePane, editSession, bind_eq_ok, movePaneIn, ensure_eq_ok,
      Prod.exists] at h
    obtain ⟨_, -, _, ⟨_, _, -, _, _, -, _, hne, -⟩, -⟩ := h
    exact bne_iff_ne.mp hne
  | mergeWindows s source target =>
    simp only [executeTopology, mergeWindows, editSession, bind_eq_ok, mergeWindowsIn,
      ensure_eq_ok] at h
    obtain ⟨_, -, _, ⟨_, -, _, hne, -⟩, -⟩ := h
    exact bne_iff_ne.mp hne
  | _ => trivial

private theorem rearrangeMove_isOk (hok : TopologyOk st) (ha : st.Agrees) {target : String}
    (direction : MuxDirection) (hne : pane ≠ target) {s s' : NativeSession ℚ}
    {w w' : NativeWindow ℚ} (hs : s ∈ st.sessions) (hw : w ∈ s.windows) (hs' : s' ∈ st.sessions)
    (hw' : w' ∈ s'.windows) (hp : pane ∈ w.paneIds) (ht : target ∈ w'.paneIds) :
    ∃ layouts, rearrangeMove (currentLayouts st.snapshot) pane target direction (s.id, w.id)
        (s'.id, w'.id) = .ok layouts ∧ WfMap layouts ∧
      ∀ key, key ≠ (s.id, w.id) → key ≠ (s'.id, w'.id) →
        layouts key = currentLayouts st.snapshot key := by
  have hwf := wfMap_currentLayouts st.snapshot
  obtain ⟨l, hl, hlw, -, hlp⟩ := currentLayouts_of_agrees hok ha hs hw
  obtain ⟨l', hl', hlw', -, hlp'⟩ := currentLayouts_of_agrees hok ha hs' hw'
  unfold rearrangeMove
  split
  · next hkey =>
    obtain ⟨hid, hwid⟩ := Prod.mk.inj hkey
    obtain ⟨rfl, rfl⟩ := eq_of_key_eq hok hs hw hs' hw' hid hwid
    obtain ⟨out, hout, hwout, hframe⟩ := tryEditLayout_isOk hwf (s.id, w.id)
      (·.moveBeside pane target (layoutDirection direction))
      "pane move exceeds representable split weights" fun x hx ↦ by
        obtain rfl := Option.some.inj (hl.symm.trans hx)
        obtain ⟨y, hy, hyw, -⟩ := hlw.moveBeside ((hlp pane).mpr hp) ((hlp target).mpr ht) hne
          (layoutDirection direction)
        exact ⟨y, hy, hyw⟩
    exact ⟨out, hout, hwout, fun key hk _ ↦ hframe key hk⟩
  · next hkey =>
    have hnot : pane ∉ l'.panes := by
      intro hmem
      obtain ⟨rfl, rfl⟩ := eq_of_mem_paneIds hok hs hw hs' hw' hp ((hlp' pane).mp hmem)
      exact hkey rfl
    have hedited : WfMap (Native.editLayout (currentLayouts st.snapshot) (s.id, w.id)
        (·.remove pane)) := hwf.editLayout fun x hx ↦ hx.getD_remove pane
    obtain ⟨out, hout, hwout, hframe⟩ := tryEditLayout_isOk hedited (s'.id, w'.id)
      (·.insertBeside pane target (layoutDirection direction))
      "pane insertion exceeds representable split weights" fun x hx ↦ by
        rw [editLayout_of_ne (Ne.symm hkey)] at hx
        obtain rfl := Option.some.inj (hl'.symm.trans hx)
        obtain ⟨y, hy, hyw, -⟩ := hlw'.insertBeside hnot ((hlp' target).mpr ht)
          (layoutDirection direction)
        exact ⟨y, hy, hyw⟩
    exact ⟨out, hout, hwout, fun key hk hk' ↦ by rw [hframe key hk', editLayout_of_ne hk]⟩

private theorem rearrangeMerge_isOk (hok : TopologyOk st) (ha : st.Agrees)
    {source target : String × String} (hne : source ≠ target) :
    ∃ layouts, rearrangeMerge (currentLayouts st.snapshot) source target = .ok layouts ∧
      WfMap layouts ∧ ∀ key, key ≠ source → key ≠ target →
        layouts key = currentLayouts st.snapshot key := by
  have hwf := wfMap_currentLayouts st.snapshot
  have hrest : WfMap (Function.update (currentLayouts st.snapshot) source none) :=
    wfMap_update hwf (by simp)
  unfold rearrangeMerge
  split
  · next l hl =>
    obtain ⟨s, hs, w, hw, rfl⟩ := exists_window_of_currentLayouts hl
    obtain ⟨x, hx, hxw, -, hxp⟩ := currentLayouts_of_agrees hok ha hs hw
    obtain rfl := Option.some.inj (hx.symm.trans hl)
    obtain ⟨out, hout, hwout, hframe⟩ := tryEditLayout_isOk hrest target (·.merge x)
      "pane merge exceeds representable split weights" fun y hy ↦ by
        rw [Function.update_of_ne (Ne.symm hne)] at hy
        obtain ⟨s', hs', w', hw', rfl⟩ := exists_window_of_currentLayouts hy
        obtain ⟨z, hz, hzw, -, hzp⟩ := currentLayouts_of_agrees hok ha hs' hw'
        obtain rfl := Option.some.inj (hz.symm.trans hy)
        obtain ⟨m, hm, hmw, -⟩ := hzw.merge hxw fun p hp hp' ↦ by
          obtain ⟨rfl, rfl⟩ :=
            eq_of_mem_paneIds hok hs hw hs' hw' ((hxp p).mp hp) ((hzp p).mp hp')
          exact hne rfl
        exact ⟨m, hm, hmw⟩
    exact ⟨out, hout, hwout, fun key hk hk' ↦ by
      rw [hframe key hk', Function.update_of_ne hk]⟩
  · exact ⟨_, rfl, hrest, fun key hk _ ↦ Function.update_of_ne hk _ _⟩

/-- Rearranging never fails, keeps every layout well formed, and touches only layouts of the
addressed session. -/
theorem rearrange_isOk (hok : TopologyOk st) (ha : st.Agrees) {command : MuxCommand ℚ}
    (hsep : Separates command) :
    ∃ layouts, rearrange st.snapshot command (currentLayouts st.snapshot) = .ok layouts ∧
      WfMap layouts ∧ ∀ key : String × String, key.1 ≠ st.addressed command →
        layouts key = currentLayouts st.snapshot key := by
  have hwf := wfMap_currentLayouts st.snapshot
  cases command with
  | swapPanes session source target =>
    simp only [rearrange]
    split
    · next a b hka hkb =>
      obtain ⟨s, -, w, -, -, rfl, hid⟩ := keyFor_eq_some hka
      obtain ⟨s', -, w', -, -, rfl, hid'⟩ := keyFor_eq_some hkb
      refine ⟨_, rfl, ?_, fun key hk ↦ ?_⟩
      · unfold rearrangeSwap
        split
        · exact hwf.editLayout fun l hl ↦ hl.getD_swap source target
        · exact (hwf.editLayout fun l hl ↦ hl.getD_replace source target).editLayout
            fun l hl ↦ hl.getD_replace target source
      · have h1 : key ≠ (s.id, w.id) := fun he ↦ hk (by rw [he]; exact hid)
        have h2 : key ≠ (s'.id, w'.id) := fun he ↦ hk (by rw [he]; exact hid')
        unfold rearrangeSwap
        split
        · exact editLayout_of_ne h1
        · rw [editLayout_of_ne h2, editLayout_of_ne h1]
    · exact ⟨_, rfl, hwf, fun _ _ ↦ rfl⟩
  | movePane session pane target direction =>
    simp only [rearrange]
    split
    · next a b hka hkb =>
      obtain ⟨s, hs, w, hw, hp, rfl, hid⟩ := keyFor_eq_some hka
      obtain ⟨s', hs', w', hw', ht, rfl, hid'⟩ := keyFor_eq_some hkb
      obtain ⟨out, hout, hwout, hframe⟩ :=
        rearrangeMove_isOk hok ha direction hsep hs hw hs' hw' hp ht
      exact ⟨out, hout, hwout, fun key hk ↦ hframe key (fun he ↦ hk (by rw [he]; exact hid))
        (fun he ↦ hk (by rw [he]; exact hid'))⟩
    · exact ⟨_, rfl, hwf, fun _ _ ↦ rfl⟩
  | mergeWindows session source target =>
    have hne : (session, source) ≠ (session, target) := fun he ↦ hsep (Prod.mk.inj he).2
    obtain ⟨out, hout, hwout, hframe⟩ := rearrangeMerge_isOk hok ha hne
    exact ⟨out, hout, hwout, fun key hk ↦ hframe key (fun he ↦ hk (by rw [he]; rfl))
      (fun he ↦ hk (by rw [he]; rfl))⟩
  | _ => exact ⟨_, rfl, hwf, fun _ _ ↦ rfl⟩

/-! ### Laying windows out -/

section Windows

variable {before : MuxSnapshot ℚ} {command : MuxCommand ℚ}

variable {ids : List String}

/-- Fitting ends on the live panes, whichever layout it starts from. -/
theorem wf_fitLayout (before : MuxSnapshot ℚ) (command : MuxCommand ℚ) {l : PaneLayout ℚ} (h : l.Wf)
    (hne : ids ≠ []) (hn : ids.Nodup) (session : String) :
    (fitLayout before command session ids l).Wf ∧
      (fitLayout before command session ids l).panes.Perm ids := by
  have hfocus : ∀ source : Option String,
      (source.elim l fun source ↦ (l.setFocus source).getD l).Wf := by
    intro source
    cases source with
    | none => exact h
    | some source => exact h.setFocus source
  unfold fitLayout
  split
  · exact h.reconcile hne hn .right
  · split
    · split
      · exact (hfocus _).reconcile hne hn .right
      · exact (hfocus _).reconcile hne hn .down
    · exact h.reconcile hne hn .right

private theorem check_of_perm {leaves : List String} (h : leaves.Perm ids) :
    (leaves.length == ids.length && ids.all leaves.contains) = true := by
  simp only [Bool.and_eq_true, beq_iff_eq, List.all_eq_true, List.contains_iff_mem]
  exact ⟨h.length_eq, fun p hp ↦ h.mem_iff.mpr hp⟩

private theorem elim_setFocus_snapshot (focus : Option String) (l : PaneLayout ℚ) :
    (focus.elim l fun focus ↦ (l.setFocus focus).getD l).snapshot = l.root := by
  cases focus with
  | none => rfl
  | some focus => exact PaneLayout.setFocus_root l focus

/-- A window with panes is laid out from the layout it starts with. -/
theorem windowLayout_eq {session : MuxSession ℚ} {window : MuxWindow ℚ} {first : String}
    {rest : List String} {start : PaneLayout ℚ}
    (hids : window.panes.filterMap (·.paneId) = first :: rest)
    (hstart : (layouts (session.id, window.id) <|>
      window.layout.bind PaneLayout.fromMuxLayout).getD (.single first) = start)
    (hcheck : (fitLayout before command session.id (first :: rest) start).panes.Perm
      (first :: rest)) :
    windowLayout before command layouts session window =
      .ok (some (fitLayout before command session.id (first :: rest) start).root) := by
  simp only [windowLayout, hids, List.head?_cons, hstart, check_of_perm hcheck, ensure, if_true]
  change Except.ok (some _) = _
  rw [elim_setFocus_snapshot]

private theorem wf_start (h : WfMap layouts) (key : String × String)
    (layout : Option (MuxPaneLayout ℚ)) (first : String) :
    ((layouts key <|> layout.bind PaneLayout.fromMuxLayout).getD (.single first)).Wf := by
  cases hk : layouts key with
  | some l => exact h key l hk
  | none =>
    cases hl : layout.bind PaneLayout.fromMuxLayout with
    | some l =>
      obtain ⟨tree, -, htree⟩ := Option.bind_eq_some_iff.mp hl
      exact PaneLayout.wf_of_fromMuxLayout htree
    | none => exact PaneLayout.wf_single first

/-- Every window with distinct panes can be laid out, canonically. -/
theorem windowLayout_isOk (h : WfMap layouts) {session : MuxSession ℚ} {window : MuxWindow ℚ}
    (hids : window.panes.filterMap (·.paneId) = ids) (hne : ids ≠ []) (hn : ids.Nodup) :
    ∃ tree, windowLayout before command layouts session window = .ok (some tree) ∧
      tree.Canonical ∧ tree.leaves.Nodup ∧ tree.leaves.Perm ids := by
  obtain ⟨first, rest, rfl⟩ := List.exists_cons_of_ne_nil hne
  obtain ⟨hw, hperm⟩ := wf_fitLayout before command
    (wf_start h (session.id, window.id) window.layout first) hne hn session.id
  exact ⟨_, windowLayout_eq hids rfl hperm, hw.canonical, hw.nodup, hperm⟩

end Windows

/-- The layout rewrite succeeds for every topology, and both sides agree afterwards. -/
theorem updatedLayouts_isOk {changed : NativeMuxState ℚ} (hok : TopologyOk st) (ha : st.Agrees)
    (hok' : TopologyOk changed) {command : MuxCommand ℚ} (hsep : Separates command) :
    ∃ layouts, updatedLayouts st.snapshot changed.snapshot command = .ok layouts ∧
      (changed.withLayouts layouts).Agrees := by
  obtain ⟨rearranged, hr, hwf, -⟩ := rearrange_isOk hok ha hsep
  have hone : ∀ s ∈ changed.sessions, ∀ w ∈ s.windows, ∃ tree,
      windowLayout st.snapshot command rearranged (changed.snapshotSession s)
        (changed.snapshotWindow s w) = .ok (some tree) ∧
      tree.Canonical ∧ tree.leaves.Nodup ∧ tree.leaves.Perm w.paneIds := fun s hs w hw ↦
    windowLayout_isOk hwf (snapshotWindow_ids changed s w)
      (paneIds_ne_nil ((hok'.sessions s hs).focused w hw)) (nodup_paneIds hok' hs hw)
  have hall : ∀ entry ∈ snapshotWindows changed.snapshot, ∃ r,
      windowLayout st.snapshot command rearranged entry.1 entry.2 = .ok r := by
    intro entry hentry
    rw [snapshotWindows_snapshot] at hentry
    obtain ⟨s, hs, hentry⟩ := List.mem_flatMap.mp hentry
    obtain ⟨w, hw, rfl⟩ := List.mem_map.mp hentry
    obtain ⟨tree, htree, -⟩ := hone s hs w hw
    exact ⟨some tree, htree⟩
  obtain ⟨layouts, hl⟩ := layOut_isOk (fun _ ↦ none) (nodup_keys hok') hall
  refine ⟨layouts, by simp [updatedLayouts, hr, hl], ?_⟩
  intro s hs w hw
  obtain ⟨s₀, hs₀, rfl⟩ := List.mem_map.mp hs
  obtain ⟨w₀, hw₀, rfl⟩ := List.mem_map.mp hw
  obtain ⟨tree, htree, hrest⟩ := hone s₀ hs₀ w₀ hw₀
  have := layOut_eq_ok (nodup_keys hok') (fun _ _ ↦ rfl) hl _ (mem_snapshotWindows hs₀ hw₀)
  exact ⟨tree, Except.ok.inj (this.symm.trans htree), hrest⟩

/-! ### Runs -/

private theorem Agrees.executeAndLayOut {host : Host} {command : MuxCommand ℚ} (hi : st.Invariant)
    (ha : st.Agrees) (h : st.executeAndLayOut host command = .ok st') : st'.Agrees := by
  simp only [NativeMuxState.executeAndLayOut, bind_eq_ok, pure_eq_ok] at h
  obtain ⟨changed, hchanged, layouts, hlayouts, rfl⟩ := h
  obtain ⟨_, _, -, hstep⟩ := executeTopology_step hi.topology hi.shown.layoutsFit hchanged
  obtain ⟨layouts', hlayouts', hagrees⟩ := updatedLayouts_isOk hi.topology ha
    (hstep.ok hi.topology) (separates_of_executeTopology hchanged)
  obtain rfl := Except.ok.inj (hlayouts.symm.trans hlayouts')
  exact hagrees

private theorem Agrees.setLayout {session window : String} {layout : MuxPaneLayout ℚ}
    (hi : st.Invariant) (ha : st.Agrees) (h : st.setLayout session window layout = .ok st') :
    st'.Agrees := by
  have hshown := hi.shown.setLayout hi.topology h
  simp only [NativeMuxState.setLayout, bind_eq_ok, context_eq_ok, ensure_eq_ok, pure_eq_ok] at h
  obtain ⟨w, hw, l, hl, _, -, rfl⟩ := h
  have hwf := PaneLayout.wf_of_fromMuxLayout hl
  obtain ⟨s, found, hfind⟩ := Option.bind_eq_some_iff.mp hw
  intro s' hs' w' hw'
  obtain ⟨tree, htree, hperm⟩ := hshown s' hs' w' hw'
  rw [modifyWindow, modifySession, modifyFirst_const found, modifyFirst_const hfind] at hs'
  rcases mem_modifyFirst hs' with hs' | ⟨_, -, -, rfl⟩
  · exact ha s' hs' w' hw'
  · rcases mem_modifyFirst hw' with hw' | ⟨_, -, -, rfl⟩
    · exact ha s (List.mem_of_find?_eq_some found) w' hw'
    · obtain rfl := Option.some.inj htree
      exact ⟨_, rfl, hwf.canonical, hwf.nodup, hperm⟩

private theorem Agrees.setPaneCwd {cwd : String} (ha : st.Agrees)
    (h : st.setPaneCwd pane cwd = .ok st') :
    st'.Agrees := by
  simp only [NativeMuxState.setPaneCwd, bind_eq_ok, pure_eq_ok] at h
  obtain ⟨_, -, rfl⟩ := h
  intro s' hs' w' hw'
  obtain ⟨s, hs, w, hw, hlayout, hids⟩ := display_setCwdOf hs' hw'
  obtain ⟨tree, htree, hc, hn, hperm⟩ := ha s hs w hw
  exact ⟨tree, by rw [hlayout, htree], hc, hn, by rw [← NativeWindow.paneIds, hids]; exact hperm⟩

private theorem Agrees.step (hi : st.Invariant) (ha : st.Agrees) (op : TopologyOp ℚ) :
    (st.step op).Agrees := by
  unfold NativeMuxState.step
  split
  · next h =>
    cases op with
    | execute host command =>
      rcases execute_cases h with ⟨_, _, _, _, -, h⟩ | h
      · exact ha.setLayout hi h
      · exact ha.executeAndLayOut hi h
    | setLayout s w layout => exact ha.setLayout hi h
    | setPaneCwd pane cwd => exact ha.setPaneCwd h
  · exact ha

/-- Topology and layouts agree in every state of every run. -/
theorem agrees_run (generation : Nat) (ops : List (TopologyOp ℚ)) :
    (run generation ops).Agrees := by
  induction ops using List.reverseRecOn with
  | nil => simp [Agrees, new]
  | append_singleton ops op ih => simpa using ih.step (invariant_run generation ops) op

/-- Topology and split tree agree in every reachable state, and the layout rewrite never
fails there. -/
theorem layouts_agree_with_topology (generation : Nat) (ops : List (TopologyOp ℚ)) :
    let st := run generation ops
    st.Agrees ∧ ∀ host command changed, st.executeTopology host command = .ok changed →
      ∃ layouts, updatedLayouts st.snapshot changed.snapshot command = .ok layouts := by
  have hi : (run generation ops : NativeMuxState ℚ).Invariant := invariant_run generation ops
  have ha := agrees_run generation ops
  refine ⟨ha, fun host command changed h ↦ ?_⟩
  obtain ⟨_, _, -, hstep⟩ := executeTopology_step hi.topology hi.shown.layoutsFit h
  obtain ⟨layouts, hlayouts, -⟩ := updatedLayouts_isOk hi.topology ha (hstep.ok hi.topology)
    (separates_of_executeTopology h)
  exact ⟨layouts, hlayouts⟩

/-- Two splits of one window, laid out again after the second. -/
theorem layouts_agree_with_topology_split :
    let ops : List (TopologyOp ℚ) :=
      [.execute .plain (.createProjectSession "work" "/src" {} none),
        .execute .plain (.splitPane "work" none .right)]
    ∃ changed layouts, (run 7 ops).executeTopology .plain (.splitPane "work" none .down) =
        .ok changed ∧
      updatedLayouts (run 7 ops).snapshot changed.snapshot (.splitPane "work" none .down) =
        .ok layouts := by
  intro ops
  obtain ⟨changed, h⟩ : ∃ changed,
      (run 7 ops).executeTopology .plain (.splitPane "work" none .down) = .ok changed :=
    exists_of_isOk (by decide +kernel)
  obtain ⟨layouts, hlayouts⟩ :=
    (layouts_agree_with_topology 7 ops).2 .plain (.splitPane "work" none .down) changed h
  exact ⟨changed, layouts, h, hlayouts⟩

end NativeMuxState
end Bootty.Mux.Native
