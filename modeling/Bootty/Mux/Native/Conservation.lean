import Bootty.Mux.Native.Agreement

/-!
# Conservation of panes and freshness of identities

A successful command changes the multiset of panes by exactly what it says and leaves every
other session alone, layouts included. Over a run no pane id is minted twice, and no window
id is given twice while its session lives.
-/

namespace Bootty.Mux.Native

open Bootty.Base

namespace NativeMuxState

/-! ### Other sessions -/

section Frame

variable {st st' : NativeMuxState ℚ}

variable {command : MuxCommand ℚ}

private theorem fitLayout_of_ne {before : MuxSnapshot ℚ} {session : String}
    (h : session ≠ st.addressed command) (ids : List String) (l : PaneLayout ℚ) :
    fitLayout before command session ids l = l.reconcile ids := by
  unfold fitLayout
  split
  · rfl
  · next hsplit =>
    refine if_neg fun he ↦ h ?_
    cases command <;> first | exact he | simp [splitOf] at hsplit

private theorem layouts_of_other {changed : NativeMuxState ℚ} (hok : TopologyOk st) (ha : st.Agrees)
    (hok' : TopologyOk changed) (hsep : Separates command) {layouts : LayoutMap (MuxPaneLayout ℚ)}
    (h : updatedLayouts st.snapshot changed.snapshot command = .ok layouts) {s : NativeSession ℚ}
    (hs : s ∈ st.sessions) (hs' : s ∈ changed.sessions) (hother : s.id ≠ st.addressed command)
    {w : NativeWindow ℚ} (hw : w ∈ s.windows) :
    layouts (s.id, w.id) = w.layout := by
  obtain ⟨rearranged, hr, -, hframe⟩ := rearrange_isOk hok ha hsep
  simp only [updatedLayouts, hr, bind_eq_ok, Except.ok.injEq, exists_eq_left'] at h
  obtain ⟨l, hl, hwf, hlayout, hmem⟩ := currentLayouts_of_agrees hok ha hs hw
  have hne : w.paneIds ≠ [] := paneIds_ne_nil ((hok.sessions s hs).focused w hw)
  obtain ⟨first, rest, hids⟩ := List.exists_cons_of_ne_nil hne
  have hfit : fitLayout st.snapshot command s.id (first :: rest) l = l := by
    rw [fitLayout_of_ne hother, ← hids]
    exact PaneLayout.reconcile_eq_self hmem .right
  have hperm : l.panes.Perm w.paneIds :=
    (List.perm_ext_iff_of_nodup hwf.nodup (nodup_paneIds hok hs hw)).mpr hmem
  have hstart : (rearranged (s.id, w.id) <|> w.layout.bind PaneLayout.fromMuxLayout).getD
      (.single first) = l := by
    rw [hframe (s.id, w.id) hother, hl]
    rfl
  have hone := layOut_eq_ok (nodup_keys hok') (fun _ _ ↦ rfl) h _ (mem_snapshotWindows hs' hw)
  have hown : windowLayout st.snapshot command rearranged (changed.snapshotSession s)
      (changed.snapshotWindow s w) =
        .ok (some (fitLayout st.snapshot command s.id (first :: rest) l).root) :=
    windowLayout_eq ((snapshotWindow_ids changed s w).trans hids) hstart
      (by rw [show (changed.snapshotSession s).id = s.id from rfl, hfit, ← hids]; exact hperm)
  rw [hlayout, ← hfit]
  exact Except.ok.inj (hone.symm.trans hown)

private theorem others_executeAndLayOut {host : Host} {changed : NativeMuxState ℚ}
    {layouts : LayoutMap (MuxPaneLayout ℚ)} (hi : st.Invariant) (ha : st.Agrees)
    (hchanged : st.executeTopology host command = .ok changed) (hok' : TopologyOk changed)
    (hothers : changed.sessions.filter (·.id != st.addressed command) =
      st.sessions.filter (·.id != st.addressed command))
    (h : updatedLayouts st.snapshot changed.snapshot command = .ok layouts) :
    (changed.withLayouts layouts).sessions.filter (·.id != st.addressed command) =
      st.sessions.filter (·.id != st.addressed command) := by
  rw [← hothers]
  simp only [withLayouts, List.filter_map]
  refine (List.map_congr_left fun s hs ↦ ?_).trans (List.map_id _)
  obtain ⟨hs', hid⟩ := List.mem_filter.mp hs
  have hmem : s ∈ st.sessions := by
    have : s ∈ changed.sessions.filter (·.id != st.addressed command) :=
      List.mem_filter.mpr ⟨hs', hid⟩
    rw [hothers] at this
    exact List.mem_of_mem_filter this
  have hwindows : s.windows.map (fun w ↦ { w with layout := layouts (s.id, w.id) }) =
      s.windows := by
    refine (List.map_congr_left fun w hw ↦ ?_).trans (List.map_id _)
    rw [layouts_of_other hi.topology ha hok' (separates_of_executeTopology hchanged) h hmem hs'
      (by simpa using hid) hw]
    rfl
  rw [hwindows]
  rfl

private theorem others_setLayout {session window : String} {layout : MuxPaneLayout ℚ}
    (h : st.setLayout session window layout = .ok st') :
    st'.sessions.filter (·.id != session) = st.sessions.filter (·.id != session) := by
  simp only [NativeMuxState.setLayout, bind_eq_ok, context_eq_ok, pure_eq_ok] at h
  obtain ⟨w, hw, _, -, _, -, rfl⟩ := h
  obtain ⟨s, found, -⟩ := Option.bind_eq_some_iff.mp hw
  obtain ⟨before, after, he, hb, hid⟩ := exists_split_of_find? found
  have hid' : s.id = session := by simpa using hid
  simp only [modifyWindow, modifySession, he]
  rw [modifyFirst_append_cons hb hid]
  simp [List.filter_append, hid']

/-- What a successful command does to panes and to other sessions. -/
theorem execute_effect {host : Host} (hi : st.Invariant) (ha : st.Agrees)
    (h : st.execute host command = .ok st') :
    ∃ added removed, st.CommandEffect command added removed ∧
      st'.panes + removed = st.panes + added ∧ (added.map (·.id)).Nodup ∧
      (∀ pane ∈ added, ∃ n, st.nextPane ≤ n ∧ pane.id = paneIdOf st.generation n) ∧
      st'.sessions.filter (·.id != st.addressed command) =
        st.sessions.filter (·.id != st.addressed command) := by
  rcases execute_cases h with ⟨s, w, layout, proposed, rfl, hset⟩ | h
  · exact ⟨0, 0, ⟨rfl, rfl⟩, by rw [panes_setLayout hset], by simp, by simp, others_setLayout hset⟩
  · simp only [executeAndLayOut, bind_eq_ok, pure_eq_ok] at h
    obtain ⟨changed, hchanged, layouts, hlayouts, rfl⟩ := h
    obtain ⟨added, removed, heffect, hstep⟩ :=
      executeTopology_step hi.topology hi.shown.layoutsFit hchanged
    refine ⟨added, removed, heffect, ?_, hstep.nodup, fun pane hp ↦ ?_, ?_⟩
    · rw [panes_withLayouts]
      exact hstep.panes_eq
    · obtain ⟨n, hn, -, hid⟩ := hstep.fresh pane hp
      exact ⟨n, hn, hid⟩
    · exact others_executeAndLayOut hi ha hchanged (hstep.ok hi.topology) hstep.sessions.others
        hlayouts

end Frame

/-! ### Identities over a run -/

section History

variable {K : Type} {st st' : NativeMuxState K}

/-- How the identities of one state follow from those of the state before it. -/
structure IdentityStep (st st' : NativeMuxState K) : Prop where
  generation_eq : st'.generation = st.generation
  counter_le : st.nextPane ≤ st'.nextPane
  paneIds_le : st'.paneIds ≤ st.paneIds + st.mintedIds (st'.nextPane - st.nextPane)
  windows : ∀ id s s', st.session? id = some s → st'.session? id = some s' →
    s.nextWindow ≤ s'.nextWindow ∧ ∀ w ∈ s'.windowIds,
      w ∈ s.windowIds ∨ ∃ n, s.nextWindow ≤ n ∧ n < s'.nextWindow ∧ w = windowIdOf n

private theorem IdentityStep.refl (st : NativeMuxState K) : IdentityStep st st where
  generation_eq := rfl
  counter_le := Nat.le_refl _
  paneIds_le := Multiset.le_add_right _ _
  windows := by
    intro id s s' hs hs'
    obtain rfl := Option.some.inj (hs.symm.trans hs')
    exact ⟨Nat.le_refl _, fun _ hw ↦ .inl hw⟩

/-- A session keeps its identities under a change that keeps the shape. -/
theorem IdentityStep.and_sameShape {u : NativeMuxState K} (h : IdentityStep st st')
    (hshape : SameShape st' u) : IdentityStep st u where
  generation_eq := hshape.generation.trans h.generation_eq
  counter_le := hshape.nextPane ▸ h.counter_le
  paneIds_le := by
    rw [hshape.paneIds_eq, hshape.nextPane]
    exact h.paneIds_le
  windows := by
    intro id s s' hs hs'
    have hfind : ∀ v : NativeMuxState K, (v.sessions.map (·.shape)).find? (·.id == id) =
        (v.session? id).map (·.shape) := fun v ↦ by rw [List.find?_map]; rfl
    have hmid := hfind u
    rw [hshape.sessions, hfind st', hs', Option.map_some] at hmid
    obtain ⟨t, ht, hts⟩ := Option.map_eq_some_iff.mp hmid
    simp only [NativeSession.shape, SessionShape.mk.injEq] at hts
    obtain ⟨-, hnext, -, hwindows⟩ := hts
    have hids : t.windowIds = s'.windowIds := by
      have := congrArg (List.map WindowShape.id) hwindows
      rwa [List.map_map, List.map_map] at this
    have := h.windows id s t hs ht
    rwa [hnext, hids] at this

private theorem find?_of_filter {ss ss' : List (NativeSession K)} {id other : String}
    (h : ss'.filter (·.id != id) = ss.filter (·.id != id)) (hne : other ≠ id) :
    ss'.find? (·.id == other) = ss.find? (·.id == other) := by
  have hfind : ∀ l : List (NativeSession K),
      (l.filter (·.id != id)).find? (·.id == other) = l.find? (·.id == other) := by
    intro l
    rw [List.find?_filter]
    congr 1
    funext s
    by_cases hs : s.id = other
    · simp [hs, hne]
    · simp [hs]
  rw [← hfind ss', h, hfind]

private theorem windows_of_sessionsChange {ss ss' : List (NativeSession K)} {id : String}
    {added removed : Multiset NativePane} (h : SessionsChange id added removed ss ss')
    {s s' : NativeSession K} (hs : ss.find? (·.id == id) = some s)
    (hs' : ss'.find? (·.id == id) = some s') :
    s.nextWindow ≤ s'.nextWindow ∧ ∀ w ∈ s'.windowIds,
      w ∈ s.windowIds ∨ ∃ n, s.nextWindow ≤ n ∧ n < s'.nextWindow ∧ w = windowIdOf n := by
  cases h with
  | keep =>
    obtain rfl := Option.some.inj (hs.symm.trans hs')
    exact ⟨Nat.le_refl _, fun _ hw ↦ .inl hw⟩
  | @edit _ t t' _ _ found step =>
    obtain rfl := Option.some.inj (hs.symm.trans found)
    have hid : s.id = id := by simpa using List.find?_some hs
    rw [find?_modifyFirst found (by simpa using step.id_eq.trans hid)] at hs'
    obtain rfl := Option.some.inj hs'
    exact ⟨step.counter_le, step.windowIds⟩
  | create _ fresh _ =>
    refine absurd (List.mem_map.mpr ⟨s, List.mem_of_find?_eq_some hs, ?_⟩) fresh
    simpa using List.find?_some hs
  | drop =>
    have hid : s'.id = id := by simpa using List.find?_some hs'
    have := (List.mem_filter.mp (List.mem_of_find?_eq_some hs')).2
    simp [hid] at this

/-- Every topology step is an identity step. -/
theorem identityStep_of_topologyStep {id : String} {added removed : Multiset NativePane}
    (h : TopologyStep id added removed st st') : IdentityStep st st' where
  generation_eq := h.generation_eq
  counter_le := h.counter_le
  paneIds_le := by
    have hadded : added.map (·.id) ≤ st.mintedIds (st'.nextPane - st.nextPane) := by
      refine (Multiset.le_iff_subset h.nodup).mpr fun x hx ↦ ?_
      obtain ⟨pane, hp, rfl⟩ := Multiset.mem_map.mp hx
      obtain ⟨n, hn, hn', hid⟩ := h.fresh pane hp
      have := h.counter_le
      exact Multiset.mem_coe.mpr (mem_mintedIds.mpr ⟨n, hn, by omega, hid⟩)
    calc st'.paneIds ≤ (st'.panes + removed).map (·.id) :=
          Multiset.map_le_map (Multiset.le_add_right _ _)
      _ = st.paneIds + added.map (·.id) := by rw [h.panes_eq, Multiset.map_add]; rfl
      _ ≤ st.paneIds + st.mintedIds (st'.nextPane - st.nextPane) :=
          Multiset.add_le_add_left hadded
  windows := by
    intro other s s' hs hs'
    by_cases hother : other = id
    · subst hother
      exact windows_of_sessionsChange h.sessions hs hs'
    · rw [session?, find?_of_filter h.sessions.others hother] at hs'
      obtain rfl := Option.some.inj (hs.symm.trans hs')
      exact ⟨Nat.le_refl _, fun _ hw ↦ .inl hw⟩

private theorem identityStep_step [Scalar K] (hi : st.Invariant) (op : TopologyOp K) :
    IdentityStep st (st.step op) := by
  unfold step
  split
  · next h =>
    cases op with
    | execute host command =>
      rcases execute_cases h with ⟨_, _, _, _, -, h⟩ | h
      · exact (IdentityStep.refl st).and_sameShape (sameShape_setLayout h)
      · simp only [executeAndLayOut, bind_eq_ok, pure_eq_ok] at h
        obtain ⟨changed, hchanged, layouts, -, rfl⟩ := h
        obtain ⟨_, _, -, hstep⟩ := executeTopology_step hi.topology hi.shown.layoutsFit hchanged
        exact (identityStep_of_topologyStep hstep).and_sameShape
          (sameShape_withLayouts changed layouts)
    | setLayout s w layout => exact (IdentityStep.refl st).and_sameShape (sameShape_setLayout h)
    | setPaneCwd pane cwd => exact (IdentityStep.refl st).and_sameShape (sameShape_setPaneCwd h)
  · exact .refl st

variable [Scalar K]

/-- The generation never changes. -/
theorem generation_run (generation : Nat) (ops : List (TopologyOp K)) :
    (run generation ops).generation = generation := by
  induction ops using List.reverseRecOn with
  | nil => rfl
  | append_singleton ops op ih =>
    rw [run_append_singleton]
    exact (identityStep_step (invariant_run generation ops) op).generation_eq.trans ih

omit [Scalar K] in
private theorem take_append_singleton (ops : List (TopologyOp K)) (op : TopologyOp K) (i : Nat) :
    (ops ++ [op]).take i = ops.take i ∧ i ≤ ops.length ∨ (ops ++ [op]).take i = ops ++ [op] := by
  by_cases h : i ≤ ops.length
  · exact .inl ⟨List.take_append_of_le_length h, h⟩
  · refine .inr (List.take_of_length_le ?_)
    simp
    omega

/-- Every pane id of every earlier state lies below the counter. -/
theorem minted_of_prefix (generation : Nat) (ops : List (TopologyOp K)) (i : Nat) :
    ∀ id ∈ (run generation (ops.take i)).paneIds,
      ∃ n < (run generation ops).nextPane, id = paneIdOf generation n := by
  induction ops using List.reverseRecOn with
  | nil => simp [new, paneIds, panes]
  | append_singleton ops op ih =>
    intro id hid
    rcases take_append_singleton ops op i with ⟨he, -⟩ | he
    · rw [he] at hid
      obtain ⟨n, hn, hid⟩ := ih id hid
      have := (identityStep_step (invariant_run generation ops) op).counter_le
      rw [run_append_singleton]
      exact ⟨n, hn.trans_le this, hid⟩
    · rw [he] at hid
      have := (invariant_run generation (ops ++ [op])).topology.minted id hid
      rwa [generation_run] at this

/-- While a session lives, every window id it has had lies below its counter. -/
theorem windowIds_of_prefix (generation : Nat) (ops : List (TopologyOp K)) {id : String} {i : Nat}
    (halive : ∀ j, i ≤ j → ((run generation (ops.take j)).session? id).isSome = true)
    {s₀ s : NativeSession K} (hs₀ : (run generation (ops.take i)).session? id = some s₀)
    (hs : (run generation ops).session? id = some s) :
    ∀ w ∈ s₀.windowIds, ∃ n < s.nextWindow, w = windowIdOf n := by
  induction ops using List.reverseRecOn generalizing s with
  | nil => simp [new, session?] at hs
  | append_singleton ops op ih =>
    rcases take_append_singleton ops op i with ⟨he, hi⟩ | he
    · -- The session already lived in the state before the last operation.
      have hbefore := halive ops.length hi
      rw [List.take_append_of_le_length (Nat.le_refl _), List.take_length] at hbefore
      obtain ⟨t, ht⟩ := Option.isSome_iff_exists.mp hbefore
      rw [he] at hs₀
      have hmid := ih (fun j hj ↦ ?_) hs₀ ht
      · have hstep := identityStep_step (invariant_run generation ops) op
        rw [run_append_singleton] at hs
        intro w hw
        obtain ⟨n, hn, hid⟩ := hmid w hw
        exact ⟨n, hn.trans_le (hstep.windows id t s ht hs).1, hid⟩
      · by_cases hjl : j ≤ ops.length
        · have := halive j hj
          rwa [List.take_append_of_le_length hjl] at this
        · rw [List.take_of_length_le (by omega), ht]
          rfl
    · rw [he, hs] at hs₀
      obtain rfl := Option.some.inj hs₀
      have hmem : s ∈ (run generation (ops ++ [op])).sessions := List.mem_of_find?_eq_some hs
      exact ((invariant_run generation (ops ++ [op])).topology.sessions s hmem).ids.minted

end History

/-! ### Main results -/

/-- A successful command of a run adds and removes exactly the panes it says, every added id
is new to the whole run, and every other session is unchanged. -/
theorem execute_conserves_panes (generation : Nat) (ops : List (TopologyOp ℚ)) (host : Host)
    (command : MuxCommand ℚ) (st' : NativeMuxState ℚ)
    (h : (run generation ops).execute host command = .ok st') :
    let st := run generation ops
    ∃ added removed, st.CommandEffect command added removed ∧
      st'.panes + removed = st.panes + added ∧ (added.map (·.id)).Nodup ∧
      (∀ pane ∈ added, ∀ i, pane.id ∉ (run generation (ops.take i)).paneIds) ∧
      st'.sessions.filter (·.id != st.addressed command) =
        st.sessions.filter (·.id != st.addressed command) := by
  obtain ⟨added, removed, heffect, hpanes, hnodup, hfresh, hothers⟩ :=
    execute_effect (invariant_run generation ops) (agrees_run generation ops) h
  refine ⟨added, removed, heffect, hpanes, hnodup, fun pane hp i hmem ↦ ?_, hothers⟩
  obtain ⟨n, hn, hid⟩ := hfresh pane hp
  obtain ⟨m, hm, hid'⟩ := minted_of_prefix generation ops i pane.id hmem
  rw [generation_run] at hid
  have := paneIdOf_injective _ (hid'.symm.trans hid)
  omega

/-- A split in a session created before: one pane more, under a new id. -/
theorem execute_conserves_panes_split :
    let ops : List (TopologyOp ℚ) :=
      [.execute .plain (.createProjectSession "work" "/src" {} none)]
    ∃ st' pane, (run 7 ops).execute .plain (.splitPane "work" none .down) = .ok st' ∧
      st'.panes = (run 7 ops).panes + {pane} ∧ pane.id ∉ (run 7 ops).paneIds := by
  intro ops
  obtain ⟨st', h⟩ : ∃ st', (run 7 ops).execute .plain (.splitPane "work" none .down) = .ok st' :=
    exists_of_isOk (by decide +kernel)
  obtain ⟨added, removed, ⟨rfl, pane, rfl⟩, hpanes, -, hfresh, -⟩ :=
    execute_conserves_panes 7 ops .plain (.splitPane "work" none .down) st' h
  exact ⟨st', pane, h, by simpa using hpanes, hfresh pane (by simp) ops.length⟩

/-- Identities are never reused over a run: every pane id minted from here on is new, every
pane an operation brings in was minted, and while a session lives the window ids it gives
are new to it. -/
theorem identities_never_reused {K : Type} [Scalar K] (generation : Nat)
    (ops : List (TopologyOp K)) (op : TopologyOp K) :
    let st := run generation ops
    let st' := run generation (ops ++ [op])
    (∀ minted id next, (st.afterMinting minted).nextPaneId = .ok (id, next) →
      ∀ i, id ∉ (run generation (ops.take i)).paneIds) ∧
    st'.paneIds ≤ st.paneIds + st.mintedIds (st'.nextPane - st.nextPane) ∧
    (∀ sid s, st.session? sid = some s → ∀ i s₀,
      (∀ j, i ≤ j → ((run generation (ops.take j)).session? sid).isSome = true) →
      (run generation (ops.take i)).session? sid = some s₀ →
      (∀ w next, nextWindowId s = .ok (w, next) → w ∉ s₀.windowIds) ∧
      ∀ s', st'.session? sid = some s' → ∀ w ∈ s'.windowIds, w ∉ s.windowIds →
        w ∉ s₀.windowIds) := by
  have hstep := identityStep_step (invariant_run generation ops) op
  refine ⟨fun minted id next hmint i hmem ↦ ?_, ?_, fun sid s hs i s₀ halive hs₀ ↦ ?_⟩
  · obtain ⟨rfl, -⟩ := nextPaneId_eq_ok hmint
    obtain ⟨n, hn, hid⟩ := minted_of_prefix generation ops i _ hmem
    simp only [afterMinting, generation_run] at hid
    have := paneIdOf_injective _ hid
    omega
  · rw [run_append_singleton]
    exact hstep.paneIds_le
  · have hold := windowIds_of_prefix generation ops halive hs₀ hs
    have hnew : ∀ n, s.nextWindow ≤ n → windowIdOf n ∉ s₀.windowIds := by
      intro n hn hmem
      obtain ⟨m, hm, he⟩ := hold _ hmem
      have := windowIdOf_injective he
      omega
    refine ⟨fun w next hw ↦ ?_, fun s' hs' w hw hwnot ↦ ?_⟩
    · obtain ⟨rfl, -⟩ := nextWindowId_eq_ok hw
      exact hnew _ (Nat.le_refl _)
    · rw [run_append_singleton] at hs'
      rcases (hstep.windows sid s s' hs hs').2 w hw with hin | ⟨n, hn, -, rfl⟩
      · exact absurd hin hwnot
      · exact hnew n hn

end NativeMuxState
end Bootty.Mux.Native
