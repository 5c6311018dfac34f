import Bootty.Mux.Native.Execute
import Bootty.Mux.Native.Restore

/-!
# Layouts after a command

`updated_layouts` (`native/layout.rs`) reads the layouts in force, rearranges those of the
addressed session, and fits every window's layout to its live panes. When no two windows
share a key, each window is laid out by itself; its result shows exactly its panes.
-/

namespace Bootty.Mux.Native

open Bootty.Base

variable {K : Type}

/-! ### Keys -/

/-- The key of a window in a layout map. -/
def layoutKey (entry : MuxSession K × MuxWindow K) : String × String := (entry.1.id, entry.2.id)

variable {st : NativeMuxState K} {s : NativeSession K} {w : NativeWindow K}

namespace NativeMuxState

/-- The windows of a snapshot. -/
theorem snapshotWindows_snapshot (st : NativeMuxState K) :
    snapshotWindows st.snapshot = st.sessions.flatMap fun s ↦
      s.windows.map fun w ↦ (st.snapshotSession s, st.snapshotWindow s w) := by
  simp only [snapshotWindows, snapshot, List.flatMap_map]
  congr 1
  funext s
  simp [snapshotSession]

/-- Every window has its own key. -/
theorem nodup_keys (h : TopologyOk st) :
    ((snapshotWindows st.snapshot).map layoutKey).Nodup := by
  rw [snapshotWindows_snapshot, List.map_flatMap]
  have hkeys : ∀ s : NativeSession K, (s.windows.map fun w ↦
      (st.snapshotSession s, st.snapshotWindow s w)).map layoutKey = s.windowIds.map (s.id, ·) := by
    intro s
    simp [NativeSession.windowIds, layoutKey, snapshotSession, snapshotWindow]
  simp only [hkeys]
  refine List.nodup_flatMap.mpr ⟨fun s hs ↦ ?_, ?_⟩
  · exact ((h.sessions s hs).ids.nodup).map fun a b he ↦ (Prod.mk.inj he).2
  · refine List.Pairwise.imp ?_ (List.pairwise_map.mp h.sessionIds)
    intro s t hne x hx hy
    obtain ⟨a, -, rfl⟩ := List.mem_map.mp hx
    obtain ⟨b, -, he⟩ := List.mem_map.mp hy
    exact hne (Prod.mk.inj he).1.symm

theorem mem_snapshotWindows (hs : s ∈ st.sessions) (hw : w ∈ s.windows) :
    (st.snapshotSession s, st.snapshotWindow s w) ∈ snapshotWindows st.snapshot := by
  rw [snapshotWindows_snapshot]
  exact List.mem_flatMap.mpr ⟨s, hs, List.mem_map.mpr ⟨w, hw, rfl⟩⟩

theorem snapshotWindow_ids (st : NativeMuxState K) (s : NativeSession K) (w : NativeWindow K) :
    (st.snapshotWindow s w).panes.filterMap (·.paneId) = w.paneIds := by
  simp only [snapshotWindow, List.filterMap_map, NativeWindow.paneIds]
  exact congrFun (List.filterMap_eq_map (f := NativePane.id)) w.panes

end NativeMuxState

section Generic

variable [Scalar K]

/-! ### The layouts in force -/

/-- One insertion of the first loop. -/
private def insertLayout (layouts : LayoutMap (PaneLayout K))
    (entry : MuxSession K × MuxWindow K) : LayoutMap (PaneLayout K) :=
  match entry.2.layout.bind PaneLayout.fromMuxLayout with
  | some layout => Function.update layouts (layoutKey entry) (some layout)
  | none => layouts

variable {layouts : LayoutMap (PaneLayout K)} {entry : MuxSession K × MuxWindow K}
  {key : String × String}

private theorem insertLayout_of_ne (h : key ≠ layoutKey entry) :
    insertLayout layouts entry key = layouts key := by
  unfold insertLayout
  cases entry.2.layout.bind PaneLayout.fromMuxLayout with
  | none => rfl
  | some layout => exact Function.update_of_ne h _ _

private theorem insertLayout_self :
    insertLayout layouts entry (layoutKey entry) =
      (entry.2.layout.bind PaneLayout.fromMuxLayout <|> layouts (layoutKey entry)) := by
  unfold insertLayout
  cases entry.2.layout.bind PaneLayout.fromMuxLayout with
  | none => rfl
  | some layout => exact Function.update_self _ _ _

private theorem currentLayouts_eq (before : MuxSnapshot K) :
    currentLayouts before = (snapshotWindows before).foldl insertLayout fun _ ↦ none := by
  simp only [currentLayouts, snapshotWindows, List.foldl_flatMap, List.foldl_map]
  rfl

variable {entries : List (MuxSession K × MuxWindow K)}

private theorem foldl_insertLayout_of_notMem (h : key ∉ entries.map layoutKey) :
    entries.foldl insertLayout layouts key = layouts key := by
  induction entries generalizing layouts with
  | nil => rfl
  | cons entry entries ih =>
    simp only [List.map_cons, List.mem_cons, not_or] at h
    rw [List.foldl_cons, ih h.2, insertLayout_of_ne h.1]

private theorem foldl_insertLayout (hn : (entries.map layoutKey).Nodup) (hm : entry ∈ entries)
    (hnone : layouts (layoutKey entry) = none) :
    entries.foldl insertLayout layouts (layoutKey entry) =
      entry.2.layout.bind PaneLayout.fromMuxLayout := by
  induction entries generalizing layouts with
  | nil => simp at hm
  | cons e entries ih =>
    rw [List.map_cons, List.nodup_cons] at hn
    rw [List.foldl_cons]
    rcases List.mem_cons.mp hm with rfl | hm
    · rw [foldl_insertLayout_of_notMem hn.1, insertLayout_self, hnone]
      cases entry.2.layout.bind PaneLayout.fromMuxLayout <;> rfl
    · have hne : layoutKey entry ≠ layoutKey e :=
        fun he ↦ hn.1 (he ▸ List.mem_map_of_mem hm)
      exact ih hn.2 hm (by rw [insertLayout_of_ne hne, hnone])

/-- The map holds each window's layout as `from_mux_layout` accepts it. -/
theorem currentLayouts_snapshot (h : TopologyOk st) (hs : s ∈ st.sessions) (hw : w ∈ s.windows) :
    currentLayouts st.snapshot (s.id, w.id) = w.layout.bind PaneLayout.fromMuxLayout := by
  rw [currentLayouts_eq]
  exact foldl_insertLayout (NativeMuxState.nodup_keys h)
    (NativeMuxState.mem_snapshotWindows hs hw) rfl

variable {l : PaneLayout K}

/-- A key with a layout belongs to a window. -/
theorem exists_window_of_currentLayouts (h : currentLayouts st.snapshot key = some l) :
    ∃ s ∈ st.sessions, ∃ w ∈ s.windows, key = (s.id, w.id) := by
  by_contra hno
  rw [currentLayouts_eq, foldl_insertLayout_of_notMem] at h
  · simp at h
  · intro hmem
    obtain ⟨entry, hentry, rfl⟩ := List.mem_map.mp hmem
    rw [NativeMuxState.snapshotWindows_snapshot] at hentry
    obtain ⟨s, hs, hentry⟩ := List.mem_flatMap.mp hentry
    obtain ⟨w, hw, rfl⟩ := List.mem_map.mp hentry
    exact hno ⟨s, hs, w, hw, rfl⟩

private theorem exists_of_foldl_insertLayout (h : entries.foldl insertLayout layouts key = some l) :
    (∃ tree, PaneLayout.fromMuxLayout tree = some l) ∨ layouts key = some l := by
  induction entries generalizing layouts with
  | nil => exact .inr h
  | cons entry entries ih =>
    refine (ih h).elim .inl fun h ↦ ?_
    by_cases hk : key = layoutKey entry
    · subst hk
      rw [insertLayout_self] at h
      cases hl : entry.2.layout.bind PaneLayout.fromMuxLayout with
      | none =>
        rw [hl] at h
        exact .inr h
      | some l' =>
        rw [hl] at h
        obtain ⟨tree, -, htree⟩ := Option.bind_eq_some_iff.mp hl
        exact .inl ⟨tree, htree.trans h⟩
    · exact .inr (by rwa [insertLayout_of_ne hk] at h)

/-- Every entry of the map was accepted by `from_mux_layout`. -/
theorem exists_of_currentLayouts {before : MuxSnapshot K} (h : currentLayouts before key = some l) :
    ∃ tree, PaneLayout.fromMuxLayout tree = some l := by
  rw [currentLayouts_eq] at h
  exact (exists_of_foldl_insertLayout h).resolve_right (by simp)

/-! ### The loop over the windows -/

variable {before : MuxSnapshot K} {command : MuxCommand K}

private theorem windowLayout_congr {layouts' : LayoutMap (PaneLayout K)}
    (h : layouts (layoutKey entry) = layouts' (layoutKey entry)) :
    windowLayout before command layouts entry.1 entry.2 =
      windowLayout before command layouts' entry.1 entry.2 := by
  simp only [windowLayout]
  rw [show layouts (entry.1.id, entry.2.id) = layouts' (entry.1.id, entry.2.id) from h]

private theorem layOut_of_notMem {result out : LayoutMap (MuxPaneLayout K)}
    (hk : key ∉ entries.map layoutKey) (h : layOut before command entries layouts result = .ok out)
    : out key = result key := by
  induction entries generalizing layouts result with
  | nil => rw [← Except.ok.inj h]
  | cons entry entries ih =>
    simp only [List.map_cons, List.mem_cons, not_or] at hk
    unfold layOut at h
    split at h
    · simp at h
    · exact ih hk.2 h
    · rw [ih hk.2 h]
      exact Function.update_of_ne hk.1 _ _

/-- With distinct keys every window is laid out by itself. -/
theorem layOut_eq_ok {result out : LayoutMap (MuxPaneLayout K)} (hn : (entries.map layoutKey).Nodup)
    (hnone : ∀ entry ∈ entries, result (layoutKey entry) = none)
    (h : layOut before command entries layouts result = .ok out) :
    ∀ entry ∈ entries,
      windowLayout before command layouts entry.1 entry.2 = .ok (out (layoutKey entry)) := by
  induction entries generalizing layouts result with
  | nil => simp
  | cons e entries ih =>
    rw [List.map_cons, List.nodup_cons] at hn
    have hne : ∀ entry ∈ entries, layoutKey entry ≠ layoutKey e :=
      fun entry hm he ↦ hn.1 (he ▸ List.mem_map_of_mem hm)
    intro entry hm
    unfold layOut at h
    split at h
    · simp at h
    · next hl =>
      rcases List.mem_cons.mp hm with rfl | hm
      · rw [layOut_of_notMem hn.1 h, hnone entry (by simp)]
        exact hl
      · exact ih hn.2 (fun x hx ↦ hnone x (by simp [hx])) h entry hm
    · next layout hl =>
      rcases List.mem_cons.mp hm with rfl | hm
      · rw [layOut_of_notMem hn.1 h]
        exact hl.trans (by rw [layoutKey, Function.update_self])
      · have := ih hn.2 (fun x hx ↦ ?_) h entry hm
        · rw [← this]
          refine windowLayout_congr (Eq.symm ?_)
          exact Function.update_of_ne (hne entry hm) _ _
        · exact (Function.update_of_ne (hne x hx) _ _).trans (hnone x (by simp [hx]))

/-- The loop succeeds when every window can be laid out. -/
theorem layOut_isOk (result : LayoutMap (MuxPaneLayout K)) (hn : (entries.map layoutKey).Nodup)
    (hok : ∀ entry ∈ entries, ∃ r, windowLayout before command layouts entry.1 entry.2 = .ok r) :
    ∃ out, layOut before command entries layouts result = .ok out := by
  induction entries generalizing layouts result with
  | nil => exact ⟨result, rfl⟩
  | cons e entries ih =>
    rw [List.map_cons, List.nodup_cons] at hn
    have hne : ∀ entry ∈ entries, layoutKey entry ≠ layoutKey e :=
      fun entry hm he ↦ hn.1 (he ▸ List.mem_map_of_mem hm)
    obtain ⟨r, hr⟩ := hok e (by simp)
    unfold layOut
    simp only [hr]
    cases r with
    | none => exact ih _ hn.2 fun x hx ↦ hok x (by simp [hx])
    | some layout =>
      refine ih _ hn.2 fun x hx ↦ ?_
      obtain ⟨r', hr'⟩ := hok x (by simp [hx])
      refine ⟨r', hr' ▸ windowLayout_congr ?_⟩
      exact Function.update_of_ne (hne x hx) _ _

/-! ### One window -/

/-- The panes counted and looked up by the final check are the window's panes. -/
theorem perm_of_check {leaves ids : List String} (hn : ids.Nodup)
    (h : (leaves.length == ids.length && ids.all leaves.contains) = true) : leaves.Perm ids := by
  simp only [Bool.and_eq_true, beq_iff_eq, List.all_eq_true, List.contains_iff_mem] at h
  have hsub : ids.Subperm leaves := hn.subperm h.2
  exact (hsub.perm_of_length_le h.1.le).symm

omit [Scalar K] in
private theorem elim_setFocus_root (focus : Option String) (l : PaneLayout K) :
    (focus.elim l fun focus ↦ (l.setFocus focus).getD l).root = l.root := by
  cases focus with
  | none => rfl
  | some focus => exact PaneLayout.setFocus_root l focus

/-- A window that was laid out shows exactly its panes. -/
theorem windowLayout_perm {session : MuxSession K} {window : MuxWindow K}
    {r : Option (MuxPaneLayout K)} {ids : List String}
    (hids : window.panes.filterMap (·.paneId) = ids) (hne : ids ≠ []) (hn : ids.Nodup)
    (h : windowLayout before command layouts session window = .ok r) :
    ∃ tree, r = some tree ∧ tree.leaves.Perm ids := by
  obtain ⟨first, rest, rfl⟩ := List.exists_cons_of_ne_nil hne
  simp only [windowLayout, hids, List.head?_cons, bind_eq_ok, ensure_eq_ok, pure_eq_ok] at h
  obtain ⟨-, hcheck, rfl⟩ := h
  refine ⟨_, rfl, ?_⟩
  rw [PaneLayout.snapshot, elim_setFocus_root]
  exact perm_of_check hn hcheck

end Generic

/-! ### The state after the rewrite -/

namespace NativeMuxState

/-- The pane ids of one window are distinct. -/
theorem nodup_paneIds (h : TopologyOk st) (hs : s ∈ st.sessions) (hw : w ∈ s.windows) :
    w.paneIds.Nodup := by
  have hle : (w.panes : Multiset NativePane) ≤ st.panes := by
    obtain ⟨x, hx⟩ := exists_sum_map_of_mem hs (·.panes)
    obtain ⟨y, hy⟩ := exists_sum_map_of_mem hw fun w ↦ (w.panes : Multiset NativePane)
    rw [panes, hx, NativeSession.panes, panesOf, hy, add_assoc]
    exact Multiset.le_add_right _ _
  have := Multiset.nodup_of_le (Multiset.map_le_map hle) h.paneIds
  exact Multiset.coe_nodup.mp (by simpa [NativeWindow.paneIds] using this)

theorem paneIds_ne_nil (h : w.Focused) : w.paneIds ≠ [] :=
  List.ne_nil_of_mem h

/-- Every window of the rewritten state has a layout that shows exactly its panes. -/
def Shown (st : NativeMuxState K) : Prop :=
  ∀ s ∈ st.sessions, ∀ w ∈ s.windows, ∃ tree, w.layout = some tree ∧ tree.leaves.Perm w.paneIds

/-- What is shown fits its window. -/
theorem Shown.layoutsFit (h : st.Shown) : st.LayoutsFit := by
  intro windows hwindows w hw layout hl p hp
  obtain ⟨s, hs, rfl⟩ := List.mem_map.mp hwindows
  obtain ⟨tree, htree, hperm⟩ := h s hs w hw
  obtain rfl : tree = layout := Option.some.inj (htree.symm.trans hl)
  exact hperm.mem_iff.mp hp

end NativeMuxState
end Bootty.Mux.Native
