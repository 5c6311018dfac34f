import Bootty.Mux.Native.Layouts

/-!
# The shape of a topology

The invariant reads ids, positions and focuses, never a layout, a name, a tag or a working
directory. Two states of one shape satisfy it together; so the layout rewrite, a proposed
layout and the directory of a respawned pane leave it alone.
-/

namespace Bootty.Mux.Native

open Bootty.Base

variable {K : Type}

/-- What the invariant reads of a window. -/
structure WindowShape where
  id : String
  index : Nat
  activePaneId : String
  paneIds : List String

/-- What the invariant reads of a session. -/
structure SessionShape where
  id : String
  nextWindow : Nat
  activeWindowId : String
  windows : List WindowShape

/-- The window's ids. -/
def NativeWindow.shape (w : NativeWindow K) : WindowShape :=
  ⟨w.id, w.index, w.activePaneId, w.paneIds⟩

/-- The session's ids. -/
def NativeSession.shape (s : NativeSession K) : SessionShape :=
  ⟨s.id, s.nextWindow, s.activeWindowId, s.windows.map (·.shape)⟩

/-- Two states agree on everything the invariant reads. -/
structure SameShape (st st' : NativeMuxState K) : Prop where
  sessions : st'.sessions.map (·.shape) = st.sessions.map (·.shape)
  active : st'.activeSessionId = st.activeSessionId
  nextPane : st'.nextPane = st.nextPane
  generation : st'.generation = st.generation

theorem exists_shape_eq {α β : Type} {f : α → β} {xs ys : List α} (h : ys.map f = xs.map f)
    {y : α} (hy : y ∈ ys) : ∃ x ∈ xs, f x = f y := by
  have : f y ∈ xs.map f := h ▸ List.mem_map_of_mem hy
  exact List.mem_map.mp this

private theorem SessionOk.of_shape {s s' : NativeSession K} (h : s'.shape = s.shape)
    (hok : SessionOk s) :
    SessionOk s' := by
  simp only [NativeSession.shape, SessionShape.mk.injEq] at h
  obtain ⟨-, hnext, hactive, hwindows⟩ := h
  have hids : s'.windowIds = s.windowIds := by
    have := congrArg (List.map WindowShape.id) hwindows
    rwa [List.map_map, List.map_map] at this
  refine ⟨by rw [hnext, hids]; exact hok.ids, fun w hw ↦ ?_, fun i w hi ↦ ?_, ?_⟩
  · obtain ⟨w₀, hw₀, he⟩ := exists_shape_eq hwindows hw
    simp only [NativeWindow.shape, WindowShape.mk.injEq] at he
    have := hok.focused w₀ hw₀
    rwa [NativeWindow.Focused, he.2.2.1, he.2.2.2] at this
  · have hget := congrArg (·[i]?) hwindows
    simp only [List.getElem?_map, hi, Option.map_some] at hget
    obtain ⟨w₀, hw₀, he⟩ := Option.map_eq_some_iff.mp hget.symm
    simp only [NativeWindow.shape, WindowShape.mk.injEq] at he
    rw [← he.2.1]
    exact hok.numbered i w₀ hw₀
  · rw [hactive, hids]
    exact hok.active

namespace NativeMuxState

theorem paneIds_eq_sum (st : NativeMuxState K) :
    st.paneIds = (st.sessions.map fun s ↦
      (s.shape.windows.map fun w ↦ (w.paneIds : Multiset String)).sum).sum := by
  rw [paneIds, panes, ← Multiset.coe_mapAddMonoidHom, map_list_sum, List.map_map]
  congr 1
  refine List.map_congr_left fun s _ ↦ ?_
  rw [Function.comp_apply, NativeSession.panes, panesOf, map_list_sum, List.map_map,
    NativeSession.shape, List.map_map]
  rfl

end NativeMuxState

namespace SameShape

variable {st st' : NativeMuxState K}

private theorem sessionIds_eq (h : SameShape st st') : st'.sessionIds = st.sessionIds := by
  have := congrArg (List.map SessionShape.id) h.sessions
  rwa [List.map_map, List.map_map] at this

/-- The same shape has the same panes. -/
theorem paneIds_eq (h : SameShape st st') : st'.paneIds = st.paneIds := by
  have := congrArg (List.map fun s : SessionShape ↦
    (s.windows.map fun w ↦ (w.paneIds : Multiset String)).sum) h.sessions
  rw [List.map_map, List.map_map] at this
  rw [NativeMuxState.paneIds_eq_sum, NativeMuxState.paneIds_eq_sum]
  exact congrArg List.sum this

/-- The invariant follows the shape. -/
theorem ok (h : SameShape st st') (hok : TopologyOk st) : TopologyOk st' where
  sessionIds := by rw [h.sessionIds_eq]; exact hok.sessionIds
  sessions := by
    intro s' hs'
    obtain ⟨s, hs, he⟩ := exists_shape_eq h.sessions hs'
    exact (hok.sessions s hs).of_shape he.symm
  paneIds := by rw [h.paneIds_eq]; exact hok.paneIds
  minted := by rw [h.paneIds_eq, h.nextPane, h.generation]; exact hok.minted
  selected := by
    have hnil : st'.sessions = [] ↔ st.sessions = [] := by
      rw [← List.map_eq_nil_iff (f := (·.shape)), h.sessions, List.map_eq_nil_iff]
    have := hok.selected
    rwa [NativeMuxState.Selected, h.active, h.sessionIds_eq, if_congr hnil rfl rfl]

end SameShape

/-! ### What keeps the shape -/

namespace NativeMuxState

variable {st st' : NativeMuxState K}

theorem sameShape_withLayouts (st : NativeMuxState K) (layouts : LayoutMap (MuxPaneLayout K)) :
    SameShape st (st.withLayouts layouts) := by
  refine ⟨?_, rfl, rfl, rfl⟩
  simp only [withLayouts, List.map_map]
  refine List.map_congr_left fun s _ ↦ ?_
  simp only [Function.comp_apply, NativeSession.shape, List.map_map]
  rfl

private theorem sameShape_modifyWindow {f : NativeWindow K → NativeWindow K}
    (hf : ∀ w, (f w).shape = w.shape) (session window : String) :
    SameShape st (st.modifyWindow session window f) := by
  refine ⟨?_, rfl, rfl, rfl⟩
  apply map_modifyFirst
  intro s
  simp only [NativeSession.shape, SessionShape.mk.injEq, true_and]
  exact map_modifyFirst hf _

private theorem sameShape_setCwdOf (st : NativeMuxState K) (pane cwd : String) :
    SameShape st (st.setCwdOf pane cwd) := by
  refine ⟨?_, rfl, rfl, rfl⟩
  apply map_modifyFirst
  intro s
  simp only [NativeSession.shape, SessionShape.mk.injEq, true_and]
  apply map_modifyFirst
  intro w
  simp only [NativeWindow.shape, NativeWindow.paneIds, WindowShape.mk.injEq, true_and]
  apply map_modifyFirst
  intro p
  rfl

/-- A directory changes no shape. -/
theorem sameShape_setPaneCwd {pane cwd : String} (h : st.setPaneCwd pane cwd = .ok st') :
    SameShape st st' := by
  simp only [setPaneCwd, bind_eq_ok, pure_eq_ok] at h
  obtain ⟨_, -, rfl⟩ := h
  exact sameShape_setCwdOf st pane cwd

variable {session window : String} {layout : MuxPaneLayout K}

/-- Neither does a layout. -/
theorem sameShape_setLayout [Scalar K] (h : st.setLayout session window layout = .ok st') :
    SameShape st st' := by
  simp only [setLayout, bind_eq_ok, context_eq_ok, pure_eq_ok] at h
  obtain ⟨_, -, _, -, _, -, rfl⟩ := h
  apply sameShape_modifyWindow
  intro
  rfl

theorem setLayout_of_resizePanes [Scalar K] (h : st.resizePanes session window layout = .ok st') :
    ∃ proposed, st.setLayout session window proposed = .ok st' := by
  simp only [resizePanes, bind_eq_ok, context_eq_ok] at h
  obtain ⟨_, -, _, -, resized, -, h⟩ := h
  exact ⟨_, h⟩

/-- A proposed layout moves no pane. -/
theorem panes_setLayout [Scalar K] (h : st.setLayout session window layout = .ok st') :
    st'.panes = st.panes := by
  simp only [setLayout, bind_eq_ok, context_eq_ok, pure_eq_ok] at h
  obtain ⟨_, -, _, -, _, -, rfl⟩ := h
  refine congrArg List.sum (?_ : List.map _ _ = List.map _ _)
  apply map_modifyFirst
  intro s
  refine congrArg List.sum (?_ : List.map _ _ = List.map _ _)
  apply map_modifyFirst
  intro w
  rfl

theorem panes_withLayouts (st : NativeMuxState K) (layouts : LayoutMap (MuxPaneLayout K)) :
    (st.withLayouts layouts).panes = st.panes := by
  simp only [panes, withLayouts, List.map_map]
  congr 1
  refine List.map_congr_left fun s _ ↦ ?_
  simp only [Function.comp_apply, NativeSession.panes, panesOf, List.map_map]
  rfl

end NativeMuxState
end Bootty.Mux.Native
