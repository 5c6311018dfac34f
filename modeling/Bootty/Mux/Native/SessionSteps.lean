import Bootty.Mux.Native.State

/-!
# Steps of one session

What each session edit of `native/state.rs` does to a session: which panes it adds and
removes, which window ids it mints, and that it keeps the session well formed. The pane
lists are compared as multisets, so that panes moved between windows cancel.
-/

namespace Bootty.Mux.Native

open Bootty.Base

variable {K : Type}

/-! ### Well-formed sessions -/

/-- The ids of the window's panes. -/
def NativeWindow.paneIds (window : NativeWindow K) : List String := window.panes.map (·.id)

/-- The window's focus names one of its panes. -/
def NativeWindow.Focused (window : NativeWindow K) : Prop :=
  window.activePaneId ∈ window.paneIds

/-- The panes of a window list, with multiplicity. -/
def panesOf (windows : List (NativeWindow K)) : Multiset NativePane :=
  (windows.map fun window ↦ (window.panes : Multiset NativePane)).sum

namespace NativeSession

/-- The ids of the session's windows. -/
def windowIds (session : NativeSession K) : List String := session.windows.map (·.id)

/-- The panes of the session. -/
def panes (session : NativeSession K) : Multiset NativePane := panesOf session.windows

end NativeSession

/-- Distinct window ids, all minted below the session's counter. -/
structure IdsOk (next : Nat) (ids : List String) : Prop where
  nodup : ids.Nodup
  minted : ∀ id ∈ ids, ∃ n < next, id = windowIdOf n

/-- Each window carries its 1-based position. -/
def Numbered (windows : List (NativeWindow K)) : Prop :=
  ∀ i window, windows[i]? = some window → window.index = windowIndex i

/-- A well-formed session. -/
structure SessionOk (session : NativeSession K) : Prop where
  ids : IdsOk session.nextWindow session.windowIds
  focused : ∀ window ∈ session.windows, window.Focused
  numbered : Numbered session.windows
  active : session.activeWindowId ∈ session.windowIds

variable {s : NativeSession K}

theorem SessionOk.windows_ne_nil (h : SessionOk s) : s.windows ≠ [] := by
  intro h0
  have := h.active
  simp [NativeSession.windowIds, h0] at this

/-- A step from one form of a session to the next. -/
structure SessionStep (added removed : Multiset NativePane) (s s' : NativeSession K) : Prop where
  id_eq : s'.id = s.id
  panes_eq : s'.panes + removed = s.panes + added
  counter_le : s.nextWindow ≤ s'.nextWindow
  windowIds : ∀ id ∈ s'.windowIds,
    id ∈ s.windowIds ∨ ∃ n, s.nextWindow ≤ n ∧ n < s'.nextWindow ∧ id = windowIdOf n
  ok : SessionOk s → SessionOk s'

variable {a r : Multiset NativePane}

namespace SessionStep

theorem refl (s : NativeSession K) : SessionStep 0 0 s s :=
  ⟨rfl, rfl, Nat.le_refl _, fun _ h ↦ .inl h, id⟩

variable {t u : NativeSession K}

/-- Steps of a session compose. -/
theorem trans {a' r' : Multiset NativePane} (h : SessionStep a r s t) (h' : SessionStep a' r' t u) :
    SessionStep (a + a') (r + r') s u where
  id_eq := h'.id_eq.trans h.id_eq
  panes_eq := by
    calc u.panes + (r + r') = (u.panes + r') + r := by abel
      _ = (t.panes + r) + a' := by rw [h'.panes_eq]; abel
      _ = s.panes + (a + a') := by rw [h.panes_eq]; abel
  counter_le := h.counter_le.trans h'.counter_le
  windowIds := by
    intro id hid
    rcases h'.windowIds id hid with hid | ⟨n, hn, hn', rfl⟩
    · rcases h.windowIds id hid with hid | ⟨n, hn, hn', rfl⟩
      · exact .inl hid
      · exact .inr ⟨n, hn, hn'.trans_le h'.counter_le, rfl⟩
    · exact .inr ⟨n, h.counter_le.trans hn, hn', rfl⟩
  ok := h'.ok ∘ h.ok

/-- A step followed by one that keeps the panes. -/
theorem and_keep (h : SessionStep a r s t) (h' : SessionStep 0 0 t u) : SessionStep a r s u := by
  simpa using h.trans h'

/-- Panes that a step both adds and removes cancel. -/
theorem cancel {x : Multiset NativePane} (h : SessionStep (a + x) (r + x) s t) :
    SessionStep a r s t where
  __ := h
  panes_eq := by
    have := h.panes_eq
    rw [← add_assoc, ← add_assoc] at this
    exact add_right_cancel this

/-- What the first step adds the second removes, and the other way round. -/
theorem exchange (h : SessionStep a r s t) (h' : SessionStep r a t u) : SessionStep 0 0 s u := by
  have := h.trans h'
  rw [add_comm r a] at this
  exact cancel (x := a + r) (by simpa using this)

end SessionStep

/-! ### Window ids -/

theorem repr_injective : Function.Injective Nat.repr := by
  intro a b h
  have := congrArg String.toList h
  rw [Nat.toList_repr, Nat.toList_repr] at this
  rw [← Nat.ofDigitChars_ten_toDigits (n := a), this, Nat.ofDigitChars_ten_toDigits]

/-- Windows of different numbers have different ids. -/
theorem windowIdOf_injective : Function.Injective windowIdOf := by
  intro a b h
  exact repr_injective (by simpa [windowIdOf] using h)

namespace IdsOk

theorem sublist {next : Nat} {ids ids' : List String} (h : IdsOk next ids)
    (hs : ids'.Sublist ids) : IdsOk next ids' :=
  ⟨h.nodup.sublist hs, fun id hid ↦ h.minted id (hs.subset hid)⟩

theorem perm {next : Nat} {ids ids' : List String} (h : IdsOk next ids) (hp : ids'.Perm ids) :
    IdsOk next ids' :=
  ⟨hp.nodup_iff.mpr h.nodup, fun id hid ↦ h.minted id (hp.mem_iff.mp hid)⟩

/-- The id at the counter is fresh. -/
theorem cons {next : Nat} {ids : List String} (h : IdsOk next ids) :
    IdsOk (next + 1) (windowIdOf next :: ids) := by
  refine ⟨List.nodup_cons.mpr ⟨fun hmem ↦ ?_, h.nodup⟩, fun id hid ↦ ?_⟩
  · obtain ⟨n, hn, he⟩ := h.minted _ hmem
    have := windowIdOf_injective he
    omega
  · rcases List.mem_cons.mp hid with rfl | hid
    · exact ⟨next, by omega, rfl⟩
    · obtain ⟨n, hn, he⟩ := h.minted id hid
      exact ⟨n, by omega, he⟩

end IdsOk

/-! ### Numbering -/

private theorem map_renumberWindows {β : Type} {f : NativeWindow K → β}
    (hf : ∀ (w : NativeWindow K) n, f { w with index := n } = f w) (ws : List (NativeWindow K)) :
    (renumberWindows ws).map f = ws.map f := by
  refine List.ext_getElem? fun i ↦ ?_
  simp only [renumberWindows, List.getElem?_map, List.getElem?_mapIdx, Option.map_map]
  exact congrArg (Option.map · ws[i]?) (funext fun w ↦ hf w _)

variable {ws : List (NativeWindow K)} {w : NativeWindow K}

private theorem mem_renumberWindows (h : w ∈ renumberWindows ws) :
    ∃ w₀ ∈ ws, ∃ n, w = { w₀ with index := n } := by
  obtain ⟨i, hi⟩ := List.getElem?_of_mem h
  rw [renumberWindows, List.getElem?_mapIdx, Option.map_eq_some_iff] at hi
  obtain ⟨w₀, hw₀, rfl⟩ := hi
  exact ⟨w₀, List.mem_of_getElem? hw₀, _, rfl⟩

@[simp] theorem panesOf_renumberWindows (ws : List (NativeWindow K)) :
    panesOf (renumberWindows ws) = panesOf ws := by
  rw [panesOf, map_renumberWindows fun _ _ ↦ rfl, panesOf]

@[simp] theorem map_id_renumberWindows (ws : List (NativeWindow K)) :
    (renumberWindows ws).map (·.id) = ws.map (·.id) :=
  map_renumberWindows (fun _ _ ↦ rfl) ws

private theorem numbered_renumberWindows (ws : List (NativeWindow K)) : Numbered
    (renumberWindows ws) := by
  intro i w h
  rw [renumberWindows, List.getElem?_mapIdx, Option.map_eq_some_iff] at h
  obtain ⟨w₀, -, rfl⟩ := h
  rfl

private theorem focused_renumberWindows (h : ∀ w ∈ ws, w.Focused) :
    ∀ w ∈ renumberWindows ws, w.Focused := by
  intro w hw
  obtain ⟨w₀, hw₀, n, rfl⟩ := mem_renumberWindows hw
  exact h w₀ hw₀

/-- A renumbered window list is well formed as soon as its ids and focuses are. -/
theorem sessionOk_renumbered (hw : s.windows = renumberWindows ws)
    (hids : IdsOk s.nextWindow (ws.map (·.id))) (hf : ∀ w ∈ ws, w.Focused)
    (ha : s.activeWindowId ∈ ws.map (·.id)) : SessionOk s where
  ids := by rwa [NativeSession.windowIds, hw, map_id_renumberWindows]
  focused := by rw [hw]; exact focused_renumberWindows hf
  numbered := by rw [hw]; exact numbered_renumberWindows ws
  active := by rwa [NativeSession.windowIds, hw, map_id_renumberWindows]

/-! ### Edits of one window -/

/-- A step of one window. -/
structure WindowStep (added removed : Multiset NativePane) (w w' : NativeWindow K) : Prop where
  id_eq : w'.id = w.id
  index_eq : w'.index = w.index
  panes_eq : (w'.panes : Multiset NativePane) + removed = w.panes + added
  focused : w.Focused → w'.Focused

variable {i : Nat} {w' : NativeWindow K}

private theorem map_set_eq {β : Type} (hi : ws[i]? = some w) {f : NativeWindow K → β}
    (h : f w' = f w) :
    (ws.set i w').map f = ws.map f := by
  obtain ⟨before, after, rfl, rfl⟩ := exists_split_of_getElem? hi
  simp [h]

/-- The panes when a window is replaced. -/
theorem panesOf_set (hi : ws[i]? = some w) (w' : NativeWindow K) :
    panesOf (ws.set i w') + w.panes = panesOf ws + w'.panes :=
  sum_map_set hi w' fun window ↦ (window.panes : Multiset NativePane)

/-- The panes when a window is removed. -/
theorem panesOf_eraseIdx (hi : ws[i]? = some w) : panesOf (ws.eraseIdx i) + w.panes = panesOf ws :=
  sum_map_eraseIdx hi fun window ↦ (window.panes : Multiset NativePane)

theorem focused_set (h : ∀ w ∈ ws, w.Focused) (h' : w'.Focused) : ∀ w ∈ ws.set i w', w.Focused := by
  intro w hw
  rcases List.mem_or_eq_of_mem_set hw with hw | rfl
  · exact h w hw
  · exact h'

/-- Editing one window in place is a step of the session. -/
theorem SessionStep.of_set (hi : s.windows[i]? = some w) (h : WindowStep a r w w') :
    SessionStep a r s { s with windows := s.windows.set i w' } where
  id_eq := rfl
  panes_eq := by
    have h1 := panesOf_set hi w'
    have h2 := h.panes_eq
    change panesOf (s.windows.set i w') + r = panesOf s.windows + a
    refine add_right_cancel (b := (w.panes : Multiset NativePane)) ?_
    calc panesOf (s.windows.set i w') + r + w.panes
        = (panesOf (s.windows.set i w') + w.panes) + r := by abel
      _ = panesOf s.windows + (w'.panes + r) := by rw [h1]; abel
      _ = panesOf s.windows + a + w.panes := by rw [h2]; abel
  counter_le := Nat.le_refl _
  windowIds := fun id hid ↦ .inl (by rwa [NativeSession.windowIds, map_set_eq hi h.id_eq] at hid)
  ok := by
    intro hs
    have hids : (s.windows.set i w').map (·.id) = s.windows.map (·.id) := map_set_eq hi h.id_eq
    refine ⟨?_, focused_set hs.focused (h.focused (hs.focused w (List.mem_of_getElem? hi))), ?_, ?_⟩
    · rw [NativeSession.windowIds, hids]
      exact hs.ids
    · intro j x hj
      rw [List.getElem?_set] at hj
      split at hj
      · next he =>
        obtain ⟨-, rfl⟩ := Option.ite_none_right_eq_some.mp hj |>.imp id Option.some.inj
        rw [h.index_eq, ← he]
        exact hs.numbered i w hi
      · exact hs.numbered j x hj
    · rw [NativeSession.windowIds, hids]
      exact hs.active

private theorem modifyFirst_eq_set {p : NativeWindow K → Bool} (h : ws.find? p = some w)
    (f : NativeWindow K → NativeWindow K) :
    ∃ i, ws[i]? = some w ∧ modifyFirst p f ws = ws.set i (f w) := by
  obtain ⟨before, after, rfl, hb, ha⟩ := exists_split_of_find? h
  exact ⟨before.length, by simp, by simp [modifyFirst_append_cons hb ha]⟩

/-- Editing the first matching window is a step of the session. -/
theorem SessionStep.of_modifyFirst {p : NativeWindow K → Bool} {f : NativeWindow K → NativeWindow K}
    (hp : s.windows.find? p = some w) (h : WindowStep a r w (f w)) :
    SessionStep a r s { s with windows := modifyFirst p f s.windows } := by
  obtain ⟨i, hi, he⟩ := modifyFirst_eq_set hp f
  rw [he]
  exact .of_set hi h

theorem mem_windowIds_set (hi : i < s.windows.length) :
    w.id ∈ NativeSession.windowIds { s with windows := s.windows.set i w } :=
  List.mem_map_of_mem (List.mem_set hi w)

/-- Selecting one of the windows is a step of the session. -/
theorem SessionStep.of_activate {id : String} (h : id ∈ s.windowIds) :
    SessionStep 0 0 s { s with activeWindowId := id } :=
  ⟨rfl, rfl, Nat.le_refl _, fun _ h ↦ .inl h, fun hs ↦ ⟨hs.ids, hs.focused, hs.numbered, h⟩⟩

/-- Renaming and stamping touch nothing that is checked. -/
theorem SessionStep.of_labels (s : NativeSession K) (name : String) (tag : MuxSessionTag) :
    SessionStep 0 0 s { s with name := name, tag := tag } :=
  ⟨rfl, rfl, Nat.le_refl _, fun _ h ↦ .inl h, fun hs ↦ ⟨hs.ids, hs.focused, hs.numbered, hs.active⟩⟩

end Bootty.Mux.Native
