import Bootty.Mux.Native.SessionSteps

/-!
# Session edits

One law for each session-level function of `native/state.rs`: every successful edit is a
`SessionStep` with the panes it adds and removes. `closePaneIn` may also empty the session,
which its caller then drops.
-/

namespace Bootty.Mux.Native

open Bootty.Base

variable {K : Type}

/-! ### Locations -/

/-- The pane a command addresses: the named one, or the focus of the selected window. -/
def Targets (session : NativeSession K) (paneId : Option String) (pane : NativePane) : Prop :=
  match paneId with
  | some id => pane ∈ session.panes ∧ pane.id = id
  | none => ∃ window ∈ session.windows,
      window.id = session.activeWindowId ∧ pane ∈ window.panes ∧ pane.id = window.activePaneId

variable {pane : NativePane}

private theorem mem_panesOf {ws : List (NativeWindow K)} :
    pane ∈ panesOf ws ↔ ∃ w ∈ ws, pane ∈ w.panes := by
  induction ws with
  | nil => simp [panesOf]
  | cons w ws ih =>
    rw [panesOf, List.map_cons, List.sum_cons, Multiset.mem_add, ← panesOf, ih]
    simp

variable {s : NativeSession K} {p : Nat}

private theorem paneLocation_eq_some {id : String} {w : Nat} (h : paneLocation s id = some (w, p)) :
    ∃ window pane, s.windows[w]? = some window ∧ window.panes[p]? = some pane ∧ pane.id = id := by
  simp only [paneLocation, Option.bind_eq_some_iff, Option.map_eq_some_iff, Prod.mk.injEq] at h
  obtain ⟨w', -, p', ⟨window, hw, hp⟩, rfl, rfl⟩ := h
  obtain ⟨pane, hpane, hid⟩ := getElem?_of_findIdx? hp
  exact ⟨window, pane, hw, hpane, by simpa using hid⟩

/-- Where a pane is. -/
theorem targetPaneLocation_eq_ok {id : Option String} {w : Nat}
    (h : targetPaneLocation s id = .ok (w, p)) :
    ∃ window pane, s.windows[w]? = some window ∧ window.panes[p]? = some pane ∧
      Targets s id pane := by
  cases id with
  | some id =>
    rw [targetPaneLocation, context_eq_ok] at h
    obtain ⟨window, pane, hw, hp, hid⟩ := paneLocation_eq_some h
    exact ⟨window, pane, hw, hp,
      mem_panesOf.mpr ⟨window, List.mem_of_getElem? hw, List.mem_of_getElem? hp⟩, hid⟩
  | none =>
    simp only [targetPaneLocation, bind_eq_ok, context_eq_ok, pure_eq_ok, Prod.mk.injEq] at h
    obtain ⟨w', hw, window, hwindow, p', hp, rfl, rfl⟩ := h
    obtain ⟨window', hw', hid⟩ := getElem?_of_findIdx? hw
    obtain rfl := Option.some.inj (hwindow.symm.trans hw')
    obtain ⟨pane, hpane, hactive⟩ := getElem?_of_findIdx? hp
    exact ⟨window, pane, hwindow, hpane, window, List.mem_of_getElem? hwindow,
      by simpa using hid, List.mem_of_getElem? hpane, by simpa using hactive⟩

/-! ### Closing a pane -/

private theorem getD_mem_map {α : Type} {l : List α} {f : α → String} {i : Nat} {d : String}
    (h : l ≠ []) : (l[min i (l.length - 1)]?.map f).getD d ∈ l.map f := by
  have hlen : 0 < l.length := List.length_pos_of_ne_nil h
  have hi : min i (l.length - 1) < l.length := by omega
  rw [List.getElem?_eq_getElem hi]
  exact List.mem_map_of_mem (List.getElem_mem hi)

variable {w : NativeWindow K}

/-- A pane of the session has a location. -/
theorem exists_paneLocation {id : String} (hw : w ∈ s.windows) (hp : id ∈ w.paneIds) :
    ∃ location, paneLocation s id = some location := by
  obtain ⟨pane, hpane, hid⟩ := List.mem_map.mp hp
  have hany : w.panes.any (·.id == id) = true :=
    List.any_eq_true.mpr ⟨pane, hpane, by simpa using hid⟩
  obtain ⟨i, hi⟩ := Option.isSome_iff_exists.mp (List.findIdx?_isSome.trans
    (List.any_eq_true.mpr ⟨w, hw, hany⟩) : (s.windows.findIdx? fun window ↦
      window.panes.any (·.id == id)).isSome = true)
  obtain ⟨window, hwindow, hshows⟩ := getElem?_of_findIdx? hi
  obtain ⟨j, hj⟩ := Option.isSome_iff_exists.mp (List.findIdx?_isSome.trans hshows)
  exact ⟨(i, j), by simp [paneLocation, hi, hwindow, hj]⟩

/-- A pane of the session can be closed. -/
theorem closePaneIn_isOk {id : String} (hw : w ∈ s.windows) (hp : id ∈ w.paneIds) (all : Bool) :
    ∃ closed, closePaneIn s (some id) all = .ok closed := by
  obtain ⟨⟨i, j⟩, hlocation⟩ := exists_paneLocation hw hp
  obtain ⟨window, pane, hwindow, hpane, -⟩ := paneLocation_eq_some hlocation
  simp only [closePaneIn, targetPaneLocation, hlocation, context_some, ok_bind, hwindow, hpane]
  split
  · exact ⟨_, rfl⟩
  · split <;> exact ⟨_, rfl⟩

/-- Only a kill leaves the session alone. -/
theorem closePaneIn_eq_none {id : Option String} {all : Bool} (h : closePaneIn s id all = .ok none)
    : all = false := by
  simp only [closePaneIn, bind_eq_ok, Prod.exists] at h
  obtain ⟨w, p, -, window, -, h⟩ := h
  split at h
  · next hkeep => simpa using (Bool.and_eq_true_iff.mp hkeep).1
  · simp only [bind_eq_ok] at h
    obtain ⟨pane, -, h⟩ := h
    split at h <;> simp [pure_eq_ok] at h

private theorem SessionStep.of_eraseWindow {w : Nat} {window : NativeWindow K} {active : String}
    (hw : s.windows[w]? = some window)
    (hactive : SessionOk s → active ∈ (s.windows.eraseIdx w).map (·.id)) :
    SessionStep 0 window.panes s
      { s with windows := renumberWindows (s.windows.eraseIdx w), activeWindowId := active } := by
  have hsub : ((s.windows.eraseIdx w).map (·.id)).Sublist s.windowIds :=
    (List.eraseIdx_sublist _ _).map _
  constructor
  · rfl
  · show panesOf (renumberWindows (s.windows.eraseIdx w)) + _ = panesOf s.windows + 0
    rw [panesOf_renumberWindows, panesOf_eraseIdx hw, add_zero]
  · exact Nat.le_refl _
  · intro id hid
    rw [NativeSession.windowIds, map_id_renumberWindows] at hid
    exact .inl (hsub.subset hid)
  · intro hs
    exact sessionOk_renumbered rfl (hs.ids.sublist hsub)
      (fun x hx ↦ hs.focused x (List.mem_of_mem_eraseIdx hx)) (hactive hs)

variable {s' : NativeSession K}

/-- What `closePaneIn` does when it does anything. -/
theorem closePaneIn_eq_some {id : Option String} {all active : Bool}
    (h : closePaneIn s id all = .ok (some (s', active))) :
    ∃ pane, Targets s id pane ∧ s'.id = s.id ∧
      (s'.windows = [] ∧ s.panes = {pane} ∨ s'.windows ≠ [] ∧ SessionStep 0 {pane} s s') := by
  simp only [closePaneIn, bind_eq_ok, context_eq_ok, Prod.exists] at h
  obtain ⟨w, p, hl, window, hw, h⟩ := h
  obtain ⟨window', pane, hw', hp, ht⟩ := targetPaneLocation_eq_ok hl
  obtain rfl := Option.some.inj (hw.symm.trans hw')
  refine ⟨pane, ht, ?_⟩
  split at h
  · simp at h
  · simp only [bind_eq_ok, context_eq_ok] at h
    obtain ⟨pane', hp', h⟩ := h
    obtain rfl := Option.some.inj (hp.symm.trans hp')
    have herase : ((window.panes.eraseIdx p : List NativePane) : Multiset NativePane) + {pane} =
        window.panes := coe_eraseIdx hp
    split at h
    · next hempty =>
      simp only [pure_eq_ok, Option.some.injEq, Prod.mk.injEq] at h
      obtain ⟨rfl, -⟩ := h
      refine ⟨rfl, ?_⟩
      have hone : (window.panes : Multiset NativePane) = {pane} := by
        rw [← herase, List.isEmpty_iff.mp hempty]
        simp
      have hsum : panesOf (s.windows.eraseIdx w) + {pane} = panesOf s.windows := by
        rw [← hone]
        exact panesOf_eraseIdx hw
      by_cases hnil : s.windows.eraseIdx w = []
      · left
        refine ⟨by simp [hnil, renumberWindows], ?_⟩
        rw [NativeSession.panes, ← hsum, hnil]
        simp [panesOf]
      · right
        have hnil' : renumberWindows (s.windows.eraseIdx w) ≠ [] := by
          simpa [renumberWindows] using hnil
        rw [← hone]
        refine ⟨hnil', .of_eraseWindow hw fun hs ↦ ?_⟩
        split
        · rw [← map_id_renumberWindows]
          exact getD_mem_map hnil'
        · next hne => exact mem_map_eraseIdx hw hs.active (by simpa using hne)
    · next hrest =>
      simp only [pure_eq_ok, Option.some.injEq, Prod.mk.injEq] at h
      obtain ⟨rfl, -⟩ := h
      have hne : window.panes.eraseIdx p ≠ [] := by simpa using hrest
      refine ⟨rfl, .inr ⟨?_, .of_set hw ⟨rfl, rfl, by simpa using herase, fun hf ↦ ?_⟩⟩⟩
      · have := List.length_pos_of_mem (List.mem_of_getElem? hw)
        simpa [List.set_eq_nil_iff] using List.ne_nil_of_length_pos this
      · change (if (pane.id == window.activePaneId) = true then _ else window.activePaneId) ∈ _
        split
        · exact getD_mem_map hne
        · next hid => exact mem_map_eraseIdx hp hf (by simpa using hid)

/-! ### Merging and swapping -/

variable {source target : String}

/-- Merging two tabs moves panes between windows and drops the emptied one. -/
theorem mergeWindowsIn_step (h : mergeWindowsIn s source target = .ok s') :
    SessionStep 0 0 s s' := by
  simp only [mergeWindowsIn, bind_eq_ok, context_eq_ok, ensure_eq_ok, pure_eq_ok] at h
  obtain ⟨i, hi, -, -, j, hj, a, ha, b, hb, -, hij, rfl⟩ := h
  have hij : i ≠ j := by simpa using hij
  set merged : NativeWindow K := { b with
    panes := b.panes ++ a.panes
    activePaneId := a.activePaneId } with hm
  have ha' : (s.windows.set j merged)[i]? = some a := by
    rw [List.getElem?_set_ne (Ne.symm hij), ha]
  have hids : (s.windows.set j merged).map (·.id) = s.windows.map (·.id) := by
    obtain ⟨before, after, he, rfl⟩ := exists_split_of_getElem? hb
    simp [he, hm]
  have hsub : (((s.windows.set j merged).eraseIdx i).map (·.id)).Sublist s.windowIds := by
    rw [NativeSession.windowIds, ← hids]
    exact (List.eraseIdx_sublist _ _).map _
  have hmem : merged ∈ (s.windows.set j merged).eraseIdx i := by
    rw [List.mem_eraseIdx_iff_getElem?]
    exact ⟨j, Ne.symm hij, by simp [(List.getElem?_eq_some_iff.mp hb).1]⟩
  refine ⟨rfl, ?_, Nat.le_refl _, fun id hid ↦ .inl (hsub.subset ?_), fun hs ↦ ?_⟩
  · change panesOf (renumberWindows _) + 0 = panesOf _ + 0
    rw [panesOf_renumberWindows, add_zero, add_zero]
    have h1 := panesOf_eraseIdx ha'
    have h2 := panesOf_set hb merged
    rw [hm, ← Multiset.coe_add, ← hm] at h2
    refine add_right_cancel (b := (a.panes : Multiset NativePane) + b.panes) ?_
    calc panesOf ((s.windows.set j merged).eraseIdx i) + (a.panes + b.panes)
        = panesOf (s.windows.set j merged) + b.panes := by rw [← h1]; abel
      _ = panesOf s.windows + (a.panes + b.panes) := by rw [h2]; abel
  · rwa [NativeSession.windowIds, map_id_renumberWindows] at hid
  · refine sessionOk_renumbered rfl (hs.ids.sublist hsub) ?_ ?_
    · intro x hx
      refine focused_set hs.focused ?_ x (List.mem_of_mem_eraseIdx hx)
      have : a.activePaneId ∈ a.paneIds := hs.focused a (List.mem_of_getElem? ha)
      exact List.mem_map.mpr <| by
        obtain ⟨p, hp, he⟩ := List.mem_map.mp this
        exact ⟨p, List.mem_append_right _ hp, he⟩
    · exact List.mem_map_of_mem (f := (·.id)) hmem

private theorem focused_of_mem {p : NativePane} (h : p ∈ w.panes) (hid : p.id = w.activePaneId) :
    w.Focused :=
  List.mem_map.mpr ⟨p, h, hid⟩

/-- Swapping two panes keeps every pane, in one window or across two. -/
theorem swapPanesIn_step (h : swapPanesIn s source target = .ok s') : SessionStep 0 0 s s' := by
  simp only [swapPanesIn, bind_eq_ok, context_eq_ok, ensure_eq_ok, Prod.exists] at h
  obtain ⟨sw, sp, hs, tw, tp, ht, -, hne, h⟩ := h
  have hne : source ≠ target := by simpa using hne
  obtain ⟨a, x, ha, hx, hxid⟩ := paneLocation_eq_some hs
  obtain ⟨b, y, hb, hy, hyid⟩ := paneLocation_eq_some ht
  split at h
  · next hw =>
    subst hw
    obtain rfl := Option.some.inj (ha.symm.trans hb)
    simp only [ha, hx, hy, bind_eq_ok, context_eq_ok, pure_eq_ok, Option.some.injEq,
      exists_eq_left'] at h
    subst h
    have hpos : sp ≠ tp := by
      rintro rfl
      exact hne (by rw [← hxid, ← hyid, Option.some.inj (hx.symm.trans hy)])
    have hy' : (a.panes.set sp y)[tp]? = some y := by rw [List.getElem?_set_ne hpos, hy]
    have hstep : WindowStep 0 0 a
        { a with panes := (a.panes.set sp y).set tp x, activePaneId := source } := by
      refine ⟨rfl, rfl, ?_, fun _ ↦ focused_of_mem (p := x) ?_ hxid⟩
      · have h1 := coe_set hy' x
        have h2 := coe_set hx y
        change (((a.panes.set sp y).set tp x : List NativePane) : Multiset NativePane) + 0 = _ + 0
        refine add_right_cancel (b := ({y} : Multiset NativePane)) ?_
        rw [add_zero, add_zero, h1, h2]
      · exact List.mem_set (List.getElem?_eq_some_iff.mp hy').1 x
    exact (SessionStep.of_set ha hstep).and_keep
      (.of_activate (mem_windowIds_set (List.getElem?_eq_some_iff.mp ha).1))
  · next hw =>
    simp only [ha, hb, hx, hy, bind_eq_ok, context_eq_ok, pure_eq_ok, Option.some.injEq,
      exists_eq_left'] at h
    subst h
    have hfirst : WindowStep {y} {x} a { a with
        panes := a.panes.set sp y
        activePaneId := if a.activePaneId = source then target else a.activePaneId } := by
      refine ⟨rfl, rfl, coe_set hx y, fun hf ↦ ?_⟩
      change (if a.activePaneId = source then target else a.activePaneId) ∈ _
      split
      · exact List.mem_map.mpr ⟨y, List.mem_set (List.getElem?_eq_some_iff.mp hx).1 y, hyid⟩
      · next hid => exact mem_map_set hx hf (by rw [hxid]; exact Ne.symm hid)
    have hsecond : WindowStep {x} {y} b
        { b with panes := b.panes.set tp x, activePaneId := source } :=
      ⟨rfl, rfl, coe_set hy x, fun _ ↦ focused_of_mem (p := x)
        (List.mem_set (List.getElem?_eq_some_iff.mp hy).1 x) hxid⟩
    have hb' : (s.windows.set sw { a with
        panes := a.panes.set sp y
        activePaneId := if a.activePaneId = source then target else a.activePaneId })[tw]? =
          some b := by
      rw [List.getElem?_set_ne hw, hb]
    refine ((SessionStep.of_set ha hfirst).exchange (.of_set hb' hsecond)).and_keep
      (.of_activate (mem_windowIds_set (s := { s with windows := _ }) ?_))
    exact (List.getElem?_eq_some_iff.mp hb').1

/-! ### Moving panes and windows -/

private theorem coe_takePane {id : String} (h : w.panes[p]? = some pane) :
    ((takePane w id p).panes : Multiset NativePane) + {pane} = w.panes :=
  coe_eraseIdx h

private theorem focused_takePane (h : w.panes[p]? = some pane)
    (hne : (takePane w pane.id p).panes ≠ []) (hf : w.Focused) :
    (takePane w pane.id p).Focused := by
  unfold takePane at hne ⊢
  change (if w.activePaneId = pane.id then _ else w.activePaneId) ∈ (w.panes.eraseIdx p).map _
  split
  · obtain ⟨first, rest, he⟩ := List.exists_cons_of_ne_nil hne
    rw [show w.panes.eraseIdx p = first :: rest from he]
    simp
  · next hid => exact mem_map_eraseIdx h hf (Ne.symm hid)

/-- Moving a pane beside another keeps every pane; a window left empty is dropped. -/
theorem movePaneIn_step {d : MuxDirection} (h : movePaneIn s source target d = .ok s') :
    SessionStep 0 0 s s' := by
  simp only [movePaneIn, bind_eq_ok, context_eq_ok, ensure_eq_ok, pure_eq_ok, Prod.exists] at h
  obtain ⟨sw, sp, hs, tw, -, -, -, -, tWindow, -, old, ho, pane, hp, i, hi, dest, hd, pos, hpos,
    rfl⟩ := h
  obtain ⟨old', pane', ho', hp', hid⟩ := paneLocation_eq_some hs
  obtain rfl := Option.some.inj (ho.symm.trans ho')
  obtain rfl := Option.some.inj (hp.symm.trans hp')
  subst hid
  set taken := takePane old pane.id sp with htaken
  set kept := (s.windows.set sw taken).filter (!·.panes.isEmpty) with hkept
  set after := if d = .right ∨ d = .down then 1 else 0 with hafter
  have hdest : dest.id = tWindow.id := by
    obtain ⟨x, hx, hxid⟩ := getElem?_of_findIdx? hi
    rw [Option.some.inj (hd.symm.trans hx)]
    simpa using hxid
  have hsub : (kept.map (·.id)).Sublist s.windowIds := by
    have : (s.windows.set sw taken).map (·.id) = s.windows.map (·.id) := by
      obtain ⟨before, rest, he, rfl⟩ := exists_split_of_getElem? ho
      simp [he, htaken, takePane]
    rw [NativeSession.windowIds, ← this]
    exact List.filter_sublist.map _
  have hposlt : pos < dest.panes.length := by
    obtain ⟨x, hx, -⟩ := getElem?_of_findIdx? hpos
    exact (List.getElem?_eq_some_iff.mp hx).1
  have hins : pos + after ≤ dest.panes.length := by
    have : after ≤ 1 := by rw [hafter]; split <;> omega
    omega
  set dest' : NativeWindow K := { dest with
    panes := dest.panes.insertIdx (pos + after) pane
    activePaneId := pane.id } with hdest'
  have hids : (kept.set i dest').map (·.id) = kept.map (·.id) := by
    obtain ⟨before, rest, he, rfl⟩ := exists_split_of_getElem? hd
    simp [he, hdest']
  have hmem : pane ∈ dest'.panes := by
    rw [hdest']
    exact (List.mem_insertIdx hins).mpr (.inl rfl)
  refine ⟨rfl, ?_, Nat.le_refl _, fun id hid ↦ .inl (hsub.subset ?_), fun hok ↦ ?_⟩
  · change panesOf (renumberWindows _) + 0 = panesOf _ + 0
    rw [panesOf_renumberWindows, add_zero, add_zero]
    have h1 := panesOf_set hd dest'
    have h2 : (dest'.panes : Multiset NativePane) = {pane} + dest.panes :=
      Multiset.coe_eq_coe.mpr (List.perm_insertIdx pane dest.panes hins)
    have h3 : panesOf kept = panesOf (s.windows.set sw taken) := by
      refine sum_map_filter fun w _ hw ↦ ?_
      simpa using hw
    have h4 := panesOf_set ho taken
    have h5 : (taken.panes : Multiset NativePane) + {pane} = old.panes := coe_takePane hp
    refine add_right_cancel (b := (dest.panes : Multiset NativePane) + old.panes) ?_
    calc panesOf (kept.set i dest') + (dest.panes + old.panes)
        = (panesOf (kept.set i dest') + dest.panes) + old.panes := by abel
      _ = (panesOf (s.windows.set sw taken) + old.panes) + ({pane} + dest.panes) := by
          rw [h1, h2, h3]; abel
      _ = panesOf s.windows + (dest.panes + (taken.panes + {pane})) := by rw [h4]; abel
      _ = panesOf s.windows + (dest.panes + old.panes) := by rw [h5]
  · rwa [NativeSession.windowIds, map_id_renumberWindows, hids] at hid
  · refine sessionOk_renumbered rfl (by rw [hids]; exact hok.ids.sublist hsub) ?_ ?_
    · refine focused_set (fun w hw ↦ ?_) (focused_of_mem hmem rfl)
      obtain ⟨hw, hne⟩ := List.mem_filter.mp hw
      rcases List.mem_or_eq_of_mem_set hw with hw | rfl
      · exact hok.focused w hw
      · exact focused_takePane hp (by simpa using hne) (hok.focused old (List.mem_of_getElem? ho))
    · rw [hids, ← hdest]
      exact List.mem_map_of_mem (f := (·.id)) (List.mem_of_getElem? hd)

/-- How a window's id is minted. -/
theorem nextWindowId_eq_ok {id : String} (h : nextWindowId s = .ok (id, s')) :
    id = windowIdOf s.nextWindow ∧ s' = { s with nextWindow := s.nextWindow + 1 } := by
  simp only [nextWindowId, bind_eq_ok, ensure_eq_ok, pure_eq_ok, Prod.mk.injEq] at h
  obtain ⟨-, -, rfl, rfl⟩ := h
  exact ⟨rfl, rfl⟩

/-- Giving a pane its own tab keeps every pane and mints one window id. -/
theorem extractPaneIn_step {id : String} (h : extractPaneIn s id = .ok s') :
    SessionStep 0 0 s s' := by
  simp only [extractPaneIn, bind_eq_ok, context_eq_ok, ensure_eq_ok, pure_eq_ok,
    Prod.exists] at h
  obtain ⟨w, p, hl, source, hw, -, hlen, wid, s₁, hnext, pane, hp, rfl⟩ := h
  obtain ⟨source', pane', hw', hp', hid⟩ := paneLocation_eq_some hl
  obtain rfl := Option.some.inj (hw.symm.trans hw')
  obtain rfl := Option.some.inj (hp.symm.trans hp')
  obtain ⟨rfl, rfl⟩ := nextWindowId_eq_ok hnext
  subst hid
  set taken := takePane source pane.id p with htaken
  set extracted : NativeWindow K :=
    { id := windowIdOf s.nextWindow, index := 0, name := source.name, customName := false
      activePaneId := pane.id, panes := [pane], layout := none } with hextracted
  have hwlt : w < s.windows.length := (List.getElem?_eq_some_iff.mp hw).1
  have hperm : ((s.windows.set w taken).insertIdx (w + 1) extracted).Perm
      (extracted :: s.windows.set w taken) :=
    List.perm_insertIdx _ _ (by rw [List.length_set]; exact hwlt)
  have hset : (s.windows.set w taken).map (·.id) = s.windows.map (·.id) := by
    obtain ⟨before, rest, he, rfl⟩ := exists_split_of_getElem? hw
    simp [he, htaken, takePane]
  have hids : (((s.windows.set w taken).insertIdx (w + 1) extracted).map (·.id)).Perm
      (windowIdOf s.nextWindow :: s.windowIds) := by
    rw [NativeSession.windowIds, ← hset]
    exact hperm.map _
  have hne : taken.panes ≠ [] := by
    have hplt : p < source.panes.length := (List.getElem?_eq_some_iff.mp hp).1
    have : 2 ≤ source.panes.length := by simpa using hlen
    refine List.ne_nil_of_length_pos ?_
    rw [htaken, takePane, List.length_eraseIdx, if_pos hplt]
    omega
  refine ⟨rfl, ?_, Nat.le_succ _, fun id hid ↦ ?_, fun hok ↦ ?_⟩
  · change panesOf (renumberWindows _) + 0 = panesOf _ + 0
    rw [panesOf_renumberWindows, add_zero, add_zero, panesOf, (hperm.map _).sum_eq, List.map_cons,
      List.sum_cons, ← panesOf]
    have h1 := panesOf_set hw taken
    have h2 : (taken.panes : Multiset NativePane) + {pane} = source.panes := coe_takePane hp
    refine add_right_cancel (b := (source.panes : Multiset NativePane)) ?_
    change {pane} + panesOf (s.windows.set w taken) + source.panes = _
    calc {pane} + panesOf (s.windows.set w taken) + source.panes
        = panesOf s.windows + (taken.panes + {pane}) := by rw [add_assoc, h1]; abel
      _ = panesOf s.windows + source.panes := by rw [h2]
  · rw [NativeSession.windowIds, map_id_renumberWindows] at hid
    rcases List.mem_cons.mp (hids.mem_iff.mp hid) with rfl | hid
    · exact .inr ⟨s.nextWindow, Nat.le_refl _, Nat.lt_succ_self _, rfl⟩
    · exact .inl hid
  · refine sessionOk_renumbered rfl (hok.ids.cons.perm hids) (fun x hx ↦ ?_) ?_
    · rcases List.mem_cons.mp (hperm.mem_iff.mp hx) with rfl | hx
      · exact focused_of_mem (p := pane) (by simp [hextracted]) rfl
      · exact focused_set hok.focused
          (focused_takePane hp hne (hok.focused source (List.mem_of_getElem? hw))) x hx
    · exact hids.mem_iff.mpr (by simp)

/-- Reordering tabs keeps the windows. -/
theorem moveWindowIn_step (s : NativeSession K) (id : Option String) (delta : Int) :
    SessionStep 0 0 s (moveWindowIn s id delta) := by
  simp only [moveWindowIn]
  split
  · exact .refl s
  · next i hi =>
    split
    · exact .refl s
    · next window hw =>
      obtain ⟨window', hw', hid⟩ := getElem?_of_findIdx? hi
      obtain rfl := Option.some.inj (hw.symm.trans hw')
      have hperm := perm_insertIdx_eraseIdx hw
        (show clampMoveIndex i delta s.windows.length ≤ s.windows.length - 1 from
          Nat.min_le_right _ _)
      refine ⟨rfl, ?_, Nat.le_refl _, fun x hx ↦ .inl ?_, fun hok ↦ ?_⟩
      · change panesOf (renumberWindows _) + 0 = panesOf _ + 0
        rw [panesOf_renumberWindows, panesOf, (hperm.map _).sum_eq, panesOf]
      · rw [NativeSession.windowIds, map_id_renumberWindows] at hx
        exact (hperm.map _).mem_iff.mp hx
      · refine sessionOk_renumbered rfl (hok.ids.perm (hperm.map _))
          (fun x hx ↦ hok.focused x (hperm.mem_iff.mp hx)) ?_
        refine (hperm.map _).mem_iff.mpr (List.mem_map.mpr ⟨window, List.mem_of_getElem? hw, ?_⟩)
        simpa using hid

/-- A new tab adds one pane and mints one window id. -/
theorem newWindowIn_step {host : Host} {paneId : String} {cwd : Option String}
    (h : newWindowIn host s paneId cwd = .ok s') :
    SessionStep {⟨paneId, cwd.getD (inheritedCwd s)⟩} 0 s s' := by
  simp only [newWindowIn, bind_eq_ok, ensure_eq_ok, pure_eq_ok, Prod.exists] at h
  obtain ⟨-, hlen, wid, s₁, hnext, rfl⟩ := h
  obtain ⟨rfl, rfl⟩ := nextWindowId_eq_ok hnext
  refine ⟨rfl, ?_, Nat.le_succ _, fun id hid ↦ ?_, fun hok ↦ ⟨?_, ?_, ?_, ?_⟩⟩
  · simp [NativeSession.panes, panesOf]
  · simp only [NativeSession.windowIds, List.map_append, List.map_cons, List.map_nil,
      List.mem_append, List.mem_singleton] at hid
    rcases hid with hid | rfl
    · exact .inl hid
    · exact .inr ⟨s.nextWindow, Nat.le_refl _, Nat.lt_succ_self _, rfl⟩
  · refine hok.ids.cons.perm ?_
    simp only [NativeSession.windowIds, List.map_append, List.map_cons, List.map_nil]
    exact List.perm_append_comm
  · intro w hw
    rcases List.mem_append.mp hw with hw | hw
    · exact hok.focused w hw
    · rw [List.mem_singleton.mp hw]
      simp [NativeWindow.Focused, NativeWindow.paneIds]
  · intro i w hi
    change (s.windows ++ [_])[i]? = some w at hi
    rw [List.getElem?_append] at hi
    split at hi
    · exact hok.numbered i w hi
    · next hge =>
      have hi' : i - s.windows.length = 0 := by
        have := (List.getElem?_eq_some_iff.mp hi).1
        simpa using this
      rw [hi', List.getElem?_cons_zero] at hi
      obtain rfl := Option.some.inj hi
      have : s.windows.length + 1 ≤ u32Max := by simpa using hlen
      have hi0 : i = s.windows.length := by omega
      rw [windowIndex, hi0, Nat.min_eq_left this]
  · simp [NativeSession.windowIds]

end Bootty.Mux.Native
