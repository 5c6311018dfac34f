import Bootty.Mux.Native.Commands

/-!
# Restoring a session

The two loops of `restore_session` (`native/state.rs:153–223`). A restored window holds one
fresh pane for each saved one, in order, and the windows take the ids `tab-1`, `tab-2`, … ;
validation supplies the focus of each window.
-/

namespace Bootty.Mux.Native
namespace NativeMuxState

open Bootty.Base

variable {K : Type}

/-- Consecutive pane ids from the counter on. -/
def mintedIds (st : NativeMuxState K) (count : Nat) : List String :=
  (List.range' st.nextPane count).map (paneIdOf st.generation)

/-- The counter after minting. -/
def afterMinting (st : NativeMuxState K) (count : Nat) : NativeMuxState K :=
  { st with nextPane := st.nextPane + count }

theorem mintedIds_succ (st : NativeMuxState K) (count : Nat) :
    st.mintedIds (count + 1) =
      paneIdOf st.generation st.nextPane :: (st.afterMinting 1).mintedIds count := by
  simp [mintedIds, afterMinting, List.range'_succ]

theorem mintedIds_add (st : NativeMuxState K) (m n : Nat) :
    st.mintedIds (m + n) = st.mintedIds m ++ (st.afterMinting m).mintedIds n := by
  simp [mintedIds, afterMinting, ← List.range'_append_1]

theorem afterMinting_afterMinting (st : NativeMuxState K) (m n : Nat) :
    (st.afterMinting m).afterMinting n = st.afterMinting (m + n) := by
  simp [afterMinting, Nat.add_assoc]

private theorem nodup_mintedIds (st : NativeMuxState K) (count : Nat) :
    (st.mintedIds count).Nodup :=
  (List.nodup_range' 1).map (paneIdOf_injective _)

variable {st : NativeMuxState K}

/-- Which ids are minted. -/
theorem mem_mintedIds {count : Nat} {id : String} :
    id ∈ st.mintedIds count ↔
      ∃ n, st.nextPane ≤ n ∧ n < st.nextPane + count ∧ id = paneIdOf st.generation n := by
  simp only [mintedIds, List.mem_map, List.mem_range'_1]
  constructor
  · rintro ⟨n, ⟨h1, h2⟩, rfl⟩
    exact ⟨n, h1, h2, rfl⟩
  · rintro ⟨n, h1, h2, rfl⟩
    exact ⟨n, ⟨h1, h2⟩, rfl⟩

/-! ### Panes -/

variable {st' : NativeMuxState K}

/-- The pane loop mints one pane for each saved one and focuses the saved focus. -/
theorem restorePanes_eq_ok {focused : String} {saved : List SavedTerminalPane}
    {built built' : RestoredPanes} (h : restorePanes focused saved built st = .ok (built', st')) :
    ∃ news, built'.panes = built.panes ++ news ∧ news.map (·.id) = st.mintedIds saved.length ∧
      news.map (·.cwd) = saved.map (·.cwd) ∧ st' = st.afterMinting saved.length ∧
      (built'.activePaneId ∈ news.map (·.id) ∨
        built'.activePaneId = built.activePaneId ∧ ∀ pane ∈ saved, pane.id ≠ focused) := by
  induction saved generalizing built st with
  | nil =>
    obtain ⟨rfl, rfl⟩ := Prod.mk.injEq .. ▸ pure_eq_ok.mp h
    exact ⟨[], by simp, by simp [mintedIds], rfl, rfl, .inr ⟨rfl, by simp⟩⟩
  | cons pane saved ih =>
    simp only [restorePanes, bind_eq_ok, Prod.exists] at h
    obtain ⟨id, st₁, hmint, h⟩ := h
    obtain ⟨rfl, rfl⟩ := nextPaneId_eq_ok hmint
    obtain ⟨news, hpanes, hids, hcwd, hst, hfocus⟩ := ih h
    refine ⟨⟨paneIdOf st.generation st.nextPane, pane.cwd⟩ :: news, ?_, ?_, ?_, ?_, ?_⟩
    · simp [hpanes]
    · rw [List.length_cons, mintedIds_succ, List.map_cons, hids]
      rfl
    · simp [hcwd]
    · rw [hst, List.length_cons, Nat.add_comm saved.length, ← afterMinting_afterMinting]
      rfl
    · rcases hfocus with hmem | ⟨heq, hnone⟩
      · exact .inl (List.mem_cons_of_mem _ hmem)
      · rw [heq]
        by_cases hp : pane.id = focused
        · left
          simp [hp]
        · right
          refine ⟨by simp [hp], fun q hq ↦ ?_⟩
          rcases List.mem_cons.mp hq with rfl | hq
          · exact hp
          · exact hnone q hq

/-! ### Windows -/

/-- How many panes a list of saved windows holds. -/
def savedCount (saved : List (SavedTerminalWindow K)) : Nat :=
  (saved.map (·.panes.length)).sum

private theorem windowIndex_of_le {i : Nat} (h : i + 1 ≤ u32Max) : windowIndex i = i + 1 :=
  Nat.min_eq_left h

/-- What the window loop has built. -/
structure RestoredFrom (saved : List (SavedTerminalWindow K)) (position : Nat)
    (st st' : NativeMuxState K) (news : List (NativeWindow K)) : Prop where
  ids : news.map (·.id) = (List.range' (position + 1) saved.length).map windowIdOf
  numbered : ∀ i w, news[i]? = some w → w.index = windowIndex (position + i)
  focused : ∀ w ∈ news, w.Focused
  paneIds : (panesOf news).map (·.id) = st.mintedIds (savedCount saved)
  cwds : (panesOf news).map (·.cwd) = ((saved.flatMap (·.panes)).map (·.cwd) : List String)
  state : st' = st.afterMinting (savedCount saved)

private theorem RestoredFrom.cons {window : SavedTerminalWindow K}
    {rest : List (SavedTerminalWindow K)} {position : Nat} {st st' : NativeMuxState K}
    {w : NativeWindow K} {news : List (NativeWindow K)}
    (h : RestoredFrom rest (position + 1) (st.afterMinting window.panes.length) st' news)
    (hid : w.id = windowIdOf (position + 1)) (hindex : w.index = windowIndex position)
    (hfocus : w.Focused) (hids : w.panes.map (·.id) = st.mintedIds window.panes.length)
    (hcwd : w.panes.map (·.cwd) = window.panes.map (·.cwd)) :
    RestoredFrom (window :: rest) position st st' (w :: news) where
  ids := by
    rw [List.map_cons, hid, h.ids, List.length_cons, List.range'_succ, List.map_cons]
  numbered := by
    intro i x hi
    cases i with
    | zero =>
      obtain rfl : w = x := by simpa using hi
      exact hindex
    | succ i =>
      rw [h.numbered i x (by simpa using hi)]
      congr 1
      omega
  focused := by
    intro x hx
    rcases List.mem_cons.mp hx with rfl | hx
    · exact hfocus
    · exact h.focused x hx
  paneIds := by
    rw [panesOf, List.map_cons, List.sum_cons, Multiset.map_add, ← panesOf, h.paneIds,
      Multiset.map_coe, hids, Multiset.coe_add, ← mintedIds_add]
    rfl
  cwds := by
    rw [panesOf, List.map_cons, List.sum_cons, Multiset.map_add, ← panesOf, h.cwds,
      Multiset.map_coe, hcwd, Multiset.coe_add, List.flatMap_cons, List.map_append]
  state := by
    rw [h.state, afterMinting_afterMinting]
    rfl

/-- The window loop restores every saved window, and the first one is selected unless the
checkpoint names another. -/
theorem restoreWindows_eq_ok {active : Option String} {saved : List (SavedTerminalWindow K)}
    {position : Nat} {built built' : RestoredWindows K}
    (hfocus : ∀ window ∈ saved, ∃ pane ∈ window.panes, pane.id = window.focusedPaneId)
    (h : restoreWindows active saved position built st = .ok (built', st')) :
    ∃ news, built'.windows = built.windows ++ news ∧ RestoredFrom saved position st st' news ∧
      (built'.activeWindowId ∈ news.map (·.id) ∨ built'.activeWindowId = built.activeWindowId ∧
        (position = 0 → built.activeWindowId = "" → saved = [])) := by
  induction saved generalizing position built st with
  | nil =>
    obtain ⟨rfl, rfl⟩ := Prod.mk.injEq .. ▸ pure_eq_ok.mp h
    refine ⟨[], by simp, ⟨by simp, by simp, by simp, ?_, by simp [panesOf], ?_⟩, .inr ⟨rfl, by simp⟩⟩
    · simp [panesOf, savedCount, mintedIds]
    · simp [savedCount, afterMinting]
  | cons window rest ih =>
    simp only [restoreWindows, bind_eq_ok, ensure_eq_ok, Prod.exists] at h
    obtain ⟨panes, st₁, hpanes, -, hindex, layout, -, h⟩ := h
    obtain ⟨newPanes, hbuilt, hids, hcwd, rfl, hactive⟩ := restorePanes_eq_ok hpanes
    rw [List.nil_append] at hbuilt
    obtain ⟨news, hwindows, hfrom, hsel⟩ :=
      ih (fun w hw ↦ hfocus w (List.mem_cons_of_mem _ hw)) h
    set w : NativeWindow K :=
      { id := windowIdOf (position + 1), index := position + 1, name := window.title
        customName := true, activePaneId := panes.activePaneId, panes := panes.panes
        layout := layout } with hw
    have hfocused : w.Focused := by
      rcases hactive with hmem | ⟨-, hnone⟩
      · rw [NativeWindow.Focused, NativeWindow.paneIds, hw, hbuilt]
        exact hmem
      · obtain ⟨pane, hp, he⟩ := hfocus window (by simp)
        exact absurd he (hnone pane hp)
    refine ⟨w :: news, by simp [hwindows], hfrom.cons rfl ?_ hfocused ?_ ?_, ?_⟩
    · exact (windowIndex_of_le (by simpa using hindex)).symm
    · rw [hw, hbuilt, hids]
    · rw [hw, hbuilt, hcwd]
    · rcases hsel with hmem | ⟨heq, -⟩
      · exact .inl (List.mem_cons_of_mem _ hmem)
      · rw [heq]
        simp only
        split
        · left
          simp [hw]
        · next hno =>
          refine .inr ⟨rfl, fun h0 hempty ↦ ?_⟩
          exact absurd (.inr ⟨hempty, h0⟩) hno

/-- Restoring adds one session with a fresh pane for each saved one. -/
theorem restoreSession_step [Scalar K] {host : Host} {id : String} {tag : MuxSessionTag}
    {snapshot : SavedTerminalSession K} (h : st.restoreSession host id tag snapshot = .ok st') :
    ∃ added, TopologyStep id added 0 st st' ∧
      added.map (·.cwd) = ((snapshot.windows.flatMap (·.panes)).map (·.cwd) : List String) := by
  simp only [restoreSession, bind_eq_ok, ensure_eq_ok, pure_eq_ok, Prod.exists] at h
  obtain ⟨_, hvalid, _, -, _, hunique, built, st₁, hwindows, _, -, rfl⟩ := h
  obtain ⟨hne, hsaved⟩ := snapshot.windows_of_validate hvalid
  obtain ⟨news, hnews, hfrom, hsel⟩ := restoreWindows_eq_ok (fun w hw ↦ (hsaved w hw).2) hwindows
  have hbuilt : built.windows = news := by simpa using hnews
  have hactive : built.activeWindowId ∈ built.windows.map (·.id) := by
    rcases hsel with hmem | ⟨-, hnil⟩
    · rwa [hbuilt]
    · exact absurd (hnil rfl rfl) hne
  have hlen : built.windows.length = snapshot.windows.length := by
    have := congrArg List.length hfrom.ids
    simpa [hbuilt] using this
  set s : NativeSession K :=
    { nextWindow := built.windows.length + 1, id := id, name := id
      activeWindowId := built.activeWindowId, windows := built.windows, tag := tag } with hs
  have hok : SessionOk s := by
    refine ⟨⟨?_, ?_⟩, ?_, ?_, hactive⟩
    · rw [NativeSession.windowIds, hs, hbuilt, hfrom.ids]
      exact (List.nodup_range' 1).map windowIdOf_injective
    · intro x hx
      rw [NativeSession.windowIds, hs, hbuilt, hfrom.ids] at hx
      obtain ⟨n, hn, rfl⟩ := List.mem_map.mp hx
      rw [List.mem_range'_1] at hn
      exact ⟨n, by simp only [hs]; omega, rfl⟩
    · rw [hs, hbuilt]
      exact hfrom.focused
    · intro i w hi
      rw [hs, hbuilt] at hi
      rw [hfrom.numbered i w hi, Nat.zero_add]
  have hpanes : s.panes = panesOf news := by rw [NativeSession.panes, hs, hbuilt]
  have habsent : st.session? id = none := by
    rw [session?, List.find?_eq_none]
    intro x hx hid
    simp only [Bool.not_eq_true', List.any_eq_false] at hunique
    exact hunique x hx (by simp [hid])
  have hst : st₁ = st.afterMinting (savedCount snapshot.windows) := hfrom.state
  refine ⟨s.panes, .create rfl habsent hok (by rw [hst]; rfl) (by rw [hst]; rfl) ?_ rfl ?_ ?_, ?_⟩
  · rw [hst]
    exact Nat.le_add_right _ _
  · intro pane hp
    have : pane.id ∈ st.mintedIds (savedCount snapshot.windows) := by
      rw [← Multiset.mem_coe, ← hfrom.paneIds, ← hpanes]
      exact Multiset.mem_map_of_mem _ hp
    rw [hst]
    exact mem_mintedIds.mp this
  · rw [hpanes, hfrom.paneIds]
    exact Multiset.coe_nodup.mpr (nodup_mintedIds st _)
  · rw [hpanes, hfrom.cwds]

end NativeMuxState
end Bootty.Mux.Native
