import Bootty.Mux.Native.Restore
import Bootty.Mux.PaneLayoutRename
import Bootty.Mux.SavedShape

/-!
# The session that is restored

What `restore_session` (`crates/bootty-mux/src/native/state.rs:153–223`) builds of a checkpoint that
passed: each saved pane gets a new id, and the windows, their panes, layouts and focus are those
that were saved under the new ids.
-/

namespace Bootty.Mux.Native
namespace NativeMuxState

open Bootty.Base

variable {K : Type} {st : NativeMuxState K} {newId : String → String}

/-! ### Panes -/

/-- One pane for each saved one. -/
def restoredPanes (newId : String → String) (saved : List SavedTerminalPane) : List NativePane :=
  saved.map fun pane ↦ ⟨newId pane.id, pane.cwd⟩

private theorem nextPaneId_of_room (h : st.nextPane + 1 ≤ u64Max) :
    st.nextPaneId = .ok (paneIdOf st.generation st.nextPane, st.afterMinting 1) := by
  rw [nextPaneId, ensure, if_pos (by simpa using h)]
  rfl

/-- The pane loop mints the new ids, and its map holds those of the saved ids. -/
theorem restorePanes_of_room {focused : String} {saved : List SavedTerminalPane}
    {built : RestoredPanes} (hroom : st.nextPane + saved.length ≤ u64Max)
    (hids : saved.map (fun pane ↦ newId pane.id) = st.mintedIds saved.length) :
    ∃ built', restorePanes focused saved built st = .ok (built', st.afterMinting saved.length) ∧
      built'.panes = built.panes ++ restoredPanes newId saved ∧
      (∀ id ∈ saved.map (·.id), built'.mapping.lookup id = some (newId id)) ∧
      (∀ id, id ∉ saved.map (·.id) → built'.mapping.lookup id = built.mapping.lookup id) ∧
      (focused ∈ saved.map (·.id) → built'.activePaneId = newId focused) ∧
      (focused ∉ saved.map (·.id) → built'.activePaneId = built.activePaneId) := by
  induction saved generalizing built st with
  | nil => exact ⟨built, rfl, by simp [restoredPanes], by simp, fun _ _ ↦ rfl, by simp, fun _ ↦ rfl⟩
  | cons pane rest ih =>
    rw [List.map_cons, List.length_cons, mintedIds_succ] at hids
    have ⟨hid, hrest⟩ := List.cons.inj hids
    rw [List.length_cons] at hroom
    have ⟨built', hrun, hpanes, hmapped, hkept, hfocus, hunfocused⟩ :=
      @ih (st.afterMinting 1)
        { panes := built.panes ++ [⟨newId pane.id, pane.cwd⟩]
          mapping := (pane.id, newId pane.id) :: built.mapping
          activePaneId := if pane.id = focused then newId pane.id else built.activePaneId }
        (by rw [afterMinting]; dsimp only; omega) hrest
    refine ⟨built', ?_, ?_, ?_, ?_, ?_, ?_⟩
    · rw [restorePanes, nextPaneId_of_room (by omega), ok_bind]
      dsimp only
      rw [← hid, hrun, afterMinting_afterMinting, List.length_cons, Nat.add_comm]
    · rw [hpanes, List.append_assoc]
      rfl
    · intro id hmem
      by_cases hin : id ∈ rest.map (·.id)
      · exact hmapped id hin
      · have heq : id = pane.id := by simpa [hin] using hmem
        rw [hkept id hin, heq, List.lookup_cons_self]
    · intro id hmem
      rw [List.map_cons, List.mem_cons, not_or] at hmem
      rw [hkept id hmem.2, List.lookup_cons, beq_false_of_ne hmem.1]
    · intro hmem
      by_cases hin : focused ∈ rest.map (·.id)
      · exact hfocus hin
      · have heq : focused = pane.id := by simpa [hin] using hmem
        rw [hunfocused hin, heq, if_pos rfl]
    · intro hmem
      rw [List.map_cons, List.mem_cons, not_or] at hmem
      rw [hunfocused hmem.2, if_neg (Ne.symm hmem.1)]

/-! ### Layouts -/

mutual

/-- A layout whose leaves are all in the map is renamed. -/
theorem remapLayout_eq_rename {mapping : List (String × String)} {layout : MuxPaneLayout K}
    (h : ∀ id ∈ layout.leaves, mapping.lookup id = some (newId id)) :
    remapLayout mapping layout = .ok (layout.rename newId) := by
  cases layout with
  | pane id =>
    rw [remapLayout, h id (List.mem_singleton_self id)]
    rfl
  | split direction weights children =>
    rw [MuxPaneLayout.leaves_split] at h
    rw [remapLayout, remapLayouts_eq_rename h]
    rfl

private theorem remapLayouts_eq_rename {mapping : List (String × String)}
    {children : List (MuxPaneLayout K)}
    (h : ∀ id ∈ MuxPaneLayout.leavesOf children, mapping.lookup id = some (newId id)) :
    remapLayouts mapping children = .ok (MuxPaneLayout.renameAll newId children) := by
  cases children with
  | nil => rfl
  | cons child rest =>
    rw [MuxPaneLayout.leavesOf_cons] at h
    rw [remapLayouts, remapLayout_eq_rename fun id hid ↦ h id (List.mem_append_left _ hid),
      remapLayouts_eq_rename fun id hid ↦ h id (List.mem_append_right _ hid)]
    rfl

end

/-! ### Windows -/

/-- The window that is restored from a saved one. -/
def restoredWindow (newId : String → String) (position : Nat) (saved : SavedTerminalWindow K) :
    NativeWindow K :=
  { id := windowIdOf (position + 1), index := position + 1, name := saved.title, customName := true
    activePaneId := newId saved.focusedPaneId, panes := restoredPanes newId saved.panes
    layout := saved.layout.map (MuxPaneLayout.rename newId) }

/-- The windows that are restored, from a position on. -/
def restoredWindows (newId : String → String) :
    Nat → List (SavedTerminalWindow K) → List (NativeWindow K)
  | _, [] => []
  | position, saved :: rest =>
    restoredWindow newId position saved :: restoredWindows newId (position + 1) rest

/-- The selection of the window loop. -/
def selectedAfter (active : Option String) : List (SavedTerminalWindow K) → Nat → String → String
  | [], _, current => current
  | saved :: rest, position, current =>
    selectedAfter active rest (position + 1)
      (if active = some saved.id ∨ (current = "" ∧ position = 0) then windowIdOf (position + 1)
        else current)

/-- What the window loop asks of a saved window. -/
structure Restorable (saved : SavedTerminalWindow K) : Prop where
  focused : saved.focusedPaneId ∈ saved.panes.map (·.id)
  leaves : ∀ layout, saved.layout = some layout → ∀ id ∈ layout.leaves, id ∈ saved.panes.map (·.id)

/-- The window loop restores every saved window. -/
theorem restoreWindows_of_room {active : Option String} {saved : List (SavedTerminalWindow K)}
    {position : Nat} {built : RestoredWindows K}
    (hroom : st.nextPane + savedCount saved ≤ u64Max) (hindex : position + saved.length ≤ u32Max)
    (hids : (saved.flatMap (·.panes)).map (fun pane ↦ newId pane.id) =
      st.mintedIds (savedCount saved))
    (hsaved : ∀ window ∈ saved, Restorable window) :
    restoreWindows active saved position built st =
      .ok ({ windows := built.windows ++ restoredWindows newId position saved
             activeWindowId := selectedAfter active saved position built.activeWindowId },
        st.afterMinting (savedCount saved)) := by
  induction saved generalizing position built st with
  | nil =>
    rw [restoredWindows, List.append_nil]
    rfl
  | cons window rest ih =>
    have hcount : savedCount (window :: rest) = window.panes.length + savedCount rest := rfl
    obtain ⟨hwindow, hrest⟩ := List.forall_mem_cons.mp hsaved
    rw [hcount] at hroom hids ⊢
    rw [List.length_cons] at hindex
    rw [List.flatMap_cons, List.map_append, mintedIds_add] at hids
    obtain ⟨hpaneIds, hrestIds⟩ := List.append_inj hids (by simp [mintedIds])
    obtain ⟨panes, hpanes, hbuilt, hmapped, _, hfocus, _⟩ :=
      @restorePanes_of_room _ _ _ window.focusedPaneId _ {} (by omega) hpaneIds
    have hlayout : remapSaved panes.mapping window.layout =
        .ok (window.layout.map (MuxPaneLayout.rename newId)) := by
      cases hsome : window.layout with
      | none => rfl
      | some layout =>
        have hleaves : ∀ id ∈ layout.leaves, panes.mapping.lookup id = some (newId id) :=
          fun id hid ↦ hmapped id (hwindow.leaves layout hsome id hid)
        rw [remapSaved, remapLayout_eq_rename hleaves]
        rfl
    have hensure : ensure (decide (position + 1 ≤ u32Max))
        "out of range integral type conversion attempted" = .ok () :=
      ensure_eq_ok.mpr (by simp only [decide_eq_true_eq]; omega)
    rw [restoreWindows, hpanes, ok_bind]
    dsimp only
    rw [hensure, ok_bind, hlayout, ok_bind, ih _ _ hrestIds hrest]
    · rw [afterMinting_afterMinting, restoredWindows, List.append_assoc, hbuilt,
        hfocus hwindow.focused]
      rfl
    · rw [afterMinting]
      dsimp only
      omega
    · omega

theorem getElem?_restoredWindows (newId : String → String) (position : Nat)
    (saved : List (SavedTerminalWindow K)) (i : Nat) :
    (restoredWindows newId position saved)[i]? =
      saved[i]?.map (restoredWindow newId (position + i)) := by
  induction saved generalizing position i with
  | nil => rfl
  | cons window rest ih =>
    cases i with
    | zero => rfl
    | succ i =>
      rw [restoredWindows, List.getElem?_cons_succ, List.getElem?_cons_succ, ih (position + 1) i,
        Nat.add_right_comm, Nat.add_assoc]

variable {position : Nat}

theorem forall₂_restoredWindows {R : SavedTerminalWindow K → NativeWindow K → Prop}
    {saved : List (SavedTerminalWindow K)} (h : ∀ window ∈ saved, ∀ i,
      restoredWindow newId i window ∈ restoredWindows newId position saved →
        R window (restoredWindow newId i window)) :
    List.Forall₂ R saved (restoredWindows newId position saved) := by
  induction saved generalizing position with
  | nil => exact .nil
  | cons window rest ih =>
    apply List.Forall₂.cons
    · exact h window List.mem_cons_self position List.mem_cons_self
    · apply ih
      intro other hother i hmem
      exact h other (List.mem_cons_of_mem _ hother) i (List.mem_cons_of_mem _ hmem)

/-- The panes of the windows are those that were saved, in order. -/
theorem panes_restoredWindows (newId : String → String) (position : Nat)
    (saved : List (SavedTerminalWindow K)) :
    (restoredWindows newId position saved).flatMap (·.panes) =
      restoredPanes newId (saved.flatMap (·.panes)) := by
  induction saved generalizing position with
  | nil => rfl
  | cons window rest ih =>
    rw [restoredWindows, List.flatMap_cons, List.flatMap_cons, ih, restoredPanes, restoredPanes,
      List.map_append]
    rfl

/-! ### The selected window -/

section Selection

variable {active : Option String} {saved : List (SavedTerminalWindow K)}

private theorem selectedAfter_of_notMem (hposition : position ≠ 0)
    (h : ∀ window ∈ saved, active ≠ some window.id) (current : String) :
    selectedAfter active saved position current = current := by
  induction saved generalizing position with
  | nil => rfl
  | cons window rest ih =>
    have ⟨hwindow, hrest⟩ := List.forall_mem_cons.mp h
    rw [selectedAfter, if_neg, ih (Nat.succ_ne_zero position) hrest]
    rintro (heq | ⟨_, hzero⟩)
    · exact hwindow heq
    · exact hposition hzero

/-- Without a saved selection the first window is selected. -/
theorem selectedAfter_none (h : saved ≠ []) :
    selectedAfter none saved 0 "" = windowIdOf 1 := by
  cases saved with
  | nil => exact absurd rfl h
  | cons window rest =>
    rw [selectedAfter, if_pos (.inr ⟨rfl, rfl⟩)]
    exact selectedAfter_of_notMem Nat.one_ne_zero (by simp) _

/-- The window that was selected is selected again. -/
theorem selectedAfter_some {i : Nat} {window : SavedTerminalWindow K}
    (hn : (saved.map (·.id)).Nodup) (hget : saved[i]? = some window)
    (hactive : active = some window.id) (current : String) :
    selectedAfter active saved position current = windowIdOf (position + i + 1) := by
  induction saved generalizing position i current with
  | nil => simp at hget
  | cons first rest ih =>
    rw [List.map_cons, List.nodup_cons] at hn
    cases i with
    | zero =>
      have heq : first = window := by simpa using hget
      rw [selectedAfter, if_pos (.inl (heq ▸ hactive))]
      apply selectedAfter_of_notMem (Nat.succ_ne_zero position)
      intro other hother hsame
      apply hn.1
      rw [hactive, ← heq] at hsame
      rw [Option.some.inj hsame]
      exact List.mem_map_of_mem hother
    | succ i =>
      rw [List.getElem?_cons_succ] at hget
      rw [selectedAfter, ih hn.2 hget, Nat.add_right_comm position 1 i]
      rfl

end Selection

/-! ### New ids -/

/-- The ids of the saved panes, in order. -/
def savedPaneIds (saved : List (SavedTerminalWindow K)) : List String :=
  (saved.flatMap (·.panes)).map (·.id)

/-- The new id of a saved pane: ids are minted in the order in which the panes were saved. -/
def newPaneId (st : NativeMuxState K) (ids : List String) (id : String) : String :=
  paneIdOf st.generation (st.nextPane + ids.idxOf id)

private theorem length_savedPaneIds (saved : List (SavedTerminalWindow K)) :
    (savedPaneIds saved).length = savedCount saved := by
  rw [savedPaneIds, List.length_map, List.length_flatMap]
  rfl

private theorem map_newPaneId (st : NativeMuxState K) {ids : List String} (h : ids.Nodup) :
    ids.map (st.newPaneId ids) = st.mintedIds ids.length := by
  apply List.ext_getElem
  · simp [mintedIds]
  · intro i hi _
    rw [List.length_map] at hi
    simp [mintedIds, newPaneId, h.idxOf_getElem i hi]

/-- Different panes get different ids. -/
theorem injOn_newPaneId (st : NativeMuxState K) (ids : List String) :
    Set.InjOn (st.newPaneId ids) {id | id ∈ ids} := by
  intro a ha b hb heq
  have hindex := Nat.add_left_cancel (paneIdOf_injective st.generation heq)
  exact (List.idxOf_inj ha).mp hindex

/-! ### The session -/

/-- The session that is restored, before its layouts are fitted. -/
def restoredSession (newId : String → String) (id : String) (tag : MuxSessionTag)
    (snapshot : SavedTerminalSession K) : NativeSession K :=
  { nextWindow := snapshot.windows.length + 1, id := id, name := id
    activeWindowId := selectedAfter snapshot.activeWindowId snapshot.windows 0 ""
    windows := restoredWindows newId 0 snapshot.windows, tag := tag }

/-- No session has the id or is called by it, and none carries the tag's identity in the tag's
space. -/
def Unclaimed (st : NativeMuxState K) (id : String) (tag : MuxSessionTag) : Prop :=
  ∀ s ∈ st.sessions, s.id ≠ id ∧ s.name ≠ id ∧
    ¬(s.tag.identity = tag.identity ∧ s.tag.space = tag.space)

/-- Whether the restored session is unclaimed is decidable. -/
instance (st : NativeMuxState K) (id : String) (tag : MuxSessionTag) :
    Decidable (st.Unclaimed id tag) :=
  inferInstanceAs (Decidable (∀ s ∈ st.sessions, _))

/-- The state with the restored session, before its layouts are fitted. -/
def withRestored (st : NativeMuxState K) (id : String) (tag : MuxSessionTag)
    (snapshot : SavedTerminalSession K) : NativeMuxState K :=
  let newId := st.newPaneId (savedPaneIds snapshot.windows)
  { st.afterMinting (savedCount snapshot.windows) with
    sessions := st.sessions ++ [restoredSession newId id tag snapshot] }.withActive id

private theorem length_restoredWindows (newId : String → String) (position : Nat)
    (saved : List (SavedTerminalWindow K)) :
    (restoredWindows newId position saved).length = saved.length := by
  induction saved generalizing position with
  | nil => rfl
  | cons window rest ih => rw [restoredWindows, List.length_cons, List.length_cons, ih]

private theorem restorable_of_sound {window : SavedTerminalWindow ℚ} (h : window.Sound) :
    Restorable window where
  focused := h.focused
  leaves := fun layout hlayout id hid ↦ (h.mem_leaves layout hlayout id).mp hid

/-- A checkpoint that passed is restored while there are ids left. -/
theorem restoreSession_of_room {st : NativeMuxState ℚ} {host : Host} {id : String}
    {tag : MuxSessionTag} {snapshot : SavedTerminalSession ℚ}
    (hvalid : snapshot.validate host = .ok ()) (hidentity : tag.identity = some snapshot.sessionId)
    (hspace : tag.space.isSome) (hunclaimed : st.Unclaimed id tag)
    (hroom : st.nextPane + savedCount snapshot.windows ≤ u64Max) :
    st.restoreSession host id tag snapshot = .ok (st.withRestored id tag snapshot) := by
  have hsound := snapshot.sound_of_validate hvalid
  have hlength := hsound.length_windows
  have htag : ensure (tag.identity == some snapshot.sessionId && tag.space.isSome)
      "restored identity does not match its checkpoint" = .ok () := by
    rw [ensure_eq_ok, hidentity, hspace, beq_self_eq_true, Bool.and_self]
  have hfree : ensure (!st.sessions.any fun session ↦ session.id == id || session.name == id ||
      (tag.identity.isSome && session.tag.identity == tag.identity &&
        session.tag.space == tag.space)) "restored session already exists" = .ok () := by
    rw [ensure_eq_ok, Bool.not_eq_true', List.any_eq_false]
    intro s hs
    have ⟨hid, hname, hsame⟩ := hunclaimed s hs
    simp only [Bool.or_eq_true, Bool.and_eq_true, beq_iff_eq]
    rintro ((heq | heq) | ⟨⟨_, heq⟩, heq'⟩)
    · exact hid heq
    · exact hname heq
    · exact hsame ⟨heq, heq'⟩
  have hids : (snapshot.windows.flatMap (·.panes)).map
      (fun pane ↦ st.newPaneId (savedPaneIds snapshot.windows) pane.id) =
        st.mintedIds (savedCount snapshot.windows) := by
    have hnodup : (savedPaneIds snapshot.windows).Nodup := hsound.paneIds
    rw [← length_savedPaneIds, ← map_newPaneId st hnodup, savedPaneIds, List.map_map]
    rfl
  have hwindows := @restoreWindows_of_room _ st _ snapshot.activeWindowId snapshot.windows 0 {}
    hroom (by rw [u32Max]; omega) hids fun window hwindow ↦
      restorable_of_sound (hsound.window window hwindow)
  have hcapacity : ensure (decide (snapshot.windows.length + 1 ≤ u64Max))
      "native window capacity exhausted" = .ok () :=
    ensure_eq_ok.mpr (decide_eq_true (by rw [u64Max]; omega))
  rw [restoreSession, hvalid, ok_bind, htag, ok_bind, hfree, ok_bind, hwindows, ok_bind]
  dsimp only
  rw [List.nil_append, length_restoredWindows, hcapacity, ok_bind]
  rfl

end NativeMuxState
end Bootty.Mux.Native
