import Bootty.Mux.PaneLayoutCanonical
import Bootty.Mux.PaneLayoutLeaves
import Bootty.Mux.SessionSnapshot

/-!
# What validation establishes

A session that passed `SavedTerminalSession::validate`
(`crates/bootty-mux/src/session_snapshot.rs:57–183`), with exact weights: a saved layout has the
panes of its window as leaves and positive weights, and no id of a window or a pane repeats.
-/

namespace Bootty.Mux

open Bootty.Base

/-- A window of a session that passed. -/
structure SavedTerminalWindow.Sound (window : SavedTerminalWindow ℚ) : Prop where
  focused : window.focusedPaneId ∈ window.panes.map (·.id)
  weighted : ∀ layout, window.layout = some layout → layout.Weighted
  leaves_nodup : ∀ layout, window.layout = some layout → layout.leaves.Nodup
  mem_leaves : ∀ layout, window.layout = some layout →
    ∀ id, id ∈ layout.leaves ↔ id ∈ window.panes.map (·.id)

/-- A session that passed. -/
structure SavedTerminalSession.Sound (s : SavedTerminalSession ℚ) : Prop where
  windows_ne_nil : s.windows ≠ []
  length_windows : s.windows.length ≤ 32
  windowIds : (s.windows.map (·.id)).Nodup
  paneIds : ((s.windows.flatMap (·.panes)).map (·.id)).Nodup
  active : ∀ active, s.activeWindowId = some active → active ∈ s.windows.map (·.id)
  window : ∀ window ∈ s.windows, window.Sound

/-! ### Layouts -/

section Leaves

variable {K : Type} [Scalar K]

mutual

/-- The leaves are seen, and none of them for the second time. -/
theorem leaves_of_validateLayout {layout : MuxPaneLayout K} {leaves after : List String}
    {depth : Nat} (h : validateLayout layout leaves depth = .ok after) :
    after = layout.leaves.reverse ++ leaves ∧ (leaves.Nodup → after.Nodup) := by
  cases layout with
  | pane id =>
    unfold validateLayout at h
    split at h
    · cases h
    split at h
    · cases h
    · next hnew =>
      cases h
      refine ⟨rfl, fun hleaves ↦ List.nodup_cons.mpr ⟨?_, hleaves⟩⟩
      simpa using hnew
  | split direction weights children =>
    unfold validateLayout at h
    split at h
    · cases h
    split at h
    · cases h
    · rw [MuxPaneLayout.leaves_split]
      exact leaves_of_validateLayouts h

private theorem leaves_of_validateLayouts {children : List (MuxPaneLayout K)}
    {leaves after : List String}
    {depth : Nat} (h : validateLayouts children leaves depth = .ok after) :
    after = (MuxPaneLayout.leavesOf children).reverse ++ leaves ∧
      (leaves.Nodup → after.Nodup) := by
  cases children with
  | nil =>
    cases h
    exact ⟨rfl, id⟩
  | cons child rest =>
    unfold validateLayouts at h
    split at h
    · next leaves' hchild =>
      have ⟨hleaves, hnodup⟩ := leaves_of_validateLayout hchild
      have ⟨hafter, hnodup'⟩ := leaves_of_validateLayouts h
      refine ⟨?_, fun hseen ↦ hnodup' (hnodup hseen)⟩
      rw [hafter, hleaves, MuxPaneLayout.leavesOf_cons, List.reverse_append, List.append_assoc]
    · cases h

end

private theorem exists_of_validateLayouts {children : List (MuxPaneLayout K)}
    {leaves after : List String} {depth : Nat}
    (h : validateLayouts children leaves depth = .ok after) {child : MuxPaneLayout K}
    (hchild : child ∈ children) :
    ∃ leaves' after', validateLayout child leaves' depth = .ok after' := by
  induction children generalizing leaves with
  | nil => cases hchild
  | cons first rest ih =>
    unfold validateLayouts at h
    split at h
    · next leaves' hfirst =>
      rcases List.mem_cons.mp hchild with heq | hrest
      · exact ⟨leaves, leaves', heq ▸ hfirst⟩
      · exact ih h hrest
    · cases h

end Leaves

/-- Every split has positive weights. -/
theorem weighted_of_validateLayout {layout : MuxPaneLayout ℚ} {leaves after : List String}
    {depth : Nat} (h : validateLayout layout leaves depth = .ok after) : layout.Weighted := by
  induction layout using MuxPaneLayout.induct generalizing leaves after depth with
  | pane id => exact .pane id
  | split direction weights children ih =>
    unfold validateLayout at h
    split at h
    · cases h
    split at h
    · cases h
    · next hchecks =>
      simp only [Bool.or_eq_true, not_or, decide_eq_true_eq, not_lt, bne_iff_ne, ne_eq, not_not,
        Bool.not_eq_true, List.any_eq_false, Bool.not_eq_false', Scalar.isFinite_rat,
        Scalar.literal_rat] at hchecks
      have ⟨⟨htwo, hcounts⟩, hpositive⟩ := hchecks
      apply MuxPaneLayout.Weighted.split direction weights children (by omega) hcounts.symm
      · intro w hw
        simpa using hpositive w hw
      · intro child hchild
        have ⟨_, _, hvalid⟩ := exists_of_validateLayouts h hchild
        exact ih child hchild hvalid

/-! ### Windows -/

private theorem mem_of_sameIds {xs ys : List String} (h : sameIds xs ys = true) (id : String) :
    id ∈ xs ↔ id ∈ ys := by
  simp only [sameIds, Bool.and_eq_true, List.all_eq_true, List.contains_iff_mem] at h
  exact ⟨h.1 id, h.2 id⟩

private theorem sound_of_validateWindow {host : Host} {window : SavedTerminalWindow ℚ}
    {seen after : Seen}
    (h : validateWindow host window seen = .ok after) : window.Sound := by
  simp only [validateWindow, bind_eq_ok, ensure_eq_ok, Bool.and_eq_true] at h
  obtain ⟨_, _, leaves, hleaves, _, _, _, hlast, _⟩ := h
  have hsaved : ∀ layout, window.layout = some layout → validateLayout layout [] 0 = .ok leaves := by
    intro layout hlayout
    rw [hlayout] at hleaves
    exact hleaves
  refine ⟨List.contains_iff_mem.mp hlast.1, ?_, ?_, ?_⟩
  · intro layout hlayout
    exact weighted_of_validateLayout (hsaved layout hlayout)
  · intro layout hlayout
    obtain ⟨heq, hnodup⟩ := leaves_of_validateLayout (hsaved layout hlayout)
    rw [List.append_nil] at heq
    exact List.nodup_reverse.mp (heq ▸ hnodup List.nodup_nil)
  · intro layout hlayout id
    obtain ⟨heq, _⟩ := leaves_of_validateLayout (hsaved layout hlayout)
    have hsame : sameIds leaves (window.panes.map (·.id)) = true := by
      have hnone : window.layout.isNone = false := by rw [hlayout]; rfl
      have hor := hlast.2
      rw [hnone, Bool.false_or] at hor
      exact hor
    have hmem := mem_of_sameIds hsame id
    rw [heq, List.append_nil, List.mem_reverse] at hmem
    exact hmem

private theorem sound_of_validateWindows {host : Host} {windows : List (SavedTerminalWindow ℚ)}
    {seen after : Seen} (h : validateWindows host windows seen = .ok after) :
    ∀ window ∈ windows, window.Sound := by
  induction windows generalizing seen with
  | nil => exact List.forall_mem_nil _
  | cons window rest ih =>
    rw [validateWindows, bind_eq_ok] at h
    obtain ⟨mid, hwindow, hrest⟩ := h
    exact List.forall_mem_cons.mpr ⟨sound_of_validateWindow hwindow, ih hrest⟩

/-- A session that passed is sound. -/
theorem SavedTerminalSession.sound_of_validate {host : Host} {s : SavedTerminalSession ℚ}
    (h : s.validate host = .ok ()) : s.Sound := by
  obtain ⟨hwindowIds, hpaneIds⟩ := s.ids_of_validate h
  obtain ⟨hne, _⟩ := s.windows_of_validate h
  simp only [validate, bind_eq_ok, ensure_eq_ok, Bool.and_eq_true, decide_eq_true_eq] at h
  obtain ⟨_, hfirst, seen, hwindows, hlast⟩ := h
  refine ⟨hne, hfirst.2, hwindowIds, hpaneIds, ?_, sound_of_validateWindows hwindows⟩
  intro active hactive
  have hseen := hlast.2
  rw [hactive] at hseen
  have hmem : active ∈ seen.windowIds := by simpa using hseen
  rw [(seen_of_validateWindows hwindows).1] at hmem
  simpa using hmem

end Bootty.Mux
