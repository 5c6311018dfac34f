import Bootty.Mux.Native.SessionEdits

/-!
# The topology invariant

The invariant of a `NativeMuxState` and the shape of its steps. A `TopologyStep` says once
what a command may do: leave the sessions alone, edit the addressed one, append it, or drop
it, with the panes that come and go. The invariant is derived from that shape alone.
-/

namespace Bootty.Mux.Native

open Bootty.Base

variable {K : Type}

namespace NativeMuxState

/-- The ids of all sessions. -/
def sessionIds (st : NativeMuxState K) : List String := st.sessions.map (·.id)

/-- The panes of all sessions, with multiplicity. -/
def panes (st : NativeMuxState K) : Multiset NativePane := (st.sessions.map (·.panes)).sum

/-- The ids of all panes. -/
def paneIds (st : NativeMuxState K) : Multiset String := st.panes.map (·.id)

/-- The selection is empty without sessions and names a session otherwise. -/
def Selected (st : NativeMuxState K) : Prop :=
  if st.sessions = [] then st.activeSessionId = "" else st.activeSessionId ∈ st.sessionIds

end NativeMuxState

/-- The topology invariant, with what it needs to survive the next command. -/
structure TopologyOk (st : NativeMuxState K) : Prop where
  sessionIds : st.sessionIds.Nodup
  sessions : ∀ session ∈ st.sessions, SessionOk session
  paneIds : st.paneIds.Nodup
  minted : ∀ id ∈ st.paneIds, ∃ n < st.nextPane, id = paneIdOf st.generation n
  selected : st.Selected

theorem topologyOk_new (generation : Nat) : TopologyOk (.new generation : NativeMuxState K) := by
  constructor <;> simp [NativeMuxState.new, NativeMuxState.sessionIds, NativeMuxState.panes,
    NativeMuxState.paneIds, NativeMuxState.Selected]

/-! ### Changes of the session list -/

/-- What one command may do to the session list. -/
inductive SessionsChange (id : String) :
    (added removed : Multiset NativePane) → (before after : List (NativeSession K)) → Prop
  | keep (sessions : List (NativeSession K)) : SessionsChange id 0 0 sessions sessions
  | edit {sessions : List (NativeSession K)} {s s' : NativeSession K}
      {added removed : Multiset NativePane} (found : sessions.find? (·.id == id) = some s)
      (step : SessionStep added removed s s') :
      SessionsChange id added removed sessions (modifyFirst (·.id == id) (fun _ ↦ s') sessions)
  | create {sessions : List (NativeSession K)} {s : NativeSession K} (named : s.id = id)
      (fresh : id ∉ sessions.map (·.id)) (ok : SessionOk s) :
      SessionsChange id s.panes 0 sessions (sessions ++ [s])
  | drop (sessions : List (NativeSession K)) :
      SessionsChange id 0 ((sessions.filter (·.id == id)).map (·.panes)).sum sessions
        (sessions.filter (·.id != id))

variable {s : NativeSession K}

namespace SessionsChange

variable {id : String} {a r : Multiset NativePane} {ss ss' : List (NativeSession K)}

/-- The panes that come and go account for the difference. -/
theorem panes_eq (h : SessionsChange id a r ss ss') :
    (ss'.map (·.panes)).sum + r = (ss.map (·.panes)).sum + a := by
  cases h with
  | keep => rfl
  | @edit _ s s' _ _ found step =>
    have h1 := sum_map_modifyFirst found (fun _ ↦ s') (·.panes)
    have h2 := step.panes_eq
    refine add_right_cancel (b := s.panes) ?_
    calc _ + r + s.panes = (_ + s.panes) + r := by abel
      _ = (ss.map (·.panes)).sum + (s'.panes + r) := by rw [h1]; abel
      _ = (ss.map (·.panes)).sum + a + s.panes := by rw [h2]; abel
  | create => simp
  | drop =>
    induction ss with
    | nil => rfl
    | cons s ss ih =>
      by_cases hs : s.id = id
      · simp only [hs, bne_self_eq_false, Bool.false_eq_true, not_false_eq_true,
          List.filter_cons_of_neg, beq_self_eq_true, List.filter_cons_of_pos, List.map_cons,
          List.sum_cons, add_zero] at ih ⊢
        rw [← ih]
        abel
      · simp only [bne_iff_ne, ne_eq, hs, not_false_eq_true, List.filter_cons_of_pos, List.map_cons,
          List.sum_cons, beq_iff_eq, List.filter_cons_of_neg, add_zero] at ih ⊢
        rw [← ih]
        abel

/-- Every other session stays as it is, in the same order. -/
theorem others (h : SessionsChange id a r ss ss') :
    ss'.filter (·.id != id) = ss.filter (·.id != id) := by
  cases h with
  | keep => rfl
  | edit found step =>
    obtain ⟨before, after, rfl, hb, ha⟩ := exists_split_of_find? found
    have hs' := step.id_eq.trans (by simpa using ha)
    simp only [beq_iff_eq] at ha
    simp [modifyFirst_append_cons hb (by simpa using ha), List.filter_append, hs', ha]
  | create named => simp [List.filter_append, named]
  | drop => simp

private theorem sessions_ok (h : SessionsChange id a r ss ss') (hok : ∀ s ∈ ss, SessionOk s) :
    ∀ s ∈ ss', SessionOk s := by
  cases h with
  | keep => exact hok
  | edit found step =>
    intro x hx
    rcases mem_modifyFirst hx with hx | ⟨_, -, -, rfl⟩
    · exact hok x hx
    · exact step.ok (hok _ (List.mem_of_find?_eq_some found))
  | create _ _ ok =>
    intro x hx
    rcases List.mem_append.mp hx with hx | hx
    · exact hok x hx
    · rwa [List.mem_singleton.mp hx]
  | drop => exact fun x hx ↦ hok x (List.mem_of_mem_filter hx)

private theorem ids_of_edit {s' : NativeSession K} (found : ss.find? (·.id == id) = some s)
    (hid : s'.id = s.id) :
    (modifyFirst (·.id == id) (fun _ ↦ s') ss).map (·.id) = ss.map (·.id) := by
  obtain ⟨before, after, rfl, hb, ha⟩ := exists_split_of_find? found
  simp [modifyFirst_append_cons hb ha, hid]

private theorem ids_nodup (h : SessionsChange id a r ss ss') (hn : (ss.map (·.id)).Nodup) :
    (ss'.map (·.id)).Nodup := by
  cases h with
  | keep => exact hn
  | edit found step => rwa [ids_of_edit found step.id_eq]
  | create named fresh =>
    rw [List.map_append, List.nodup_append]
    refine ⟨hn, by simp, fun x hx y hy he ↦ fresh ?_⟩
    simp only [List.map_cons, List.map_nil, List.mem_singleton] at hy
    rwa [← named, ← hy, ← he]
  | drop => exact hn.sublist (List.filter_sublist.map _)

end SessionsChange

/-! ### Steps of the topology -/

/-- What one command may do to the topology. -/
structure TopologyStep (id : String) (added removed : Multiset NativePane)
    (st st' : NativeMuxState K) : Prop where
  sessions : SessionsChange id added removed st.sessions st'.sessions
  generation_eq : st'.generation = st.generation
  counter_le : st.nextPane ≤ st'.nextPane
  fresh : ∀ pane ∈ added, ∃ n, st.nextPane ≤ n ∧ n < st'.nextPane ∧
    pane.id = paneIdOf st.generation n
  nodup : (added.map (·.id)).Nodup
  selected : st.Selected → st'.Selected

/-- Panes of different numbers have different ids. -/
theorem paneIdOf_injective (generation : Nat) : Function.Injective (paneIdOf generation) := by
  intro a b h
  exact repr_injective (by simpa [paneIdOf] using h)

namespace TopologyStep

variable {id : String} {a r : Multiset NativePane} {st st' : NativeMuxState K}

/-- The panes behind a step. -/
theorem panes_eq (h : TopologyStep id a r st st') : st'.panes + r = st.panes + a :=
  h.sessions.panes_eq

/-- A minted pane id is not in use. -/
theorem fresh_notMem (h : TopologyStep id a r st st') (hok : TopologyOk st) {pane : NativePane}
    (hp : pane ∈ a) : pane.id ∉ st.paneIds := by
  intro hmem
  obtain ⟨n, hn, -, hid⟩ := h.fresh pane hp
  obtain ⟨m, hm, hid'⟩ := hok.minted pane.id hmem
  have := paneIdOf_injective _ (hid'.symm.trans hid)
  omega

/-- Every step keeps the topology invariant. -/
theorem ok (h : TopologyStep id a r st st') (hok : TopologyOk st) : TopologyOk st' where
  sessionIds := h.sessions.ids_nodup hok.sessionIds
  sessions := h.sessions.sessions_ok hok.sessions
  selected := h.selected hok.selected
  paneIds := by
    refine Multiset.nodup_of_le (Multiset.map_le_map (f := (·.id))
      (Multiset.le_add_right st'.panes r)) ?_
    rw [h.panes_eq, Multiset.map_add, Multiset.nodup_add]
    refine ⟨hok.paneIds, h.nodup, Multiset.disjoint_right.mpr fun {x} hx ↦ ?_⟩
    obtain ⟨pane, hp, rfl⟩ := Multiset.mem_map.mp hx
    exact h.fresh_notMem hok hp
  minted := by
    intro id hid
    obtain ⟨pane, hp, rfl⟩ := Multiset.mem_map.mp hid
    have hmem : pane ∈ st.panes + a := by
      rw [← h.panes_eq]
      exact Multiset.mem_add.mpr (.inl hp)
    rw [h.generation_eq]
    rcases Multiset.mem_add.mp hmem with hp | hp
    · obtain ⟨n, hn, hid⟩ := hok.minted pane.id (Multiset.mem_map_of_mem _ hp)
      exact ⟨n, hn.trans_le h.counter_le, hid⟩
    · obtain ⟨n, -, hn, hid⟩ := h.fresh pane hp
      exact ⟨n, hn, hid⟩

/-- A step that touches no session. -/
theorem keep {n : Nat} (h : st.nextPane ≤ n) :
    TopologyStep id 0 0 st { st with nextPane := n } :=
  ⟨.keep _, rfl, h, by simp, by simp, fun h ↦ h⟩

/-- A step that edits the addressed session and may select it. -/
theorem edit {s s' : NativeSession K} (found : st.session? id = some s)
    (step : SessionStep a r s s')
    (hs : st'.sessions = modifyFirst (·.id == id) (fun _ ↦ s') st.sessions)
    (hg : st'.generation = st.generation) (hc : st.nextPane ≤ st'.nextPane)
    (ha : st'.activeSessionId = st.activeSessionId ∨ st'.activeSessionId = id)
    (fresh : ∀ pane ∈ a, ∃ n, st.nextPane ≤ n ∧ n < st'.nextPane ∧
      pane.id = paneIdOf st.generation n)
    (nodup : (a.map (·.id)).Nodup) : TopologyStep id a r st st' := by
  refine ⟨hs ▸ .edit found step, hg, hc, fresh, nodup, fun hsel ↦ ?_⟩
  have hmem : s ∈ st.sessions := List.mem_of_find?_eq_some found
  have hid : s.id = id := by simpa using List.find?_some found
  have hne : st.sessions ≠ [] := List.ne_nil_of_mem hmem
  have hids : st'.sessionIds = st.sessionIds := by
    rw [NativeMuxState.sessionIds, hs, SessionsChange.ids_of_edit found step.id_eq]
    rfl
  have hne' : st'.sessions ≠ [] := by
    intro h0
    have hnil : st'.sessionIds = [] := by rw [NativeMuxState.sessionIds, h0]; rfl
    rw [hids] at hnil
    exact hne (List.map_eq_nil_iff.mp hnil)
  rw [NativeMuxState.Selected, if_neg hne] at hsel
  rw [NativeMuxState.Selected, if_neg hne', hids]
  rcases ha with ha | ha
  · rwa [ha]
  · rw [ha]
    exact List.mem_map.mpr ⟨s, hmem, hid⟩

/-- An edit that adds no pane. -/
theorem edit_keep {s' : NativeSession K} (found : st.session? id = some s)
    (step : SessionStep 0 r s s')
    (hs : st'.sessions = modifyFirst (·.id == id) (fun _ ↦ s') st.sessions)
    (hg : st'.generation = st.generation) (hc : st'.nextPane = st.nextPane)
    (ha : st'.activeSessionId = st.activeSessionId ∨ st'.activeSessionId = id) :
    TopologyStep id 0 r st st' :=
  edit found step hs hg hc.ge ha (by simp) (by simp)

/-- A step that appends a new session and selects it. -/
theorem create (named : s.id = id) (absent : st.session? id = none) (hok : SessionOk s)
    (hs : st'.sessions = st.sessions ++ [s]) (hg : st'.generation = st.generation)
    (hc : st.nextPane ≤ st'.nextPane) (ha : st'.activeSessionId = id)
    (fresh : ∀ pane ∈ s.panes, ∃ n, st.nextPane ≤ n ∧ n < st'.nextPane ∧
      pane.id = paneIdOf st.generation n) (nodup : (s.panes.map (·.id)).Nodup) :
    TopologyStep id s.panes 0 st st' := by
  have habsent : id ∉ st.sessions.map (·.id) := by
    rintro hmem
    obtain ⟨x, hx, hid⟩ := List.mem_map.mp hmem
    exact List.find?_eq_none.mp absent x hx (by simpa using hid)
  refine ⟨hs ▸ .create named habsent hok, hg, hc, fresh, nodup, fun _ ↦ ?_⟩
  rw [NativeMuxState.Selected, if_neg (by simp [hs]), ha, NativeMuxState.sessionIds, hs]
  simp [named]

end TopologyStep

end Bootty.Mux.Native
