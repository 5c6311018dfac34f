import Bootty.Base.Binary32
import Bootty.Mux.Native.Agreement

/-!
# Focusing a pane by its own ids

`activate_pane` (`native/state.rs:872–889`) takes the first session whose id or whose name is
the given session id; every other command resolves a session by its id alone. A live pane is
focused by its own ids exactly when no earlier session bears its session's id as a name: with
such a namesake the command looks for the window in the wrong session and fails, since a pane
belongs to one session only. The layout rewrite that follows (`native/layout.rs:10–77`) keeps
every layout whose stored tree is still accepted; with exact weights it always is.
-/

namespace Bootty.Mux.Native

open Bootty.Base

variable {K : Type}

/-- What a session shows as focused: its window, and the pane of each of its windows. -/
def NativeSession.focus (session : NativeSession K) : String × List (String × String) :=
  (session.activeWindowId, session.windows.map fun w ↦ (w.id, w.activePaneId))

namespace NativeMuxState

/-- The pane is the focused one: its session is active, with its window, with the pane; and no
other session's focus differs from the state before. -/
structure Focuses (st st' : NativeMuxState K) (s : NativeSession K) (w : NativeWindow K)
    (p : NativePane) : Prop where
  session : st'.activeSessionId = s.id
  window : (st'.session? s.id).map (·.activeWindowId) = some w.id
  pane : (st'.window? s.id w.id).map (·.activePaneId) = some p.id
  others : ∀ other ∈ st.sessions, other.id ≠ s.id →
    (st'.session? other.id).map (·.focus) = some other.focus

/-- No session before this one bears its id as a name. -/
def NoNamesake (st : NativeMuxState K) (session : NativeSession K) : Prop :=
  ∀ before after, st.sessions = before ++ session :: after →
    ∀ other ∈ before, other.name ≠ session.id

/-! ### The topology step -/

section Step

variable {st : NativeMuxState K} {before after : List (NativeSession K)}
  {windowsBefore windowsAfter : List (NativeWindow K)} {s : NativeSession K}
  {w : NativeWindow K} {p : NativePane}

/-- The session with the pane focused in it. -/
private def focusedSession (s : NativeSession K) (w : NativeWindow K) (p : NativePane)
    (windowsBefore windowsAfter : List (NativeWindow K)) : NativeSession K :=
  { s with
    activeWindowId := w.id
    windows := windowsBefore ++ { w with activePaneId := p.id } :: windowsAfter }

private theorem id_ne_of_split {α : Type} (key : α → String) {xs ys : List α} {x : α}
    (hn : ((xs ++ x :: ys).map key).Nodup) : ∀ y ∈ xs, key y ≠ key x := by
  intro y hy
  rw [List.map_append, List.map_cons] at hn
  exact (List.nodup_append.mp hn).2.2 (key y) (List.mem_map_of_mem hy) (key x) (by simp)

private theorem activateWindow_split {t : NativeSession K} {window : String}
    (hs : st.sessions = before ++ t :: after) (hids : ∀ other ∈ before, other.id ≠ t.id)
    (hw : t.windows.any (·.id == window) = true) :
    st.activateWindow t.id window = { st with
      activeSessionId := t.id
      sessions := before ++ { t with activeWindowId := window } :: after } := by
  have hbefore : ∀ other ∈ before, (other.id == t.id) = false := by
    intro other hother
    simpa using hids other hother
  have hfound : st.session? t.id = some t := by
    rw [session?, hs]
    exact find?_append_cons hbefore (by simp)
  rw [activateWindow, hfound]
  show (if t.windows.any (·.id == window) = true then _ else _) = _
  rw [if_pos hw, modifySession, hs, modifyFirst_append_cons hbefore (by simp)]
  rfl

/-- Without a namesake the addressed session is found, and exactly the two focus fields and the
selection change. -/
private theorem activatePane_eq_ok (hok : TopologyOk st) (hs : st.sessions = before ++ s :: after)
    (hw : s.windows = windowsBefore ++ w :: windowsAfter) (hp : p ∈ w.panes)
    (hname : ∀ other ∈ before, other.name ≠ s.id) :
    st.activatePane s.id w.id p.id = .ok { st with
      activeSessionId := s.id
      sessions := before ++ focusedSession s w p windowsBefore windowsAfter :: after } := by
  have hmem : s ∈ st.sessions := by rw [hs]; simp
  have hids : ∀ other ∈ before, other.id ≠ s.id :=
    id_ne_of_split NativeSession.id (by rw [← hs]; exact hok.sessionIds)
  have hwids : ∀ other ∈ windowsBefore, other.id ≠ w.id :=
    id_ne_of_split NativeWindow.id (by rw [← hw]; exact (hok.sessions s hmem).ids.nodup)
  set named : NativeSession K → Bool := fun other ↦ other.id == s.id || other.name == s.id
    with hnamed
  set holds : NativeWindow K → Bool := fun other ↦
    other.id == w.id && other.panes.any (·.id == p.id) with hholds
  have hbefore : ∀ other ∈ before, named other = false := by
    intro other hother
    simp [hnamed, hids other hother, hname other hother]
  have hwindowsBefore : ∀ other ∈ windowsBefore, holds other = false := by
    intro other hother
    simp [hholds, hwids other hother]
  have hself : holds w = true := by
    simp only [hholds, beq_self_eq_true, Bool.true_and, List.any_eq_true, beq_iff_eq]
    exact ⟨p, hp, rfl⟩
  have hfind : st.sessions.find? named = some s := by
    rw [hs]
    exact find?_append_cons hbefore (by simp [hnamed])
  have hwindow : s.windows.find? holds = some w := by
    rw [hw]
    exact find?_append_cons hwindowsBefore hself
  rw [activatePane, hfind, context_some, ok_bind]
  show (context (s.windows.find? holds) _ >>= _) = _
  rw [hwindow, context_some, ok_bind]
  show Except.ok _ = Except.ok _
  congr 1
  have hedited : modifyFirst named
      (fun session ↦ { session with
        windows := modifyFirst holds (fun w ↦ { w with activePaneId := p.id }) session.windows })
      st.sessions = before ++ { s with
        windows := windowsBefore ++ { w with activePaneId := p.id } :: windowsAfter } :: after := by
    rw [hs, modifyFirst_append_cons hbefore (by simp [hnamed]), hw,
      modifyFirst_append_cons hwindowsBefore hself]
  rw [hedited]
  let t : NativeSession K :=
    { s with windows := windowsBefore ++ { w with activePaneId := p.id } :: windowsAfter }
  have hw' : t.windows.any (·.id == w.id) = true := by simp [t]
  have hs' : ({ st with sessions := before ++ t :: after } : NativeMuxState K).sessions =
      before ++ t :: after := rfl
  exact activateWindow_split hs' hids hw'

private theorem activatePane_eq_error (hok : TopologyOk st) (hw : w ∈ s.windows)
    (hp : p ∈ w.panes) (hname : ¬ st.NoNamesake s) :
    st.activatePane s.id w.id p.id = .error "native pane window is unavailable" := by
  simp only [NoNamesake, not_forall, not_not] at hname
  have ⟨before, after, hs, other, hother, hsame⟩ := hname
  have hmem : s ∈ st.sessions := by rw [hs]; simp
  set named : NativeSession K → Bool := fun other ↦ other.id == s.id || other.name == s.id
    with hnamed
  set holds : NativeWindow K → Bool := fun other ↦
    other.id == w.id && other.panes.any (·.id == p.id) with hholds
  have hsome : (before.find? named).isSome = true :=
    List.find?_isSome.mpr ⟨other, hother, by simp [hnamed, hsame]⟩
  have ⟨found, hfound⟩ := Option.isSome_iff_exists.mp hsome
  have hfind : st.sessions.find? named = some found := by
    rw [hs, List.find?_append, hfound]
    rfl
  have hfoundMem : found ∈ before := List.mem_of_find?_eq_some hfound
  have hids : found.id ≠ s.id :=
    id_ne_of_split NativeSession.id (by rw [← hs]; exact hok.sessionIds) found hfoundMem
  -- Pane ids are distinct over all sessions, so the namesake does not hold this one.
  have hnone : found.windows.find? holds = none := by
    rw [List.find?_eq_none]
    intro window hwindow hheld
    simp only [hholds, Bool.and_eq_true, List.any_eq_true, beq_iff_eq] at hheld
    have ⟨_, pane, hpane, hid⟩ := hheld
    have hsame := eq_of_mem_paneIds hok (by rw [hs]; simp [hfoundMem]) hwindow hmem hw
      (List.mem_map.mpr ⟨pane, hpane, hid⟩) (List.mem_map_of_mem hp)
    exact hids (congrArg NativeSession.id hsame.1)
  rw [activatePane, hfind, context_some, ok_bind]
  show (context (found.windows.find? holds) _ >>= _) = _
  rw [hnone]
  rfl

private theorem focuses_focusedSession (hok : TopologyOk st)
    (hs : st.sessions = before ++ s :: after)
    (hw : s.windows = windowsBefore ++ w :: windowsAfter) :
    st.Focuses { st with
      activeSessionId := s.id
      sessions := before ++ focusedSession s w p windowsBefore windowsAfter :: after } s w p := by
  have hmem : s ∈ st.sessions := by rw [hs]; simp
  have hids : ∀ other ∈ before, other.id ≠ s.id :=
    id_ne_of_split NativeSession.id (by rw [← hs]; exact hok.sessionIds)
  have hwids : ∀ other ∈ windowsBefore, other.id ≠ w.id :=
    id_ne_of_split NativeWindow.id (by rw [← hw]; exact (hok.sessions s hmem).ids.nodup)
  have hfound : (before ++ focusedSession s w p windowsBefore windowsAfter :: after).find?
      (·.id == s.id) = some (focusedSession s w p windowsBefore windowsAfter) := by
    apply find?_append_cons
    · intro other hother
      simpa using hids other hother
    · simp [focusedSession]
  constructor
  · rfl
  · simp only [session?, hfound]
    rfl
  · have hwindow : (focusedSession s w p windowsBefore windowsAfter).windows.find?
        (·.id == w.id) = some { w with activePaneId := p.id } := by
      apply find?_append_cons
      · intro other hother
        simpa using hwids other hother
      · simp
    simp only [window?, session?, hfound, Option.bind_some, hwindow]
    rfl
  · intro other hother hne
    set sessions := before ++ focusedSession s w p windowsBefore windowsAfter :: after
      with hsessions
    have hmap : sessions.map (·.id) = st.sessions.map (·.id) := by
      rw [hsessions, hs, List.map_append, List.map_append]
      rfl
    have hmem' : other ∈ sessions := by
      rw [hs, List.mem_append, List.mem_cons] at hother
      rw [hsessions, List.mem_append, List.mem_cons]
      rcases hother with h | rfl | h
      · exact .inl h
      · exact absurd rfl hne
      · exact .inr (.inr h)
    have hother' : sessions.find? (·.id == other.id) = some other :=
      find?_key (by rw [hmap]; exact hok.sessionIds) hmem'
    show (sessions.find? (·.id == other.id)).map (·.focus) = _
    rw [hother']
    rfl

end Step

/-! ### The layout rewrite -/

section Rewrite

variable [Scalar K]

/-- A window's stored tree, read again and fitted to the window's panes, still shows them. -/
def relaid (w : NativeWindow K) : Bool :=
  match w.paneIds with
  | [] => true
  | first :: rest =>
    let start := (w.layout.bind PaneLayout.fromMuxLayout).getD (.single first)
    let fitted := start.reconcile (first :: rest)
    fitted.panes.length == (first :: rest).length && (first :: rest).all fitted.panes.contains

/-- Every window of the state can be laid out as it stands. -/
def Relayable (st : NativeMuxState K) : Prop :=
  ∀ s ∈ st.sessions, ∀ w ∈ s.windows, relaid w = true

/-- What the rewrite reads of a session. -/
private def layoutShape (s : NativeSession K) :
    String × List (String × Option (MuxPaneLayout K) × List String) :=
  (s.id, s.windows.map fun w ↦ (w.id, w.layout, w.paneIds))

/-- One window whose stored tree is in force is laid out exactly when it can be laid out as it
stands. -/
private theorem windowLayout_isOk_iff {st : NativeMuxState K} {before : MuxSnapshot K}
    {layouts : LayoutMap (PaneLayout K)} {s w p : String} {session : NativeSession K}
    {window : NativeWindow K}
    (hlayouts : layouts (session.id, window.id) = window.layout.bind PaneLayout.fromMuxLayout) :
    (∃ r, windowLayout before (.activatePane s w p) layouts (st.snapshotSession session)
      (st.snapshotWindow session window) = .ok r) ↔ relaid window = true := by
  have hids := snapshotWindow_ids st session window
  unfold relaid
  simp only [windowLayout, hids]
  cases window.paneIds with
  | nil => simp
  | cons first rest =>
    have hstart : (layouts ((st.snapshotSession session).id, (st.snapshotWindow session window).id)
        <|> (st.snapshotWindow session window).layout.bind PaneLayout.fromMuxLayout) =
        window.layout.bind PaneLayout.fromMuxLayout := by
      show (layouts (session.id, window.id) <|>
        window.layout.bind PaneLayout.fromMuxLayout) = _
      rw [hlayouts]
      cases window.layout.bind PaneLayout.fromMuxLayout <;> rfl
    rw [hstart]
    simp only [List.head?_cons, fitLayout, splitOf, bind_eq_ok, ensure_eq_ok, pure_eq_ok]
    constructor
    · rintro ⟨r, _, hcheck, _⟩
      exact hcheck
    · intro hcheck
      exact ⟨_, (), hcheck, rfl⟩

variable {st changed : NativeMuxState K} {s w p : String}

/-- When ids, panes and stored trees are as before, the rewrite succeeds exactly when every window
can be laid out as it stands. -/
private theorem updatedLayouts_isOk_iff (hok : TopologyOk st) (hok' : TopologyOk changed)
    (hsame : changed.sessions.map layoutShape = st.sessions.map layoutShape) :
    (∃ layouts, updatedLayouts st.snapshot changed.snapshot (.activatePane s w p) = .ok layouts) ↔
      changed.Relayable := by
  have hupdated : updatedLayouts st.snapshot changed.snapshot (.activatePane s w p) =
      layOut st.snapshot (.activatePane s w p) (snapshotWindows changed.snapshot)
        (currentLayouts st.snapshot) fun _ ↦ none := rfl
  have hlayouts : ∀ session ∈ changed.sessions, ∀ window ∈ session.windows,
      currentLayouts st.snapshot (session.id, window.id) =
        window.layout.bind PaneLayout.fromMuxLayout := by
    intro session hsession window hwindow
    have ⟨session₀, hsession₀, hshape⟩ := exists_shape_eq hsame hsession
    simp only [layoutShape, Prod.mk.injEq] at hshape
    have ⟨window₀, hwindow₀, heq⟩ := exists_shape_eq hshape.2.symm hwindow
    simp only [Prod.mk.injEq] at heq
    rw [← hshape.1, ← heq.1, currentLayouts_snapshot hok hsession₀ hwindow₀, heq.2.1]
  rw [hupdated]
  constructor
  · rintro ⟨layouts, h⟩ session hsession window hwindow
    rw [← windowLayout_isOk_iff (hlayouts session hsession window hwindow)]
    exact ⟨_, layOut_eq_ok (nodup_keys hok') (fun _ _ ↦ rfl) h _
      (mem_snapshotWindows hsession hwindow)⟩
  · intro hrelay
    apply layOut_isOk _ (nodup_keys hok')
    intro entry hentry
    rw [snapshotWindows_snapshot] at hentry
    have ⟨session, hsession, hentry⟩ := List.mem_flatMap.mp hentry
    have ⟨window, hwindow, he⟩ := List.mem_map.mp hentry
    subst he
    exact (windowLayout_isOk_iff (hlayouts session hsession window hwindow)).mpr
      (hrelay session hsession window hwindow)

private theorem relayable_congr
    (hsame : changed.sessions.map layoutShape = st.sessions.map layoutShape)
    (h : st.Relayable) : changed.Relayable := by
  intro session hsession window hwindow
  have ⟨session₀, hsession₀, hshape⟩ := exists_shape_eq hsame hsession
  simp only [layoutShape, Prod.mk.injEq] at hshape
  have ⟨window₀, hwindow₀, heq⟩ := exists_shape_eq hshape.2.symm hwindow
  simp only [Prod.mk.injEq] at heq
  have hrelaid : relaid window = relaid window₀ := by
    unfold relaid
    rw [heq.2.1, heq.2.2]
  rw [hrelaid]
  exact h session₀ hsession₀ window₀ hwindow₀

omit [Scalar K] in
private theorem Focuses.withLayouts {session : NativeSession K} {window : NativeWindow K}
    {pane : NativePane} (h : st.Focuses changed session window pane)
    (layouts : LayoutMap (MuxPaneLayout K)) :
    st.Focuses (changed.withLayouts layouts) session window pane := by
  have hfind : ∀ id, (changed.withLayouts layouts).session? id =
      (changed.session? id).map fun s ↦ { s with
        windows := s.windows.map fun w ↦ { w with layout := layouts (s.id, w.id) } } := by
    intro id
    simp only [session?, NativeMuxState.withLayouts, List.find?_map]
    rfl
  constructor
  · exact h.session
  · rw [hfind, Option.map_map]
    exact h.window
  · have hwindow := h.pane
    simp only [window?, hfind] at hwindow ⊢
    cases hs : changed.session? session.id with
    | none => simp [hs] at hwindow
    | some s =>
      rw [hs] at hwindow
      simp only [Option.map_some, Option.bind_some, List.find?_map, Option.map_map] at hwindow ⊢
      exact hwindow
  · intro other hother hne
    rw [hfind, Option.map_map, ← h.others other hother hne]
    congr 1
    funext s
    simp only [Function.comp_apply, NativeSession.focus, List.map_map]
    rfl

end Rewrite

/-! ### Every run -/

/-- With exact weights every window of every reachable state can be laid out as it stands. -/
theorem relayable_run (generation : Nat) (ops : List (TopologyOp ℚ)) :
    (run generation ops).Relayable := by
  have hi : (run generation ops : NativeMuxState ℚ).Invariant := invariant_run generation ops
  intro s hs w hw
  have ⟨tree, htree, hc, hn, hperm⟩ := agrees_run generation ops s hs w hw
  have ⟨l, hl, hroot⟩ := PaneLayout.fromMuxLayout_of_canonical hc hn
  have hpanes : l.panes.Perm w.paneIds := by
    rw [PaneLayout.panes, hroot]
    exact hperm
  unfold relaid
  cases hids : w.paneIds with
  | nil => rfl
  | cons first rest =>
    rw [hids] at hpanes
    have hself : l.reconcile (first :: rest) = l :=
      PaneLayout.reconcile_eq_self (fun q ↦ hpanes.mem_iff) .right
    simp only [htree, Option.bind_some, hl, Option.getD_some, hself, Bool.and_eq_true, beq_iff_eq,
      List.all_eq_true, List.contains_iff_mem]
    exact ⟨hpanes.length_eq, fun q hq ↦ hpanes.mem_iff.mpr hq⟩

/-- In every reachable state a live pane is focused by its own ids, and no other session's focus
moves, exactly when no earlier session bears its session's id as a name and the windows can be
laid out as they stand; with exact weights the latter always holds. -/
theorem activatePane_focuses_iff [Scalar K] (generation : Nat) (ops : List (TopologyOp K))
    (host : Host) {s : NativeSession K} (hs : s ∈ (run generation ops).sessions)
    {w : NativeWindow K} (hw : w ∈ s.windows) {p : NativePane} (hp : p ∈ w.panes) :
    ((∃ st', (run generation ops).execute host (.activatePane s.id w.id p.id) = .ok st' ∧
        (run generation ops).Focuses st' s w p) ↔
      (run generation ops).NoNamesake s ∧ (run generation ops).Relayable) ∧
    ∀ exactOps : List (TopologyOp ℚ), (run generation exactOps).Relayable := by
  constructor
  · have hok := (invariant_run generation ops).topology
    generalize hst : run generation ops = st at hs hok ⊢
    have hexecute : st.execute host (.activatePane s.id w.id p.id) =
        st.executeAndLayOut host (.activatePane s.id w.id p.id) := rfl
    rw [hexecute]
    by_cases hname : st.NoNamesake s
    · obtain ⟨before, after, hsplit⟩ := List.append_of_mem hs
      obtain ⟨windowsBefore, windowsAfter, hwsplit⟩ := List.append_of_mem hw
      have hactivate := activatePane_eq_ok hok hsplit hwsplit hp (hname before after hsplit)
      have hok' : TopologyOk _ := ((rearranged_activatePane hok.sessionIds hactivate).toStep).ok hok
      have hfocus := focuses_focusedSession (p := p) hok hsplit hwsplit
      set changed : NativeMuxState K := { st with
        activeSessionId := s.id
        sessions := before ++ focusedSession s w p windowsBefore windowsAfter :: after }
        with hchanged
      have hsame : changed.sessions.map layoutShape = st.sessions.map layoutShape := by
        have hshape : layoutShape (focusedSession s w p windowsBefore windowsAfter) =
            layoutShape s := by
          simp only [layoutShape, focusedSession, hwsplit, List.map_append, List.map_cons]
          rfl
        rw [hsplit, hchanged, List.map_append, List.map_append, List.map_cons, List.map_cons,
          hshape]
      have hiff := updatedLayouts_isOk_iff (s := s.id) (w := w.id) (p := p.id) hok hok' hsame
      constructor
      · rintro ⟨st', h, _⟩
        simp only [executeAndLayOut, bind_eq_ok, executeTopology, hactivate] at h
        obtain ⟨changed', hc, layouts, hlayouts, _⟩ := h
        obtain rfl := Except.ok.inj hc
        exact ⟨hname, relayable_congr hsame.symm (hiff.mp ⟨layouts, hlayouts⟩)⟩
      · rintro ⟨_, hrelay⟩
        obtain ⟨layouts, hlayouts⟩ := hiff.mpr (relayable_congr hsame hrelay)
        refine ⟨changed.withLayouts layouts, ?_, hfocus.withLayouts layouts⟩
        rw [executeAndLayOut, executeTopology, hactivate, ok_bind, hlayouts]
        rfl
    · have herror := activatePane_eq_error hok hw hp hname
      constructor
      · rintro ⟨st', h, _⟩
        rw [executeAndLayOut, executeTopology, herror] at h
        simp [bind, Except.bind] at h
      · intro h
        exact absurd h.1 hname
  · exact relayable_run generation

/-- The only session of a server has no namesake before it. -/
theorem activatePane_focuses_iff_only :
    let ops : List (TopologyOp ℚ) :=
      [.execute .plain (.createProjectSession "work" "/src" {} none),
        .execute .plain (.splitPane "work" none .right)]
    ∃ s ∈ (run 7 ops).sessions, ∃ w ∈ s.windows, ∃ p ∈ w.panes, ∃ st',
      (run 7 ops).execute .plain (.activatePane s.id w.id p.id) = .ok st' ∧
        (run 7 ops).Focuses st' s w p := by
  intro ops
  have hlive : ∃ s ∈ (run 7 ops).sessions, ∃ w ∈ s.windows, ∃ p ∈ w.panes, p.id = p.id := by
    decide +kernel
  have honly : (run 7 ops).sessions.length = 1 := by decide +kernel
  have ⟨s, hs, w, hw, p, hp, _⟩ := hlive
  have ⟨hiff, hrelay⟩ := activatePane_focuses_iff 7 ops .plain hs hw hp
  refine ⟨s, hs, w, hw, p, hp, hiff.mpr ⟨?_, hrelay ops⟩⟩
  intro before after hsplit other hother
  rw [hsplit, List.length_append, List.length_cons] at honly
  have := List.length_pos_of_mem hother
  omega

/-- A session renamed to the id of a later one hides it: the pane of the later session is live
and cannot be focused by its own ids. -/
theorem not_activatePane_focuses :
    ¬ ∀ (generation : Nat) (ops : List (TopologyOp Binary32)) (host : Host),
      ∀ s ∈ (run generation ops).sessions, ∀ w ∈ s.windows, ∀ p ∈ w.panes, ∃ st',
        (run generation ops).execute host (.activatePane s.id w.id p.id) = .ok st' ∧
          (run generation ops).Focuses st' s w p := by
  intro hclaim
  let ops : List (TopologyOp Binary32) :=
    [.execute .plain (.createProjectSession "alpha" "/a" {} none),
      .execute .plain (.createProjectSession "beta" "/b" {} none),
      .execute .plain (.renameSession "alpha" "beta")]
  have hhidden : ∃ s ∈ (run 7 ops).sessions, ∃ w ∈ s.windows, ∃ p ∈ w.panes,
      ((run 7 ops).execute .plain (.activatePane s.id w.id p.id)).isOk = false := by
    decide +kernel
  have ⟨s, hs, w, hw, p, hp, herror⟩ := hhidden
  have ⟨st', h, _⟩ := hclaim 7 ops .plain s hs w hw p hp
  rw [h] at herror
  simp [Except.isOk, Except.toBool] at herror

end NativeMuxState
end Bootty.Mux.Native
