import Bootty.Base.Binary32
import Bootty.Mux.Native.Conservation
import Bootty.Mux.Native.ServerReservation

/-!
# The process table

The panes of a workspace are staged, prepared or installed. As long as every pane that exits
can be taken out of its split tree, the table has exactly the panes of the topology, and a
pane that leaves it, or never gets into it, has been told to stop or has exited.
-/

namespace Bootty.Mux.Native

open Bootty.Base

variable {K : Type}

/-! ### Pane ids of a topology -/

variable {st st' : NativeMuxState K} {session pane : String} {ws : Workspace K}

namespace NativeMuxState

/-- The snapshot shows every pane once. -/
theorem coe_snapshotPaneIds (st : NativeMuxState K) :
    (snapshotPaneIds st.snapshot : Multiset String) = st.paneIds := by
  have hwindows : ∀ s : NativeSession K,
      (s.windows.map (fun w ↦ (st.snapshotSession s, st.snapshotWindow s w))).flatMap
        (fun entry ↦ entry.2.panes.filterMap (·.paneId)) = s.windows.flatMap (·.paneIds) := by
    intro s
    rw [List.flatMap_map]
    refine List.flatMap_congr fun w _ ↦ ?_
    exact snapshotWindow_ids st s w
  have hlist : snapshotPaneIds st.snapshot =
      st.sessions.flatMap fun s ↦ s.windows.flatMap (·.paneIds) := by
    rw [snapshotPaneIds, snapshotWindows_snapshot, List.flatMap_assoc]
    exact List.flatMap_congr fun s _ ↦ hwindows s
  rw [hlist, paneIds, ← coe_flatMap_panes, Multiset.map_coe, List.map_flatMap]
  refine congrArg _ (List.flatMap_congr fun s _ ↦ ?_)
  rw [List.map_flatMap]
  rfl

private theorem mem_snapshotPaneIds {id : String} :
    id ∈ snapshotPaneIds st.snapshot ↔ id ∈ st.paneIds := by
  rw [← Multiset.mem_coe, coe_snapshotPaneIds]

private theorem nodup_snapshotPaneIds (h : TopologyOk st) :
    (snapshotPaneIds st.snapshot).Nodup := by
  rw [← Multiset.coe_nodup, coe_snapshotPaneIds]
  exact h.paneIds

variable [Scalar K] {host : Host}

omit [Scalar K] in
/-- Closing a pane by name takes exactly that pane away. -/
theorem paneIds_closePane (hok : TopologyOk st)
    (h : st.closePane session (some pane) true = .ok st') :
    st'.paneIds + {pane} = st.paneIds := by
  obtain ⟨s, -, ⟨-, hkill⟩ | ⟨target, ⟨-, rfl⟩, hstep⟩⟩ := closePane_step hok h
  · cases hkill
  · have hpanes := congrArg (Multiset.map (·.id)) hstep.panes_eq
    simpa [paneIds] using hpanes

omit [Scalar K] in
private theorem notMem_of_closePane (hok : TopologyOk st)
    (h : st.closePane session (some pane) true = .ok st') :
    pane ∉ st'.paneIds := by
  have hnodup := hok.paneIds
  rw [← paneIds_closePane hok h, Multiset.nodup_add] at hnodup
  intro hmem
  exact Multiset.disjoint_left.mp hnodup.2.2 hmem (Multiset.mem_singleton_self pane)

omit [Scalar K] in
/-- A pane that the snapshot shows can be closed; only laying out can fail. -/
theorem closePane_isOk (hok : TopologyOk ws.topology) (h : Server.sessionOf ws pane = some session)
    :
    ∃ changed, ws.topology.closePane session (some pane) true = .ok changed := by
  simp only [Server.sessionOf, snapshot, List.find?_map, Option.map_eq_some_iff] at h
  obtain ⟨_, ⟨s, hfind, rfl⟩, rfl⟩ := h
  have hs : s ∈ ws.topology.sessions := List.mem_of_find?_eq_some hfind
  have hshows := List.find?_some hfind
  simp only [Function.comp_apply, snapshotSession, snapshotWindow, List.any_map, List.any_eq_true,
    anchorForPane, anchorForOptionalPane, Option.map_some, beq_iff_eq, Option.some.injEq] at hshows
  obtain ⟨w, hw, p, hp, rfl⟩ := hshows
  have hfound : ws.topology.session? s.id = some s := by
    cases hfind' : ws.topology.session? s.id with
    | none => exact absurd (List.find?_eq_none.mp hfind' s hs) (by simp)
    | some s' =>
      have hid : s'.id = s.id := by simpa using List.find?_some hfind'
      rw [List.inj_on_of_nodup_map hok.sessionIds (List.mem_of_find?_eq_some hfind') hs hid]
  obtain ⟨closed, hclosed⟩ := closePaneIn_isOk hw (List.mem_map_of_mem hp) true
  change ∃ changed, ws.topology.closePane s.id (some p.id) true = .ok changed
  simp only [closePane, hfound, context_some, ok_bind, hclosed]
  cases closed with
  | none => exact ⟨_, rfl⟩
  | some closed =>
    simp only
    split
    · exact ⟨_, rfl⟩
    · split <;> exact ⟨_, rfl⟩

omit [Scalar K] in
private theorem invariant_overrideCwd {panes : PaneTable} {cwd : String} {ids : List String}
    (hi : st.Invariant) (h : Workspace.overrideCwd panes cwd ids st = .ok st') : st'.Invariant := by
  induction ids generalizing st with
  | nil =>
    obtain rfl := Except.ok.inj h
    exact hi
  | cons id ids ih =>
    simp only [Workspace.overrideCwd] at h
    split at h
    · exact ih hi h
    · simp only [bind_eq_ok] at h
      obtain ⟨next, hnext, h⟩ := h
      exact ih (hi.setPaneCwd hnext) h

private theorem Invariant.prepareTopology {command : MuxCommand K} {cwd : Option String}
    {next : NativeMuxState K} (hi : ws.topology.Invariant)
    (h : ws.prepareTopology host command cwd = .ok next) : next.Invariant := by
  simp only [Workspace.prepareTopology, bind_eq_ok] at h
  obtain ⟨changed, hchanged, h⟩ := h
  have hi' := hi.execute hchanged
  cases cwd with
  | none =>
    obtain rfl := pure_eq_ok.mp h
    exact hi'
  | some cwd => exact invariant_overrideCwd hi' h

end NativeMuxState

/-! ### Tables -/

variable {generation g : Nat}

namespace PaneTable

variable {table : PaneTable}

private theorem mem_ids {id : String} :
    id ∈ table.ids ↔ ∃ generation, (id, generation) ∈ table := by
  simp [ids]

private theorem mem_generations :
    generation ∈ table.generations ↔ ∃ id, (id, generation) ∈ table := by
  simp [generations]

/-- A key found in the table has an entry with what was found. -/
theorem mem_of_lookup {id : String} (h : table.lookup id = some generation) :
    (id, generation) ∈ table := by
  induction table with
  | nil => cases h
  | cons entry table ih =>
    rw [List.lookup_cons] at h
    by_cases hid : id = entry.1
    · simp only [hid, beq_self_eq_true] at h
      rw [hid, ← Option.some.inj h]
      exact List.mem_cons_self
    · rw [beq_eq_false_iff_ne.mpr hid] at h
      exact List.mem_cons_of_mem _ (ih h)

private theorem eq_of_mem (hn : table.ids.Nodup) {id : String} {g' : Nat} (h : (id, g) ∈ table)
    (h' : (id, g') ∈ table) : g = g' :=
  congrArg Prod.snd (List.inj_on_of_nodup_map hn h h' rfl)

/-- Adding entries under new keys keeps every old entry. -/
theorem extend_eq_append {added : PaneTable} (h : ∀ id ∈ added.ids, id ∉ table.ids) :
    table.extend added = table ++ added := by
  have hkeep : table.filter (fun entry ↦ !added.ids.contains entry.1) = table := by
    rw [List.filter_eq_self]
    rintro ⟨id, generation⟩ hentry
    simp only [Bool.not_eq_true', List.contains_eq_mem, decide_eq_false_iff_not]
    intro hadded
    exact h id hadded (mem_ids.mpr ⟨generation, hentry⟩)
  rw [extend, hkeep]

end PaneTable

/-! ### The server -/

namespace Server

/-- Where the process of a pane can be: staged by a running prepare, prepared, in the table,
told to stop, or gone by itself after it was in the table. -/
def Accounted (s : Server K) (generation : Nat) : Prop :=
  (∃ c t, s.task c = some (.staging t) ∧ generation ∈ t.staged.generations) ∨
    (∃ p, s.workspace.prepared = some p ∧ generation ∈ p.added.generations) ∨
    generation ∈ s.workspace.panes.generations ∨ generation ∈ s.stopped ∨ generation ∈ s.exited

section Property

variable [Scalar K]

/-- The table has the panes of the topology, a commit stops what it takes out of the table,
and every pane ever spawned is accounted for. -/
structure TableMatches (host : Host) (s : Server K) : Prop where
  keys : ∀ id, id ∈ s.workspace.panes.ids ↔ id ∈ s.workspace.topology.paneIds
  removed : ∀ c s', s.step host (.commit c) = some s' →
    ∀ g ∈ s.workspace.panes.generations, g ∉ s'.workspace.panes.generations → g ∈ s'.stopped
  spawned : ∀ g, 0 < g → g < s.nextGeneration → s.Accounted g

/-- An exit of a pane in the table finds a split tree that the pane can be taken out of. -/
def NoFailedClose (host : Host) (s : Server K) : Event K → Prop
  | .paneExited pane generation => s.workspace.reservation = none →
    s.workspace.panes.lookup pane = some generation → ∀ session,
      sessionOf s.workspace pane = some session →
      ∃ topology, s.workspace.topology.execute host (.closePane session (some pane)) = .ok topology
  | _ => True

end Property

/-- The staged panes are, in order, the panes of the staged topology that have no process. -/
private def Planned (ws : Workspace K) (t : Staging K) : Prop :=
  t.staged.ids ++ t.pending = ws.unlaunched t.next ∧ (ws.topology.Invariant → t.next.Invariant)

private theorem planned_carried [Scalar K] {host : Host} : Carried host (Planned (K := K)) where
  congr := by
    intro ws ws' t htop hpanes h
    unfold Planned Workspace.unlaunched
    rw [htop, hpanes]
    exact h
  reserve := by
    intro ws command cwd next h
    exact ⟨rfl, fun hi ↦ hi.prepareTopology h⟩
  launch := by
    intro ws t id pending generation hpending h
    refine ⟨?_, h.2⟩
    rw [← h.1, hpending]
    simp [PaneTable.ids]

/-- What every step keeps. -/
private structure Consistent (s : Server K) : Prop where
  topology : s.workspace.topology.Invariant
  keys : ∀ id, id ∈ s.workspace.panes.ids ↔ id ∈ s.workspace.topology.paneIds
  nodup : s.workspace.panes.ids.Nodup
  spawned : ∀ g, 0 < g → g < s.nextGeneration → s.Accounted g

private theorem consistent_new (generation : Nat) : (new generation : Server K).Consistent where
  topology := NativeMuxState.invariant_new generation
  keys := by
    simp [new, Workspace.new, PaneTable.ids, NativeMuxState.paneIds, NativeMuxState.panes,
      NativeMuxState.new]
  nodup := by simp [new, Workspace.new, PaneTable.ids]
  spawned := by
    intro g hpos hlt
    simp only [new] at hlt
    omega

namespace Consistent

variable {s s' : Server K}

private theorem spawned_frame (h : s.Consistent)
    (hpanes : s'.workspace.panes = s.workspace.panes)
    (hprep : s'.workspace.prepared = s.workspace.prepared)
    (hnext : s'.nextGeneration = s.nextGeneration) (hstopped : s.stopped ⊆ s'.stopped)
    (hexited : s'.exited = s.exited)
    (htask : ∀ c t, s.task c = some (.staging t) →
      s'.task c = some (.staging t) ∨ t.staged.generations ⊆ s'.stopped) :
    ∀ g, 0 < g → g < s'.nextGeneration → s'.Accounted g := by
  intro g hpos hlt
  rw [hnext] at hlt
  unfold Accounted
  rw [hprep, hpanes, hexited]
  rcases h.spawned g hpos hlt with ⟨c, t, hc, hg⟩ | hprepared | htable | hstop | hexit
  · rcases htask c t hc with hc' | hdropped
    · exact .inl ⟨c, t, hc', hg⟩
    · exact .inr (.inr (.inr (.inl (hdropped hg))))
  · exact .inr (.inl hprepared)
  · exact .inr (.inr (.inl htable))
  · exact .inr (.inr (.inr (.inl (hstopped hstop))))
  · exact .inr (.inr (.inr (.inr hexit)))

private theorem of_spawned (h : s.Consistent) (hi : s'.workspace.topology.Invariant)
    (hids : s'.workspace.topology.paneIds = s.workspace.topology.paneIds)
    (hpanes : s'.workspace.panes = s.workspace.panes)
    (hspawned : ∀ g, 0 < g → g < s'.nextGeneration → s'.Accounted g) : s'.Consistent where
  topology := hi
  keys := by
    rw [hpanes, hids]
    exact h.keys
  nodup := by
    rw [hpanes]
    exact h.nodup
  spawned := hspawned

private theorem task_setTask_of_ne {c : Nat} {x : Option (Task K)}
    (hne : ∀ t, s.task c ≠ some (.staging t)) (d : Nat) (t : Staging K)
    (ht : s.task d = some (.staging t)) : (s.setTask c x).task d = some (.staging t) := by
  rw [task_setTask, if_neg]
  · exact ht
  · rintro rfl
    exact hne t ht

private theorem launch (h : s.Consistent) {c : Nat} {t : Staging K} (id : String)
    (pending : List String) (ht : s.task c = some (.staging t)) :
    ({ s with nextGeneration := s.nextGeneration + 1 }.setTask c (some (.staging
      { t with pending, staged := t.staged ++ [(id, s.nextGeneration)] }))).Consistent := by
  refine h.of_spawned h.topology rfl rfl ?_
  intro g hpos hlt
  have hown : ({ s with nextGeneration := s.nextGeneration + 1 }.setTask c (some (.staging
      { t with pending, staged := t.staged ++ [(id, s.nextGeneration)] }))).task c =
        some (.staging { t with pending, staged := t.staged ++ [(id, s.nextGeneration)] }) := by
    rw [task_setTask, if_pos rfl]
  rcases Nat.lt_succ_iff_lt_or_eq.mp hlt with hold | rfl
  · rcases h.spawned g hpos hold with ⟨d, u, hd, hg⟩ | hrest
    · left
      by_cases hdc : d = c
      · subst hdc
        obtain rfl := Task.staging.inj (Option.some.inj (ht.symm.trans hd))
        refine ⟨d, _, hown, ?_⟩
        simp only [PaneTable.generations, List.map_append, List.mem_append]
        exact .inl hg
      · refine ⟨d, u, ?_, hg⟩
        rw [task_setTask, if_neg hdc]
        exact hd
    · exact .inr hrest
  · exact .inl ⟨c, _, hown, by simp [PaneTable.generations]⟩

private theorem dropStaged (h : s.Consistent) {c : Nat} {t : Staging K}
    (ht : s.task c = some (.staging t)) : (s.dropStaged c t).Consistent := by
  refine h.of_spawned h.topology rfl rfl (h.spawned_frame rfl rfl rfl ?_ rfl ?_)
  · exact List.subset_append_right _ _
  · intro d u hd
    by_cases hdc : d = c
    · subst hdc
      obtain rfl := Task.staging.inj (Option.some.inj (ht.symm.trans hd))
      exact .inr (List.subset_append_left _ _)
    · left
      rw [Server.dropStaged, task_setTask, if_neg hdc]
      exact hd

private theorem install (h : s.Consistent) {c : Nat} {t : Staging K}
    (ht : s.task c = some (.staging t)) (hprep : s.workspace.prepared = none) :
    ({ s with workspace := { s.workspace with
      prepared := some ⟨c, t.command, t.cwd, t.next, t.staged⟩ } }.setTask c none).Consistent := by
  refine h.of_spawned h.topology rfl rfl ?_
  intro g hpos hlt
  rcases h.spawned g hpos hlt with ⟨d, u, hd, hg⟩ | ⟨p, hp, -⟩ | hrest
  · by_cases hdc : d = c
    · subst hdc
      obtain rfl := Task.staging.inj (Option.some.inj (ht.symm.trans hd))
      exact .inr (.inl ⟨_, rfl, hg⟩)
    · refine .inl ⟨d, u, ?_, hg⟩
      rw [task_setTask, if_neg hdc]
      exact hd
  · rw [hprep] at hp
    cases hp
  · exact .inr (.inr hrest)

private theorem abort (h : s.Consistent) (c : Nat) :
    (s.settle (s.workspace.abort c)).Consistent := by
  rcases abort_cases s.workspace c with ⟨hws, -⟩ | ⟨hws, -⟩
  · rw [hws]
    exact h
  · rw [hws]
    refine h.of_spawned h.topology rfl rfl ?_
    intro g hpos hlt
    rcases h.spawned g hpos hlt with hstaged | ⟨p, hp, hg⟩ | htable | hstop | hexit
    · exact .inl hstaged
    · refine .inr (.inr (.inr (.inl (List.mem_append_left _ ?_))))
      rw [hp]
      exact hg
    · exact .inr (.inr (.inl htable))
    · exact .inr (.inr (.inr (.inl (List.mem_append_right _ hstop))))
    · exact .inr (.inr (.inr (.inr hexit)))

end Consistent

/-! ### Commit and exit -/

section Commit

variable {s : Server K} {c : Nat} {p : Prepared K}

private theorem added_of_planned (h : Planned ws p.staging) :
    p.added.ids = ws.unlaunched p.next := by
  have hstaged := h.1
  rwa [Prepared.staging, List.append_nil] at hstaged

private theorem commit_panes (hp : s.workspace.prepared = some p)
    (hres : s.workspace.reservation = some c) (hplan : Planned s.workspace p.staging) :
    (s.workspace.commit c).1.panes =
      s.workspace.panes.filter (fun entry ↦ (snapshotPaneIds p.next.snapshot).contains entry.1) ++
        p.added := by
  obtain ⟨-, -, -, hpanes, -⟩ := commit_eq hp hres
  rw [hpanes]
  apply PaneTable.extend_eq_append
  intro id hid hkept
  obtain ⟨generation, hentry⟩ := PaneTable.mem_ids.mp hkept
  have hold : id ∈ s.workspace.panes.ids :=
    PaneTable.mem_ids.mpr ⟨generation, List.mem_of_mem_filter hentry⟩
  rw [added_of_planned hplan, Workspace.unlaunched, List.mem_filter] at hid
  simp [hold] at hid

private theorem stopped_of_commit (hp : s.workspace.prepared = some p)
    (hres : s.workspace.reservation = some c) (hplan : Planned s.workspace p.staging)
    (hg : g ∈ s.workspace.panes.generations) :
    g ∈ (s.workspace.commit c).1.panes.generations ∨ g ∈ (s.workspace.commit c).2 := by
  obtain ⟨-, -, -, -, hgone⟩ := commit_eq hp hres
  obtain ⟨id, hentry⟩ := PaneTable.mem_generations.mp hg
  rw [commit_panes hp hres hplan, hgone]
  by_cases hlive : (snapshotPaneIds p.next.snapshot).contains id = true
  · left
    refine PaneTable.mem_generations.mpr ⟨id, List.mem_append_left _ ?_⟩
    exact List.mem_filter.mpr ⟨hentry, hlive⟩
  · right
    refine PaneTable.mem_generations.mpr ⟨id, List.mem_filter.mpr ⟨hentry, ?_⟩⟩
    simpa using hlive

private theorem consistent_commit (h : s.Consistent) (hp : s.workspace.prepared = some p)
    (hres : s.workspace.reservation = some c) (hplan : Planned s.workspace p.staging) :
    (s.settle (s.workspace.commit c)).Consistent := by
  obtain ⟨htop, -, -, -, -⟩ := commit_eq hp hres
  have hpanes := commit_panes hp hres hplan
  have hnext := hplan.2 h.topology
  have hids : (s.workspace.commit c).1.panes.ids =
      s.workspace.panes.ids.filter (fun id ↦ (snapshotPaneIds p.next.snapshot).contains id) ++
        s.workspace.unlaunched p.next := by
    rw [hpanes, ← added_of_planned hplan, PaneTable.ids, PaneTable.ids, PaneTable.ids, List.map_append,
      List.filter_map]
    rfl
  refine ⟨?_, ?_, ?_, ?_⟩
  · change (s.workspace.commit c).1.topology.Invariant
    rw [htop]
    exact hnext
  · intro id
    change id ∈ (s.workspace.commit c).1.panes.ids ↔ id ∈ (s.workspace.commit c).1.topology.paneIds
    rw [hids, htop, ← NativeMuxState.mem_snapshotPaneIds, Workspace.unlaunched]
    simp only [List.mem_append, List.mem_filter, List.contains_eq_mem, decide_eq_true_eq,
      Bool.not_eq_true', decide_eq_false_iff_not]
    tauto
  · change (s.workspace.commit c).1.panes.ids.Nodup
    rw [hids, List.nodup_append]
    refine ⟨h.nodup.filter _, (NativeMuxState.nodup_snapshotPaneIds hnext.topology).filter _, ?_⟩
    rintro id hold _ hnew rfl
    have hfresh := (List.mem_filter.mp hnew).2
    simp [(List.mem_filter.mp hold).1] at hfresh
  · intro g hpos hlt
    rcases h.spawned g hpos hlt with hstaged | ⟨q, hq, hg⟩ | htable | hstop | hexit
    · exact .inl hstaged
    · obtain rfl := Option.some.inj (hp.symm.trans hq)
      refine .inr (.inr (.inl ?_))
      change g ∈ (s.workspace.commit c).1.panes.generations
      rw [hpanes, PaneTable.generations, List.map_append]
      exact List.mem_append_right _ hg
    · rcases stopped_of_commit hp hres hplan htable with hkept | hgone
      · exact .inr (.inr (.inl hkept))
      · exact .inr (.inr (.inr (.inl (List.mem_append_left _ hgone))))
    · exact .inr (.inr (.inr (.inl (List.mem_append_right _ hstop))))
    · exact .inr (.inr (.inr (.inr hexit)))

end Commit

section Step

variable [Scalar K] {host : Host} {s s' : Server K} {e : Event K}

private theorem paneIds_of_execute_closePane (h : TopologyOk st)
    (hok : st.execute host (.closePane session (some pane)) = .ok st') :
    st'.paneIds + {pane} = st.paneIds ∧ pane ∉ st'.paneIds := by
  simp only [NativeMuxState.execute, NativeMuxState.executeAndLayOut, bind_eq_ok, pure_eq_ok] at hok
  obtain ⟨changed, hchanged, layouts, -, rfl⟩ := hok
  rw [(NativeMuxState.sameShape_withLayouts changed layouts).paneIds_eq]
  exact ⟨NativeMuxState.paneIds_closePane h hchanged, NativeMuxState.notMem_of_closePane h hchanged⟩

private theorem consistent_closed (h : s.Consistent) {topology : NativeMuxState K}
    (hcurrent : s.workspace.panes.lookup pane = some generation)
    (hok : s.workspace.topology.execute host (.closePane session (some pane)) = .ok topology) :
    Consistent { s with
      workspace :=
        { s.workspace with topology, panes := s.workspace.panes.filter (·.1 != pane) }.publish
      exited := generation :: s.exited } := by
  have hids : PaneTable.ids (s.workspace.panes.filter (·.1 != pane)) =
      s.workspace.panes.ids.filter (· != pane) := by
    rw [PaneTable.ids, PaneTable.ids, List.filter_map]
    rfl
  obtain ⟨hclosed, hgone⟩ := paneIds_of_execute_closePane h.topology.topology hok
  refine ⟨?_, ?_, ?_, ?_⟩
  · rw [publish_topology]
    exact h.topology.execute hok
  · intro id
    rw [publish_topology, publish_panes, hids, List.mem_filter, h.keys, ← hclosed, Multiset.mem_add,
      Multiset.mem_singleton, bne_iff_ne]
    constructor
    · rintro ⟨hmem | rfl, hne⟩
      · exact hmem
      · exact absurd rfl hne
    · intro hmem
      refine ⟨.inl hmem, ?_⟩
      rintro rfl
      exact hgone hmem
  · rw [publish_panes, hids]
    exact h.nodup.filter _
  · intro g hpos hlt
    rcases h.spawned g hpos hlt with hstaged | hprep | htable | hstop | hexit
    · exact .inl hstaged
    · refine .inr (.inl ?_)
      rw [publish_prepared]
      exact hprep
    · obtain ⟨id, hentry⟩ := PaneTable.mem_generations.mp htable
      by_cases hid : id = pane
      · subst hid
        have hsame := PaneTable.eq_of_mem h.nodup hentry (PaneTable.mem_of_lookup hcurrent)
        exact .inr (.inr (.inr (.inr (hsame ▸ List.mem_cons_self))))
      · refine .inr (.inr (.inl ?_))
        rw [publish_panes]
        exact PaneTable.mem_generations.mpr ⟨id, List.mem_filter.mpr ⟨hentry, by simpa using hid⟩⟩
    · exact .inr (.inr (.inr (.inl hstop)))
    · exact .inr (.inr (.inr (.inr (List.mem_cons_of_mem _ hexit))))

private theorem consistent_step (hprotocol : Protocol Planned s) (h : s.Consistent)
    (hok : s.NoFailedClose host e) (hstep : s.step host e = some s') : s'.Consistent := by
  cases transition_of_step hstep with
  | quiet same =>
    refine h.of_spawned ?_ ?_ same.panes ?_
    · rw [same.topology]
      exact h.topology
    · rw [same.topology]
    · refine h.spawned_frame same.panes same.prepared same.nextGeneration ?_ same.exited ?_
      · rw [same.stopped]
        exact List.Subset.refl _
      · intro c t ht
        left
        rw [same.task c (.inl (by rw [ht]; rfl))]
        exact ht
  | setLayout free ok =>
    refine h.of_spawned ?_ ?_ (by simp) ?_
    · rw [publish_topology]
      exact h.topology.setLayout ok
    · rw [publish_topology]
      exact (NativeMuxState.sameShape_setLayout ok).paneIds_eq
    · exact h.spawned_frame (by simp) (by simp) rfl (List.Subset.refl _) rfl fun _ _ ht ↦ .inl ht
  | record task current ok =>
    refine h.of_spawned ?_ ?_ (by simp) ?_
    · rw [publish_topology]
      exact h.topology.setPaneCwd ok
    · rw [publish_topology]
      exact (NativeMuxState.sameShape_setPaneCwd ok).paneIds_eq
    · refine h.spawned_frame (by simp) (by simp) rfl (List.Subset.refl _) rfl ?_
      intro d t ht
      exact .inl (Consistent.task_setTask_of_ne (by rw [task]; simp) d t ht)
  | reserve task free ok =>
    refine h.of_spawned h.topology rfl rfl ?_
    refine h.spawned_frame rfl rfl rfl (List.Subset.refl _) rfl ?_
    intro d t ht
    exact .inl (Consistent.task_setTask_of_ne (by rw [task]; simp) d t ht)
  | launch task more => exact h.launch _ _ task
  | dropStaged task => exact h.dropStaged task
  | @install c t task launched owned => exact h.install task (hprotocol.staging c t task owned).1
  | @release c task =>
    have hpanes : (s.workspace.release c).panes = s.workspace.panes := by
      unfold Workspace.release
      split <;> rfl
    have htop : (s.workspace.release c).topology = s.workspace.topology := by
      unfold Workspace.release
      split <;> rfl
    have hprep : (s.workspace.release c).prepared = s.workspace.prepared := by
      unfold Workspace.release
      split <;> rfl
    refine h.of_spawned ?_ ?_ hpanes ?_
    · rw [setTask_workspace, htop]
      exact h.topology
    · rw [setTask_workspace, htop]
    · refine h.spawned_frame hpanes hprep rfl (List.Subset.refl _) rfl ?_
      intro d t ht
      exact .inl (Consistent.task_setTask_of_ne (by rw [task]; simp) d t ht)
  | @commit c p task prepared owned =>
    have hsettled := consistent_commit h prepared owned (hprotocol.prepared p prepared)
    refine hsettled.of_spawned hsettled.topology rfl rfl ?_
    refine hsettled.spawned_frame rfl rfl rfl (List.Subset.refl _) rfl ?_
    intro d t ht
    exact .inl (Consistent.task_setTask_of_ne (by rw [settle, task]; simp) d t ht)
  | @abort c task =>
    have hsettled := h.abort c
    refine hsettled.of_spawned hsettled.topology rfl rfl ?_
    refine hsettled.spawned_frame rfl rfl rfl (List.Subset.refl _) rfl ?_
    intro d t ht
    exact .inl (Consistent.task_setTask_of_ne (by rw [settle, task]; simp) d t ht)
  | @finalAbort c dropped =>
    have hsettled := h.abort c
    exact ⟨hsettled.topology, hsettled.keys, hsettled.nodup, hsettled.spawned⟩
  | closed free current shown ok => exact consistent_closed h current ok
  | failedClose free current shown failed =>
    obtain ⟨topology, hclosed⟩ := hok free current _ shown
    rw [hclosed] at failed
    cases failed

private theorem planned_step (hprotocol : Protocol Planned s) (h : s.Consistent)
    (hstep : s.step host e = some s') : Protocol Planned s' := by
  apply hprotocol.step planned_carried hstep
  rintro c pane generation cwd topology - - - - d t - ht
  exact ⟨ht.1, fun _ ↦ ht.2 h.topology⟩

private theorem consistent_run (hs : Reaches (step host) (NoFailedClose host) (new generation) s) :
    Protocol Planned s ∧ s.Consistent := by
  apply hs.invariant (I := fun s ↦ Protocol Planned s ∧ s.Consistent)
  · exact ⟨protocol_new generation, consistent_new generation⟩
  · intro s e s' h hok hnext
    exact ⟨planned_step h.1 h.2 hnext, consistent_step h.1 h.2 hok hnext⟩

private theorem mismatch_of_failedClose (h : s.Consistent)
    (hstep : s.step host (.paneExited pane generation) = some s')
    (hfailed : ¬ s.NoFailedClose host (.paneExited pane generation)) :
    pane ∈ s'.workspace.panes.ids ∧ pane ∉ s'.workspace.topology.paneIds := by
  simp only [NoFailedClose, Classical.not_imp, not_forall, not_exists] at hfailed
  obtain ⟨hfree, hcurrent, session, hsession, hfailed⟩ := hfailed
  obtain ⟨changed, hchanged⟩ := NativeMuxState.closePane_isOk h.topology.topology hsession
  have htopology : s.workspace.topology.executeTopology host (.closePane session (some pane)) =
      .ok changed := hchanged
  cases hexec : s.workspace.topology.execute host (.closePane session (some pane)) with
  | ok topology => exact absurd hexec (hfailed topology)
  | error error =>
    simp only [step, hfree, Option.isNone_none, if_true, Option.some.injEq] at hstep
    simp only [paneExited, hcurrent, hsession, NativeMuxState.executeInPlace, hexec, htopology,
      if_true] at hstep
    subst hstep
    refine ⟨PaneTable.mem_ids.mpr ⟨generation, PaneTable.mem_of_lookup hcurrent⟩, ?_⟩
    exact NativeMuxState.notMem_of_closePane h.topology.topology hchanged

private theorem stopped_of_step (hprotocol : Protocol Planned s) {c : Nat}
    (hstep : s.step host (.commit c) = some s') (hg : g ∈ s.workspace.panes.generations)
    (hgone : g ∉ s'.workspace.panes.generations) :
    g ∈ s'.stopped := by
  cases transition_of_step hstep with
  | quiet same =>
    rw [same.panes] at hgone
    exact absurd hg hgone
  | commit task prepared owned =>
    rcases stopped_of_commit prepared owned (hprotocol.prepared _ prepared) hg with hkept | hstop
    · exact absurd hkept hgone
    · exact List.mem_append_left _ hstop
  | dropStaged task => exact absurd hg hgone

/-- In every run in which each pane that exits can be taken out of its split tree, the
process table matches the topology; an exit of one that cannot breaks the match at once. -/
theorem process_table_matches (host : Host) (generation : Nat) (s : Server K)
    (hs : Reaches (step host) (NoFailedClose host) (new generation) s) :
    s.TableMatches host ∧ ∀ pane g s', s.step host (.paneExited pane g) = some s' →
      ¬ s.NoFailedClose host (.paneExited pane g) → ¬ s'.TableMatches host := by
  obtain ⟨hprotocol, hconsistent⟩ := consistent_run hs
  constructor
  · refine ⟨hconsistent.keys, ?_, hconsistent.spawned⟩
    intro c s' hstep g hg hgone
    exact stopped_of_step hprotocol hstep hg hgone
  · intro pane g s' hstep hfailed hmatches
    obtain ⟨htable, hgone⟩ := mismatch_of_failedClose hconsistent hstep hfailed
    exact hgone ((hmatches.keys pane).mp htable)

/-- Client 1 runs a prepare that launches one pane, and commits it. -/
def committed (command : MuxCommand K) : List (Event K) :=
  [.prepare 1 command, .source 1 (some none), .reserve 1, .launch 1, .install 1,
    .requestCommit 1, .commit 1]

/-- No pane exits. -/
def withoutExit (_ : Server K) : Event K → Bool
  | .paneExited _ _ => false
  | _ => true

theorem noFailedClose_of_test (host : Host) (s : Server K) (e : Event K)
    (h : s.withoutExit e = true) : s.NoFailedClose host e := by
  cases e with
  | paneExited pane generation => cases h
  | _ => trivial

private def hasTwoPanes (s : Server K) : Bool := s.workspace.panes.ids.length == 2

/-- A split adds its pane to the table and to the topology. -/
theorem process_table_matches_split : ∃ s,
    Reaches (step Host.plain) (NoFailedClose Host.plain) (new 7 : Server Binary32) s ∧
      s.workspace.panes.ids.length = 2 ∧ s.TableMatches Host.plain := by
  obtain ⟨s, hs, hgoal⟩ := exists_reaches_of_runEvents (noFailedClose_of_test Host.plain)
    (show (runEvents (step Host.plain) withoutExit (new 7 : Server Binary32)
      (.connect 1 :: committed (.createProjectSession "work" "/src" {} none) ++
        committed (.splitPane "work" none .right))).map hasTwoPanes = some true by decide +kernel)
  exact ⟨s, hs, eq_of_beq hgoal, (process_table_matches Host.plain 7 s hs).1⟩

/-- A pane that is in the table and not in the topology. -/
private def lists (pane : String) (s : Server K) : Bool :=
  s.workspace.panes.ids.contains pane && !(snapshotPaneIds s.workspace.topology.snapshot).contains pane

-- Closing the first pane collapses the column, and its row splices into the outer row of the
-- same direction with weight `1e-30 * 1e-30`, which is zero in `f32`.
private def thinLayout : MuxPaneLayout Binary32 :=
  let thin : Binary32 := Scalar.literal (1 / 10 ^ 30)
  let one : Binary32 := Scalar.literal 1
  .split .right [thin, one]
    [.split .down [one, one] [.pane "pane-0000000000000007-1",
        .split .right [thin, one] [.pane "pane-0000000000000007-2", .pane "pane-0000000000000007-3"]],
      .pane "pane-0000000000000007-4"]

/-- A pane exits beside one that is too thin to lay out. -/
def thinExit : List (Event Binary32) :=
  .connect 1 :: committed (.createProjectSession "work" "/src" {} none) ++
    committed (.splitPane "work" none .right) ++ committed (.splitPane "work" none .right) ++
    committed (.splitPane "work" none .right) ++
    [.setLayout 1 "work" "tab-1" thinLayout, .paneExited "pane-0000000000000007-1" 1]

/-- A pane whose exit cannot be laid out stays in the table after the topology has lost it. -/
theorem not_process_table_matches :
    ¬ ∀ s, Reaches (step Host.plain) anyStep (new 7 : Server Binary32) s →
      s.TableMatches Host.plain := by
  intro h
  obtain ⟨s, hs, hgoal⟩ := exists_reaches_anyStep
    (show (runEvents (step Host.plain) anyTest (new 7) thinExit).map
      (lists "pane-0000000000000007-1") = some true by decide +kernel)
  simp only [lists, List.contains_eq_mem, Bool.and_eq_true, decide_eq_true_eq,
    Bool.not_eq_true', decide_eq_false_iff_not] at hgoal
  have hkey := ((h s hs).keys _).mp hgoal.1
  exact hgoal.2 (NativeMuxState.mem_snapshotPaneIds.mpr hkey)

end Step

end Server
end Bootty.Mux.Native
