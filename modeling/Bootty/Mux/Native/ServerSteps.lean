import Bootty.Mux.Native.Server

/-!
# What a step of the server can do

`Transition` lists the ways in which a step changes the workspace or the panes; everything
else it does is `Quiet`. The invariants of the server are proved from this list and not from
`Server.step`.
-/

namespace Bootty.Mux.Native

open Bootty.Base

variable {K : Type}

namespace Server

/-- Tasks that hold the reservation or are about to give it up. -/
def Task.holds : Option (Task K) → Bool
  | some (.staging _) | some .releasing => true
  | _ => false

/-! ### Frames -/

@[simp] theorem setTask_workspace (s : Server K) (c : Nat) (x : Option (Task K)) :
    (s.setTask c x).workspace = s.workspace := rfl

@[simp] theorem setTask_connection (s : Server K) (c : Nat) (x : Option (Task K)) :
    (s.setTask c x).connection = s.connection := rfl

@[simp] theorem setConnection_workspace (s : Server K) (c : Nat) (x : Connection) :
    (s.setConnection c x).workspace = s.workspace := rfl

@[simp] theorem publish_topology (ws : Workspace K) : ws.publish.topology = ws.topology := by
  unfold Workspace.publish
  split <;> rfl

@[simp] theorem publish_panes (ws : Workspace K) : ws.publish.panes = ws.panes := by
  unfold Workspace.publish
  split <;> rfl

/-- An exhausted revision stays as it is. -/
theorem le_publish_revision (ws : Workspace K) : ws.revision ≤ ws.publish.revision := by
  unfold Workspace.publish
  split
  · exact Nat.le_succ _
  · exact le_rfl

@[simp] theorem publish_reservation (ws : Workspace K) :
    ws.publish.reservation = ws.reservation := by
  unfold Workspace.publish
  split <;> rfl

@[simp] theorem publish_prepared (ws : Workspace K) : ws.publish.prepared = ws.prepared := by
  unfold Workspace.publish
  split <;> rfl

/-- A task of a client after `setTask`. -/
theorem task_setTask (s : Server K) (c d : Nat) (x : Option (Task K)) :
    (s.setTask c x).task d = if d = c then x else s.task d := by
  simp [setTask, Function.update_apply]

/-- A connection after `setConnection`. -/
theorem connection_setConnection (s : Server K) (c d : Nat) (x : Connection) :
    (s.setConnection c x).connection d = if d = c then x else s.connection d := by
  simp [setConnection, Function.update_apply]

/-- Only the connections and tasks that hold nothing have changed, no connection has ended,
and the revision has not gone down. -/
structure Quiet (s s' : Server K) : Prop where
  topology : s'.workspace.topology = s.workspace.topology
  panes : s'.workspace.panes = s.workspace.panes
  revision : s.workspace.revision ≤ s'.workspace.revision
  reservation : s'.workspace.reservation = s.workspace.reservation
  prepared : s'.workspace.prepared = s.workspace.prepared
  nextGeneration : s'.nextGeneration = s.nextGeneration
  stopped : s'.stopped = s.stopped
  exited : s'.exited = s.exited
  task : ∀ c, (Task.holds (s.task c) = true ∨ Task.holds (s'.task c) = true) → s'.task c = s.task c
  aborted : ∀ c, s'.connection c = .aborted → s.connection c = .aborted

variable {c : Nat} {s : Server K}

namespace Quiet

private theorem refl (s : Server K) : Quiet s s :=
  ⟨rfl, rfl, le_rfl, rfl, rfl, rfl, rfl, rfl, fun _ _ ↦ rfl, fun _ h ↦ h⟩

/-- Starting or ending a task that holds nothing. -/
theorem setTask (s : Server K) {x : Option (Task K)} (hfree : Task.holds (s.task c) = false)
    (hx : Task.holds x = false) :
    Quiet s (s.setTask c x) := by
  refine ⟨rfl, rfl, le_rfl, rfl, rfl, rfl, rfl, rfl, fun d hd ↦ ?_, fun _ h ↦ h⟩
  rw [task_setTask] at hd ⊢
  by_cases hdc : d = c
  · subst hdc
    simp [hfree, hx] at hd
  · rw [if_neg hdc]

/-- A new revision of the same workspace. -/
theorem publish {s' : Server K} (h : Quiet s s') :
    Quiet s { s' with workspace := s'.workspace.publish } :=
  ⟨by simp [h.topology], by simp [h.panes], h.revision.trans (le_publish_revision _),
    by simp [h.reservation], by simp [h.prepared],
    h.nextGeneration, h.stopped, h.exited, h.task, h.aborted⟩

/-- An idle client starts a task that holds nothing. -/
theorem start (hidle : s.idle c = true) {x : Option (Task K)} (hx : Task.holds x = false) :
    Quiet s (s.setTask c x) := by
  have hnone : s.task c = none := by simpa [idle] using (Bool.and_eq_true_iff.mp hidle).2
  apply setTask s _ hx
  rw [hnone]
  rfl

/-- A connection begins, or is dropped with the requests that do not outlive it. -/
theorem disconnect (s : Server K) (c : Nat) :
    Quiet s ((s.setConnection c .dropped).setTask c ((s.task c).filter Task.blocking)) := by
  refine ⟨rfl, rfl, le_rfl, rfl, rfl, rfl, rfl, rfl, fun d hd ↦ ?_, fun d hd ↦ ?_⟩
  · rw [task_setTask] at hd ⊢
    by_cases hdc : d = c
    · subst hdc
      rw [if_pos rfl] at hd ⊢
      cases hs : s.task d with
      | none => rfl
      | some t => cases t <;> simp_all [Option.filter, Task.blocking, Task.holds]
    · exact if_neg hdc
  · rw [setTask_connection, connection_setConnection] at hd
    split at hd
    · cases hd
    · exact hd

private theorem connect (s : Server K) (c : Nat) : Quiet s (s.setConnection c .serving) := by
  refine ⟨rfl, rfl, le_rfl, rfl, rfl, rfl, rfl, rfl, fun _ _ ↦ rfl, fun d hd ↦ ?_⟩
  rw [connection_setConnection] at hd
  split at hd
  · cases hd
  · exact hd

end Quiet

/-! ### Transitions -/

variable [Scalar K] {host : Host}

/-- What a step can do, with what it has checked. -/
inductive Transition (host : Host) (s : Server K) : Event K → Server K → Prop
  | quiet {e : Event K} {s' : Server K} (same : Quiet s s') : Transition host s e s'
  | setLayout {c : Nat} {session window : String} {layout : MuxPaneLayout K}
      {topology : NativeMuxState K} (free : s.workspace.reservation = none)
      (ok : s.workspace.topology.setLayout session window layout = .ok topology) :
      Transition host s (.setLayout c session window layout)
        { s with workspace := { s.workspace with topology }.publish }
  | record {c : Nat} {pane cwd : String} {generation : Nat} {topology : NativeMuxState K}
      (task : s.task c = some (.respawn pane generation (some cwd)))
      (current : s.workspace.panes.lookup pane = some generation)
      (ok : s.workspace.topology.setPaneCwd pane cwd = .ok topology) :
      Transition host s (.respawned c true)
        { s.setTask c none with workspace := { s.workspace with topology }.publish }
  | reserve {c : Nat} {command : MuxCommand K} {cwd : Option String} {revision : Nat}
      {next : NativeMuxState K} (task : s.task c = some (.sourced command cwd revision))
      (free : s.workspace.reservation = none)
      (ok : s.workspace.prepareTopology host command cwd = .ok next) :
      Transition host s (.reserve c)
        ({ s with workspace := { s.workspace with reservation := some c } }.setTask c
          (some (.staging { command, cwd, next, pending := s.workspace.unlaunched next
                            staged := [] })))
  | launch {c : Nat} {t : Staging K} {id : String} {pending : List String}
      (task : s.task c = some (.staging t)) (more : t.pending = id :: pending) :
      Transition host s (.launch c)
        ({ s with nextGeneration := s.nextGeneration + 1 }.setTask c
          (some (.staging { t with pending, staged := t.staged ++ [(id, s.nextGeneration)] })))
  | dropStaged {e : Event K} {c : Nat} {t : Staging K} (task : s.task c = some (.staging t)) :
      Transition host s e (s.dropStaged c t)
  | install {c : Nat} {t : Staging K} (task : s.task c = some (.staging t))
      (launched : t.pending = []) (owned : s.workspace.reservation = some c) :
      Transition host s (.install c)
        ({ s with workspace := { s.workspace with
            prepared := some ⟨c, t.command, t.cwd, t.next, t.staged⟩ } }.setTask c none)
  | release {c : Nat} (task : s.task c = some .releasing) :
      Transition host s (.release c)
        ({ s with workspace := s.workspace.release c }.setTask c none)
  | commit {c : Nat} {p : Prepared K} (task : s.task c = some .commit)
      (prepared : s.workspace.prepared = some p) (owned : s.workspace.reservation = some c) :
      Transition host s (.commit c) ((s.settle (s.workspace.commit c)).setTask c none)
  | abort {c : Nat} (task : s.task c = some .abort) :
      Transition host s (.abort c) ((s.settle (s.workspace.abort c)).setTask c none)
  | finalAbort {c : Nat} (dropped : s.connection c = .dropped) :
      Transition host s (.finalAbort c)
        ((s.settle (s.workspace.abort c)).setConnection c .aborted)
  | closed {pane session : String} {generation : Nat} {topology : NativeMuxState K}
      (free : s.workspace.reservation = none)
      (current : s.workspace.panes.lookup pane = some generation)
      (shown : sessionOf s.workspace pane = some session)
      (ok : s.workspace.topology.execute host (.closePane session (some pane)) = .ok topology) :
      Transition host s (.paneExited pane generation)
        { s with
          workspace :=
            { s.workspace with topology, panes := s.workspace.panes.filter (·.1 != pane) }.publish
          exited := generation :: s.exited }
  | failedClose {pane session error : String} {generation : Nat}
      (free : s.workspace.reservation = none)
      (current : s.workspace.panes.lookup pane = some generation)
      (shown : sessionOf s.workspace pane = some session)
      (failed : s.workspace.topology.execute host (.closePane session (some pane)) = .error error) :
      Transition host s (.paneExited pane generation)
        { s with workspace := { s.workspace with topology :=
            (s.workspace.topology.executeInPlace host (.closePane session (some pane))).2 } }

private theorem transition_source {e : Event K} {command : MuxCommand K}
    (htask : s.task c = some (.prepare command)) (answer : Option (Option String)) :
    Transition host s e (s.source c command answer) := by
  have hfree : Task.holds (s.task c) = false := by rw [htask]; rfl
  unfold source
  split
  · exact .quiet (.setTask s hfree rfl)
  · exact .quiet (.setTask s hfree rfl)
  · split <;> exact .quiet (.setTask s hfree rfl)

private theorem transition_reserve {command : MuxCommand K} {cwd : Option String} {revision : Nat}
    (htask : s.task c = some (.sourced command cwd revision)) :
    Transition host s (.reserve c) (s.reserve host c command cwd revision) := by
  have hfree : Task.holds (s.task c) = false := by rw [htask]; rfl
  unfold reserve
  split
  · exact .quiet (.setTask s hfree rfl)
  · next hnone =>
    split
    · exact .quiet (.setTask s hfree rfl)
    · next next hnext =>
      refine .reserve htask ?_ hnext
      cases hres : s.workspace.reservation with
      | none => rfl
      | some d => simp [hres] at hnone

private theorem transition_commit (htask : s.task c = some .commit) :
    Transition host s (.commit c) ((s.settle (s.workspace.commit c)).setTask c none) := by
  have hquiet : Quiet s (s.setTask c none) := by
    apply Quiet.setTask s _ rfl
    rw [htask]
    rfl
  cases hprepared : s.workspace.prepared with
  | none =>
    have hsame : s.workspace.commit c = (s.workspace, []) := by
      simp [Workspace.commit, hprepared]
    rw [hsame]
    exact .quiet hquiet
  | some p =>
    by_cases howned : s.workspace.reservation = some c
    · exact .commit htask hprepared howned
    · have hsame : s.workspace.commit c = (s.workspace, []) := by
        simp [Workspace.commit, hprepared, howned]
      rw [hsame]
      exact .quiet hquiet

private theorem transition_respawned {pane : String} {generation : Nat} {cwd : Option String}
    (htask : s.task c = some (.respawn pane generation cwd)) :
    Transition host s (.respawned c true) (s.respawned c pane generation cwd) := by
  have hquiet : Quiet s (s.setTask c none) := by
    apply Quiet.setTask s _ rfl
    rw [htask]
    rfl
  unfold respawned
  simp only
  split
  · next hcurrent =>
    split
    · exact .quiet hquiet.publish
    · split
      · next topology htopology => exact .record htask hcurrent htopology
      · exact .quiet hquiet
  · exact .quiet hquiet

private theorem transition_paneExited (hfree : s.workspace.reservation = none) (pane : String)
    (generation : Nat) :
    Transition host s (.paneExited pane generation) (s.paneExited host pane generation) := by
  unfold paneExited
  simp only
  split
  · next hcurrent =>
    split
    · exact .quiet (.refl s)
    · next session hsession =>
      cases hexec : s.workspace.topology.execute host (.closePane session (some pane)) with
      | ok topology =>
        simp only [NativeMuxState.executeInPlace, hexec]
        exact .closed hfree hcurrent hsession hexec
      | error error =>
        have hfailed : Transition host s (.paneExited pane generation) _ :=
          .failedClose hfree hcurrent hsession hexec
        simp only [NativeMuxState.executeInPlace, hexec] at hfailed ⊢
        cases hchanged : s.workspace.topology.executeTopology host (.closePane session (some pane)) with
        | ok changed =>
          simp only [hchanged] at hfailed ⊢
          exact hfailed
        | error _ =>
          simp only [hchanged] at hfailed ⊢
          exact hfailed
  · exact .quiet (.refl s)

/-- Every step is a transition. -/
theorem transition_of_step {s' : Server K} {e : Event K} (h : s.step host e = some s') :
    Transition host s e s' := by
  cases e with
  | connect c =>
    simp only [step, Option.ite_none_right_eq_some, Option.some.injEq] at h
    obtain ⟨-, rfl⟩ := h
    exact .quiet (.connect s c)
  | prepare c command =>
    simp only [step, Option.ite_none_right_eq_some, Option.some.injEq] at h
    obtain ⟨hidle, rfl⟩ := h
    exact .quiet (.start (Bool.and_eq_true_iff.mp hidle).1 rfl)
  | source c answer =>
    simp only [step] at h
    split at h
    · next command htask =>
      obtain rfl := Option.some.inj h
      exact transition_source htask answer
    · cases h
  | reserve c =>
    simp only [step] at h
    split at h
    · next command cwd revision htask =>
      obtain rfl := Option.some.inj h
      exact transition_reserve htask
    · cases h
  | launch c =>
    simp only [step] at h
    split at h
    · next t htask =>
      split at h
      · cases h
      · next id pending hpending =>
        obtain rfl := Option.some.inj h
        exact .launch htask hpending
    · cases h
  | launchFailed c =>
    simp only [step] at h
    split at h
    · next t htask =>
      split at h
      · cases h
      · obtain rfl := Option.some.inj h
        exact .dropStaged htask
    · cases h
  | install c =>
    simp only [step] at h
    split at h
    · next t htask =>
      split at h
      · next hpending =>
        obtain rfl := Option.some.inj h
        unfold install
        split
        · next howned => exact .install htask (List.isEmpty_iff.mp hpending) howned
        · exact .dropStaged htask
      · cases h
    · cases h
  | release c =>
    simp only [step] at h
    split at h
    · next htask =>
      obtain rfl := Option.some.inj h
      exact .release htask
    · cases h
  | requestCommit c =>
    simp only [step, Option.ite_none_right_eq_some, Option.some.injEq] at h
    obtain ⟨hidle, rfl⟩ := h
    exact .quiet (.start hidle rfl)
  | commit c =>
    simp only [step] at h
    split at h
    · next htask =>
      obtain rfl := Option.some.inj h
      exact transition_commit htask
    · cases h
  | requestAbort c =>
    simp only [step, Option.ite_none_right_eq_some, Option.some.injEq] at h
    obtain ⟨hidle, rfl⟩ := h
    exact .quiet (.start hidle rfl)
  | abort c =>
    simp only [step] at h
    split at h
    · next htask =>
      obtain rfl := Option.some.inj h
      exact .abort htask
    · cases h
  | setLayout c session window layout =>
    simp only [step] at h
    split at h
    · next hfree =>
      split at h
      · next topology htopology =>
        obtain rfl := Option.some.inj h
        exact .setLayout (by simpa using (Bool.and_eq_true_iff.mp hfree).2) htopology
      · obtain rfl := Option.some.inj h
        exact .quiet (.refl s)
    · cases h
  | respawn c pane cwd =>
    simp only [step] at h
    split at h
    · next hidle =>
      split at h
      · obtain rfl := Option.some.inj h
        exact .quiet (.start (Bool.and_eq_true_iff.mp hidle).1 rfl)
      · obtain rfl := Option.some.inj h
        exact .quiet (.refl s)
    · cases h
  | respawned c launched =>
    simp only [step] at h
    split at h
    · next pane generation cwd htask =>
      split at h
      · next hlaunched =>
        subst hlaunched
        obtain rfl := Option.some.inj h
        exact transition_respawned htask
      · obtain rfl := Option.some.inj h
        exact .quiet (.setTask s (by rw [htask]; rfl) rfl)
    · cases h
  | configure c =>
    simp only [step, Option.ite_none_right_eq_some, Option.some.injEq] at h
    obtain ⟨-, rfl⟩ := h
    exact .quiet (.refl s)
  | paneExited pane generation =>
    simp only [step, Option.ite_none_right_eq_some, Option.some.injEq] at h
    obtain ⟨hfree, rfl⟩ := h
    exact transition_paneExited (by simpa using hfree) pane generation
  | topologyChanged =>
    obtain rfl := Option.some.inj h
    exact .quiet (Quiet.refl s).publish
  | disconnect c =>
    simp only [step, Option.ite_none_right_eq_some, Option.some.injEq] at h
    obtain ⟨-, rfl⟩ := h
    exact .quiet (.disconnect s c)
  | finalAbort c =>
    simp only [step, Option.ite_none_right_eq_some, Option.some.injEq] at h
    obtain ⟨hdropped, rfl⟩ := h
    exact .finalAbort hdropped

end Server
end Bootty.Mux.Native
