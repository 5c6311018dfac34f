import Bootty.Mux.Native.ServerReservation

/-!
# Topology transactions

Two results about the prepare and commit protocol of `server.rs:283–448`. A commit installs
what its command makes of the topology in force, as long as no respawn writes a directory
under a reservation. A client that is gone holds no reservation, as long as none of its
prepares installs after its final abort.
-/

namespace Bootty.Mux.Native

open Bootty.Base

namespace Server

variable {K : Type}

/-! ### Commits -/

/-- The client's respawn has relaunched its pane and will write a directory that the topology
does not have. -/
def RecordsDirectory (s : Server K) (client : Nat) : Prop :=
  ∃ pane generation cwd, s.task client = some (.respawn pane generation (some cwd)) ∧
    s.workspace.panes.lookup pane = some generation ∧
    s.workspace.topology.setCwdOf pane cwd ≠ s.workspace.topology

/-- No respawn writes a directory while the workspace is reserved. -/
def NoLateRespawn (s : Server K) : Event K → Prop
  | .respawned c true => s.workspace.reservation = none ∨ ¬ s.RecordsDirectory c
  | _ => True

variable [Scalar K] {host : Host}

/-- In every state of the runs from `init`, a commit that installs a prepared topology
installs what its command makes of the topology in force. -/
def SerializableCommits (host : Host) (allowed : Server K → Event K → Prop)
    (init : Server K) : Prop :=
  ∀ s, Reaches (step host) allowed init s → ∀ c s', s.step host (.commit c) = some s' →
    ∀ p, s.workspace.prepared = some p → s.workspace.reservation = some c →
      s.workspace.prepareTopology host p.command p.cwd = .ok s'.workspace.topology

/-- The staged topology is what its command makes of the workspace. -/
private def Current (host : Host) (ws : Workspace K) (t : Staging K) : Prop :=
  ws.prepareTopology host t.command t.cwd = .ok t.next

variable {ws : Workspace K}

private theorem prepareTopology_congr {ws' : Workspace K} (htop : ws'.topology = ws.topology)
    (hpanes : ws'.panes = ws.panes) (command : MuxCommand K) (cwd : Option String) :
    ws'.prepareTopology host command cwd = ws.prepareTopology host command cwd := by
  unfold Workspace.prepareTopology
  rw [htop, hpanes]

private theorem current_carried : Carried host (Current (K := K) host) where
  congr := by
    intro ws ws' t htop hpanes h
    unfold Current
    rw [prepareTopology_congr htop hpanes]
    exact h
  reserve := by
    intro ws command cwd next h
    exact h
  launch := by
    intro ws t id pending generation _ h
    exact h

variable {s s' : Server K}

private theorem current_step {e : Event K} (h : Protocol (Current host) s) (hok : s.NoLateRespawn e)
    (hstep : s.step host e = some s') : Protocol (Current host) s' := by
  apply h.step current_carried hstep
  rintro c pane generation cwd topology rfl htask hcurrent htopology d t hres ht
  simp only [NativeMuxState.setPaneCwd, bind_eq_ok, pure_eq_ok] at htopology
  obtain ⟨-, -, rfl⟩ := htopology
  rcases hok with hnone | hquiet
  · rw [hnone] at hres
    cases hres
  · have hsame : s.workspace.topology.setCwdOf pane cwd = s.workspace.topology := by
      by_contra hne
      exact hquiet ⟨pane, generation, cwd, htask, hcurrent, hne⟩
    exact current_carried.congr _ _ t hsame rfl ht

/-- Topology commits are serializable in every run in which no respawn records a directory
under a reservation. -/
theorem serializable_commits (host : Host) (generation : Nat) :
    SerializableCommits host NoLateRespawn (new generation : Server K) := by
  intro s hs c s' hstep p hp hres
  have hprotocol : Protocol (Current host) s :=
    hs.invariant (protocol_new generation) fun _ _ _ h hok hnext ↦ current_step h hok hnext
  simp only [step] at hstep
  split at hstep
  · obtain rfl := Option.some.inj hstep
    rw [setTask_workspace, settle, (commit_eq hp hres).1]
    exact hprotocol.prepared p hp
  · cases hstep

/-- Client 1 creates a session `work` with one pane, up to the commit. -/
private def preparing : List (Event ℚ) :=
  [.connect 1, .prepare 1 (.createProjectSession "work" "/src" {} none), .source 1 none,
    .reserve 1, .launch 1, .install 1, .requestCommit 1]

private def notRespawned (_ : Server K) : Event K → Bool
  | .respawned _ _ => false
  | _ => true

omit [Scalar K] in
private theorem noLateRespawn_of_test (s : Server K) (e : Event K)
    (h : s.notRespawned e = true) : s.NoLateRespawn e := by
  cases e with
  | respawned c launched => cases h
  | _ => trivial

private def commitsTopology (s : Server K) : Bool :=
  (s.step Host.plain (.commit 1)).isSome && s.workspace.prepared.isSome &&
    s.workspace.reservation == some 1

/-- The first commit of a server installs what its command makes of the empty topology. -/
theorem serializable_commits_create : ∃ s s' p,
    Reaches (step Host.plain) NoLateRespawn (new 7 : Server ℚ) s ∧
    s.step Host.plain (.commit 1) = some s' ∧ s.workspace.prepared = some p ∧
    s.workspace.prepareTopology Host.plain p.command p.cwd = .ok s'.workspace.topology := by
  obtain ⟨s, hs, hgoal⟩ := exists_reaches_of_runEvents noLateRespawn_of_test
    (show (runEvents (step Host.plain) notRespawned (new 7) preparing).map commitsTopology =
      some true by decide +kernel)
  simp only [commitsTopology, Bool.and_eq_true, beq_iff_eq, Option.isSome_iff_exists] at hgoal
  obtain ⟨⟨⟨s', hstep⟩, p, hp⟩, hres⟩ := hgoal
  exact ⟨s, s', p, hs, hstep, hp, serializable_commits Host.plain 7 s hs 1 s' hstep p hp hres⟩

/-- The directories of the panes of a topology. -/
private def directories (st : NativeMuxState K) : List String :=
  st.sessions.flatMap fun session ↦ session.windows.flatMap fun window ↦ window.panes.map (·.cwd)

/-- Client 1 is about to install a topology with other directories than its command gives. -/
private def losesDirectory (s : Server K) : Bool :=
  match s.step Host.plain (.commit 1), s.workspace.prepared with
  | some s', some p =>
    match s.workspace.prepareTopology Host.plain p.command p.cwd with
    | .ok next => s.workspace.reservation = some 1 ∧ directories next ≠ directories s'.workspace.topology
    | .error _ => false
  | _, _ => false

-- Client 2 starts a respawn of the pane with a new directory; client 1 reserves a rename while
-- the worker relaunches; the respawn then records the directory and the commit takes it away.
private def lateRespawn : List (Event ℚ) :=
  preparing ++ [.commit 1, .connect 2, .respawn 2 "pane-0000000000000007-1" (some "/new"),
    .prepare 1 (.renameSession "work" "play"), .source 1 none, .reserve 1, .install 1,
    .respawned 2 true, .requestCommit 1]

/-- A respawn that ends under a reservation has its directory undone by the commit. -/
theorem not_serializable_commits :
    ¬ SerializableCommits Host.plain anyStep (new 7 : Server ℚ) := by
  intro h
  obtain ⟨s, hs, hloses⟩ := exists_reaches_anyStep
    (show (runEvents (step Host.plain) anyTest (new 7) lateRespawn).map losesDirectory = some true by
      decide +kernel)
  unfold losesDirectory at hloses
  split at hloses
  · next s' p hstep hp =>
    split at hloses
    · next next hnext =>
      obtain ⟨hres, hne⟩ := of_decide_eq_true hloses
      have heq := h s hs 1 s' hstep p hp hres
      rw [hnext] at heq
      exact hne (congrArg directories (Except.ok.inj heq))
    · cases hloses
  · cases hloses

/-! ### Reservations of clients that are gone -/

/-- Once a client's final abort and its tasks are over, the reservation is not the client's
and nothing of the client is prepared. -/
def NoOrphan (s : Server K) : Prop :=
  ∀ c, s.connection c = .aborted → s.task c = none →
    s.workspace.reservation ≠ some c ∧ ∀ p, s.workspace.prepared = some p → p.client ≠ c

/-- No prepare installs under its own reservation after its client's final abort. -/
def NoLateInstall (s : Server K) : Event K → Prop
  | .install c => s.connection c = .aborted → s.workspace.reservation ≠ some c
  | _ => True

/-- A reservation of a client whose final abort has run is still in the hands of its task. -/
private def Held (s : Server K) : Prop :=
  ∀ c, s.connection c = .aborted → s.workspace.reservation = some c → Task.holds (s.task c) = true

omit [Scalar K] in
private theorem Held.frame (h : s.Held)
    (hkeep : ∀ c, s'.connection c = .aborted → s'.workspace.reservation = some c →
      Task.holds (s'.task c) = true ∨ s.connection c = .aborted ∧
        s.workspace.reservation = some c ∧ s'.task c = s.task c) : s'.Held := by
  intro c hc hres
  rcases hkeep c hc hres with hholds | ⟨hc, hres, htask⟩
  · exact hholds
  · rw [htask]
    exact h c hc hres

variable {c : Nat}

omit [Scalar K] in
private theorem Held.hold (h : s.Held) {x : Task K} (hx : Task.holds (some x) = true)
    (htask : s'.task = (s.setTask c (some x)).task) (hconn : s'.connection = s.connection)
    (hres : ∀ d, d ≠ c → s'.workspace.reservation = some d → s.workspace.reservation = some d) :
    s'.Held := by
  apply h.frame
  intro d hd hd'
  rw [htask, task_setTask]
  by_cases hdc : d = c
  · rw [if_pos hdc]
    exact .inl hx
  · rw [hconn] at hd
    rw [if_neg hdc]
    exact .inr ⟨hd, hres d hdc hd', rfl⟩

omit [Scalar K] in
private theorem abort_reservation {d : Nat} (h : (ws.abort c).1.reservation = some d) :
    ws.reservation = some d ∧ d ≠ c := by
  rcases abort_cases ws c with ⟨hws, hne⟩ | ⟨hws, -⟩
  · rw [hws] at h
    refine ⟨h, ?_⟩
    rintro rfl
    exact hne h
  · rw [hws] at h
    cases h

omit [Scalar K] in
private theorem release_reservation {d : Nat} (h : (ws.release c).reservation = some d) :
    ws.reservation = some d ∧ d ≠ c := by
  unfold Workspace.release at h
  split at h
  · cases h
  · next hne =>
    refine ⟨h, ?_⟩
    rintro rfl
    exact hne h

private theorem held_step {e : Event K} (h : s.Held) (hok : s.NoLateInstall e)
    (hstep : s.step host e = some s') : s'.Held := by
  cases transition_of_step hstep with
  | quiet same =>
    intro c hc hres
    rw [same.reservation] at hres
    have hholds := h c (same.aborted c hc) hres
    rw [same.task c (.inl hholds)]
    exact hholds
  | setLayout free ok =>
    apply h.frame
    intro c _ hres
    rw [publish_reservation, free] at hres
    cases hres
  | @record c pane cwd generation topology task current ok =>
    intro d hd hres
    rw [publish_reservation] at hres
    have hholds := h d hd hres
    change Task.holds ((s.setTask c none).task d) = true
    rw [task_setTask, if_neg]
    · exact hholds
    · rintro rfl
      rw [task] at hholds
      cases hholds
  | @reserve c command cwd revision next task free ok =>
    refine h.hold (c := c) rfl rfl rfl ?_
    intro d hne hd
    exact absurd (Option.some.inj hd).symm hne
  | launch task more => exact h.hold rfl rfl rfl fun _ _ hd ↦ hd
  | dropStaged task => exact h.hold rfl rfl rfl fun _ _ hd ↦ hd
  | @install c t task launched owned =>
    -- Here the reservation loses its task, so its owner must not be gone.
    intro d hd hres
    obtain rfl : c = d := Option.some.inj (owned.symm.trans hres)
    exact absurd owned (hok hd)
  | @release c task =>
    apply h.frame
    intro d hd hres
    obtain ⟨hres, hne⟩ := release_reservation hres
    rw [task_setTask, if_neg hne]
    exact .inr ⟨hd, hres, rfl⟩
  | @commit c p task prepared owned =>
    intro d _ hres
    rw [setTask_workspace, settle, (commit_eq prepared owned).2.1] at hres
    cases hres
  | @abort c task =>
    apply h.frame
    intro d hd hres
    obtain ⟨hres, hne⟩ := abort_reservation hres
    rw [task_setTask, if_neg hne]
    exact .inr ⟨hd, hres, rfl⟩
  | @finalAbort c dropped =>
    apply h.frame
    intro d hd hres
    obtain ⟨hres, hne⟩ := abort_reservation hres
    rw [connection_setConnection, if_neg hne] at hd
    exact .inr ⟨hd, hres, rfl⟩
  | closed free current shown ok =>
    intro c _ hres
    rw [publish_reservation, free] at hres
    cases hres
  | failedClose free current shown failed =>
    intro c _ hres
    rw [free] at hres
    cases hres

/-- Every run in which no prepare installs after its client's final abort leaves no orphaned
reservation, and an install that does so leaves one at once. -/
theorem no_orphaned_reservation (host : Host) (generation : Nat) (s : Server K)
    (hs : Reaches (step host) NoLateInstall (new generation) s) :
    s.NoOrphan ∧ ∀ c s', s.step host (.install c) = some s' → ¬ s.NoLateInstall (.install c) →
      ¬ s'.NoOrphan := by
  have hheld : s.Held := by
    apply hs.invariant (I := Held)
    · intro c hc
      cases hc
    · intro s e s' h hok hnext
      exact held_step h hok hnext
  have hprotocol : Protocol (fun _ _ ↦ True) s := by
    apply hs.invariant (protocol_new generation)
    intro s e s' h hok hnext
    exact h.step ⟨fun _ _ _ _ _ _ ↦ trivial, fun _ _ _ _ _ ↦ trivial,
      fun _ _ _ _ _ _ _ ↦ trivial⟩ hnext fun _ _ _ _ _ _ _ _ _ _ _ _ _ ↦ trivial
  constructor
  · intro c hc htask
    have hres : s.workspace.reservation ≠ some c := by
      intro hres
      have hholds := hheld c hc hres
      rw [htask] at hholds
      cases hholds
    refine ⟨hres, ?_⟩
    rintro p hp rfl
    exact hres (hprotocol.owner p hp)
  · intro c s' hstep hlate horphan
    simp only [NoLateInstall, Classical.not_imp, not_not] at hlate
    obtain ⟨hc, hres⟩ := hlate
    simp only [step] at hstep
    split at hstep
    · split at hstep
      · obtain rfl := Option.some.inj hstep
        rw [install, if_pos hres] at horphan
        exact (horphan c hc (by simp [task_setTask])).1 hres
      · cases hstep
    · cases hstep

private def beforeDisconnect (s : Server K) : Event K → Bool
  | .install c => s.connection c = .serving
  | _ => true

omit [Scalar K] in
private theorem noLateInstall_of_test (s : Server K) (e : Event K)
    (h : s.beforeDisconnect e = true) : s.NoLateInstall e := by
  cases e with
  | install c =>
    intro haborted
    rw [of_decide_eq_true h] at haborted
    cases haborted
  | _ => trivial

private def gone (s : Server K) : Bool := s.connection 1 = .aborted ∧ (s.task 1).isNone

/-- A client that disconnects during its commit leaves nothing reserved. -/
theorem no_orphaned_reservation_disconnect : ∃ s,
    Reaches (step Host.plain) NoLateInstall (new 7 : Server ℚ) s ∧ s.connection 1 = .aborted ∧
      s.workspace.reservation ≠ some 1 := by
  obtain ⟨s, hs, hgoal⟩ := exists_reaches_of_runEvents noLateInstall_of_test
    (show (runEvents (step Host.plain) beforeDisconnect (new 7)
      (preparing ++ [.disconnect 1, .commit 1, .finalAbort 1])).map gone = some true by
        decide +kernel)
  obtain ⟨hc, htask⟩ := of_decide_eq_true hgoal
  have hnone := Option.isNone_iff_eq_none.mp htask
  exact ⟨s, hs, hc, ((no_orphaned_reservation Host.plain 7 s hs).1 1 hc hnone).1⟩

/-- The client is gone and the reservation is its own. -/
private def orphaned (s : Server K) : Bool :=
  s.connection 1 = .aborted ∧ (s.task 1).isNone ∧ s.workspace.reservation = some 1

-- Client 1 splits a pane and disconnects while its prepare waits for the pane's worker; the
-- final abort finds no reservation, and the prepare then takes one.
private def lateReserve : List (Event ℚ) :=
  preparing ++ [.commit 1, .prepare 1 (.splitPane "work" none .right), .source 1 (some none), .disconnect 1,
    .finalAbort 1, .reserve 1, .launch 1, .install 1]

/-- A prepare that outlives its client's final abort keeps the workspace reserved. -/
theorem not_no_orphaned_reservation :
    ¬ ∀ s, Reaches (step Host.plain) anyStep (new 7 : Server ℚ) s → s.NoOrphan := by
  intro h
  obtain ⟨s, hs, horphaned⟩ := exists_reaches_anyStep
    (show (runEvents (step Host.plain) anyTest (new 7) lateReserve).map orphaned = some true by
      decide +kernel)
  obtain ⟨hc, htask, hres⟩ := of_decide_eq_true horphaned
  exact (h s hs 1 hc (Option.isNone_iff_eq_none.mp htask)).1 hres

end Server
end Bootty.Mux.Native
