import Bootty.Mux.Native.ServerSteps

/-!
# The reservation protocol

A reservation has one owner, and while it is held nothing but its owner's prepare, commit or
abort, and the end of a respawn, touches the topology or the pane table. `Protocol` carries
a relation between the workspace and the staged topology through a run; the results about
commits and about the pane table instantiate it.
-/

namespace Bootty.Mux.Native

open Bootty.Base

variable {K : Type}

/-- A prepared topology is a staging with nothing left to launch. -/
def Prepared.staging (p : Prepared K) : Staging K :=
  { command := p.command, cwd := p.cwd, next := p.next, pending := [], staged := p.added }

namespace Server

/-- The reservation has one owner, and its owner's staging stands in relation `R` to the
workspace. -/
structure Protocol (R : Workspace K → Staging K → Prop) (s : Server K) : Prop where
  unprepared : s.workspace.reservation = none → s.workspace.prepared = none
  owner : ∀ p, s.workspace.prepared = some p → s.workspace.reservation = some p.client
  staging : ∀ c t, s.task c = some (.staging t) → s.workspace.reservation = some c →
    s.workspace.prepared = none ∧ R s.workspace t
  releasing : ∀ c, s.task c = some .releasing → s.workspace.reservation = some c →
    s.workspace.prepared = none
  prepared : ∀ p, s.workspace.prepared = some p → R s.workspace p.staging

/-- What a relation needs to be carried from the reservation to the commit. -/
structure Carried [Scalar K] (host : Host) (R : Workspace K → Staging K → Prop) : Prop where
  congr : ∀ ws ws' t, ws'.topology = ws.topology → ws'.panes = ws.panes → R ws t → R ws' t
  reserve : ∀ ws command cwd next, ws.prepareTopology host command cwd = .ok next →
    R ws { command, cwd, next, pending := ws.unlaunched next, staged := [] }
  launch : ∀ ws t id pending generation, t.pending = id :: pending → R ws t →
    R ws { t with pending, staged := t.staged ++ [(id, generation)] }

variable {R : Workspace K → Staging K → Prop} {s : Server K}

/-- A new server keeps the protocol. -/
theorem protocol_new (generation : Nat) : Protocol R (new generation : Server K) := by
  constructor <;> simp [new, Workspace.new]

variable {s' : Server K}

namespace Protocol

/-- A change that keeps the reservation and what is prepared, and starts no holding task. -/
theorem frame (h : Protocol R s) (hr : s'.workspace.reservation = s.workspace.reservation)
    (hp : s'.workspace.prepared = s.workspace.prepared)
    (hR : ∀ c t, s.workspace.reservation = some c → R s.workspace t → R s'.workspace t)
    (ht : ∀ c, Task.holds (s'.task c) = true → s'.task c = s.task c) : Protocol R s' where
  unprepared := by
    rw [hr, hp]
    exact h.unprepared
  owner := by
    rw [hr, hp]
    exact h.owner
  staging := by
    intro c t hc hres
    rw [ht c (by rw [hc]; rfl)] at hc
    rw [hr] at hres
    obtain ⟨h1, h2⟩ := h.staging c t hc hres
    exact ⟨hp.trans h1, hR c t hres h2⟩
  releasing := by
    intro c hc hres
    rw [ht c (by rw [hc]; rfl)] at hc
    rw [hr] at hres
    exact hp.trans (h.releasing c hc hres)
  prepared := by
    intro p hprep
    rw [hp] at hprep
    exact hR p.client _ (h.owner p hprep) (h.prepared p hprep)

/-- A task that holds nothing may take any client's place. -/
theorem setTask (h : Protocol R s) (c : Nat) {x : Option (Task K)} (hx : Task.holds x = false) :
    Protocol R (s.setTask c x) := by
  refine h.frame rfl rfl (fun _ _ _ h ↦ h) fun d hd ↦ ?_
  rw [task_setTask] at hd ⊢
  split at hd
  · rw [hx] at hd
    cases hd
  · next hne => rw [if_neg hne]

/-- Giving the reservation up with nothing prepared. -/
theorem unreserved (hr : s'.workspace.reservation = none) (hp : s'.workspace.prepared = none) :
    Protocol R s' := by
  constructor <;> simp [hr, hp]

/-- A change of the topology that needs the reservation to be free. -/
theorem of_free (h : Protocol R s) (hfree : s.workspace.reservation = none)
    (hr : s'.workspace.reservation = s.workspace.reservation)
    (hp : s'.workspace.prepared = s.workspace.prepared) : Protocol R s' :=
  unreserved (hr.trans hfree) (hp.trans (h.unprepared hfree))

end Protocol

/-! ### Commit and abort -/

/-- What an abort does. -/
theorem abort_cases (ws : Workspace K) (c : Nat) :
    ws.abort c = (ws, []) ∧ ws.reservation ≠ some c ∨
      ws.abort c = ({ ws with reservation := none, prepared := none },
        ws.prepared.elim [] (·.added.generations)) ∧ ws.reservation = some c := by
  unfold Workspace.abort
  split
  · next h => exact .inr ⟨rfl, h⟩
  · next h => exact .inl ⟨rfl, h⟩

variable {c : Nat}

/-- What a commit of the owner does. -/
theorem commit_eq {ws : Workspace K} {p : Prepared K} (hp : ws.prepared = some p)
    (hres : ws.reservation = some c) :
    (ws.commit c).1.topology = p.next ∧ (ws.commit c).1.reservation = none ∧
      (ws.commit c).1.prepared = none ∧
      (ws.commit c).1.panes = PaneTable.extend
        (ws.panes.filter fun entry ↦ (snapshotPaneIds p.next.snapshot).contains entry.1) p.added ∧
      (ws.commit c).2 = PaneTable.generations
        (ws.panes.filter fun entry ↦ !(snapshotPaneIds p.next.snapshot).contains entry.1) := by
  simp [Workspace.commit, hp, hres]

private theorem protocol_abort (h : Protocol R s) (c : Nat) :
    Protocol R (s.settle (s.workspace.abort c)) := by
  rcases abort_cases s.workspace c with ⟨hws, -⟩ | ⟨hws, -⟩
  · rw [hws]
    exact h.frame rfl rfl (fun _ _ _ h ↦ h) fun _ _ ↦ rfl
  · rw [hws]
    exact .unreserved rfl rfl

/-! ### Steps -/

variable {t : Staging K}

/-- Replacing the staging of the owner by one that still stands in relation. -/
theorem protocol_restage (h : Protocol R s) {t' : Staging K} (ht : s.task c = some (.staging t))
    (hR : R s.workspace t → R s.workspace t') (generation : Nat) :
    Protocol R ({ s with nextGeneration := generation }.setTask c (some (.staging t'))) := by
  refine ⟨h.unprepared, h.owner, fun d u hd hres ↦ ?_, fun d hd hres ↦ ?_, h.prepared⟩
  · rw [task_setTask] at hd
    split at hd
    · next hdc =>
      subst hdc
      obtain rfl := Task.staging.inj (Option.some.inj hd)
      obtain ⟨h1, h2⟩ := h.staging d t ht hres
      exact ⟨h1, hR h2⟩
    · exact h.staging d u hd hres
  · rw [task_setTask] at hd
    split at hd
    · cases hd
    · exact h.releasing d hd hres

private theorem protocol_dropStaged (h : Protocol R s) (ht : s.task c = some (.staging t)) :
    Protocol R (s.dropStaged c t) := by
  refine ⟨h.unprepared, h.owner, fun d u hd hres ↦ ?_, fun d hd hres ↦ ?_, h.prepared⟩
  · rw [dropStaged, task_setTask] at hd
    split at hd
    · cases hd
    · exact h.staging d u hd hres
  · rw [dropStaged, task_setTask] at hd
    split at hd
    · next hdc =>
      subst hdc
      exact (h.staging d t ht hres).1
    · exact h.releasing d hd hres

private theorem protocol_release (h : Protocol R s) (ht : s.task c = some .releasing) :
    Protocol R ({ s with workspace := s.workspace.release c }.setTask c none) := by
  by_cases hres : s.workspace.reservation = some c
  · have hws : s.workspace.release c = { s.workspace with reservation := none } := if_pos hres
    exact .unreserved (by rw [setTask_workspace, hws])
      (by rw [setTask_workspace, hws]; exact h.releasing c ht hres)
  · have hws : s.workspace.release c = s.workspace := if_neg hres
    rw [hws]
    exact h.setTask c rfl

section Step

variable [Scalar K] {host : Host}

private theorem protocol_reserve (hR : Carried host R) (h : Protocol R s) {command : MuxCommand K}
    {cwd : Option String} {next : NativeMuxState K} (hfree : s.workspace.reservation = none)
    (hnext : s.workspace.prepareTopology host command cwd = .ok next) :
    Protocol R ({ s with workspace := { s.workspace with reservation := some c } }.setTask c
      (some (.staging { command, cwd, next, pending := s.workspace.unlaunched next
                        staged := [] }))) := by
  have hprep := h.unprepared hfree
  refine ⟨fun hnone ↦ by simp at hnone, fun p hp ↦ ?_, fun d t hd hres ↦ ?_,
    fun d hd hres ↦ hprep, fun p hp ↦ ?_⟩
  · simp [hprep] at hp
  · obtain rfl : c = d := by simpa using hres
    rw [task_setTask, if_pos rfl] at hd
    obtain rfl := Task.staging.inj (Option.some.inj hd)
    exact ⟨hprep, hR.congr s.workspace _ _ rfl rfl (hR.reserve s.workspace command cwd next hnext)⟩
  · simp [hprep] at hp

private theorem protocol_install (hR : Carried host R) (h : Protocol R s)
    (ht : s.task c = some (.staging t)) (hpending : t.pending = [])
    (hres : s.workspace.reservation = some c) :
    Protocol R ({ s with workspace := { s.workspace with
      prepared := some ⟨c, t.command, t.cwd, t.next, t.staged⟩ } }.setTask c none) := by
  have hstaged : { t with pending := [] } = t := by rw [← hpending]
  have hholds : ∀ d, (s.setTask c none).task d = some .releasing ∨
      (∃ u, (s.setTask c none).task d = some (.staging u)) → d ≠ c := by
    rintro d hd rfl
    simp [task_setTask] at hd
  refine ⟨fun hnone ↦ ?_, fun p hp ↦ ?_, fun d u hd hd' ↦ ?_, fun d hd hd' ↦ ?_, fun p hp ↦ ?_⟩
  · simp [hres] at hnone
  · obtain rfl := Option.some.inj hp
    exact hres
  · exact absurd (Option.some.inj (hd'.symm.trans hres)) (hholds d (.inr ⟨u, hd⟩))
  · exact absurd (Option.some.inj (hd'.symm.trans hres)) (hholds d (.inl hd))
  · obtain rfl := Option.some.inj hp
    refine hR.congr s.workspace _ _ rfl rfl ?_
    change R s.workspace { t with pending := [] }
    rw [hstaged]
    exact (h.staging c t ht hres).2

/-- Every step keeps the protocol, provided a directory recorded by a respawn keeps the
relation. -/
theorem Protocol.step (hR : Carried host R) (h : Protocol R s) {e : Event K}
    (hstep : s.step host e = some s')
    (hrecord : ∀ c pane generation cwd topology, e = .respawned c true →
      s.task c = some (.respawn pane generation (some cwd)) →
      s.workspace.panes.lookup pane = some generation →
      s.workspace.topology.setPaneCwd pane cwd = .ok topology →
      ∀ d t, s.workspace.reservation = some d → R s.workspace t →
        R { s.workspace with topology } t) : Protocol R s' := by
  cases transition_of_step hstep with
  | quiet same =>
    refine h.frame same.reservation same.prepared ?_ fun c hc ↦ same.task c (.inr hc)
    intro _ t _ ht
    exact hR.congr _ _ t same.topology same.panes ht
  | setLayout free ok => exact h.of_free free (by simp) (by simp)
  | @record c pane cwd generation topology task current ok =>
    refine (h.setTask c rfl).frame (by simp) (by simp) ?_ fun _ _ ↦ rfl
    intro d t hres ht
    have hkept := hrecord c pane generation cwd topology rfl task current ok d t hres ht
    exact hR.congr _ _ t (by simp) (by simp) hkept
  | reserve task free ok => exact protocol_reserve hR h free ok
  | launch task more => exact protocol_restage h task (hR.launch _ _ _ _ _ more) _
  | dropStaged task => exact protocol_dropStaged h task
  | install task launched owned => exact protocol_install hR h task launched owned
  | release task => exact protocol_release h task
  | commit task prepared owned =>
    obtain ⟨-, hres, hprep, -⟩ := commit_eq prepared owned
    exact .unreserved hres hprep
  | @abort c task => exact (protocol_abort h c).setTask c rfl
  | @finalAbort c dropped =>
    exact (protocol_abort h c).frame rfl rfl (fun _ _ _ h ↦ h) fun _ _ ↦ rfl
  | closed free current shown ok => exact h.of_free free (by simp) (by simp)
  | failedClose free current shown failed => exact h.of_free free rfl rfl

end Step
end Server
end Bootty.Mux.Native
