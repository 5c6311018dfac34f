import Bootty.Mux.Native.Publication

/-!
# The client's latest topology

Model of `Client::publish` (`crates/bootty-mux/src/native/backend.rs:657–680`), of the end of
`NativeBackend::connect` (`backend.rs:365–378`) and of the watcher's failure
(`backend.rs:540–548`), split at their atomic steps. The generation is an atomic and the
latest snapshot is under a lock of its own. Any number of threads connect and publish.
-/

namespace Bootty.Mux

/-! ### Equality of snapshots -/

section PartialEq

variable {K : Type} [BEq K]

mutual

/-- The derived `PartialEq`. -/
def MuxPaneLayout.beq : MuxPaneLayout K → MuxPaneLayout K → Bool
  | .pane id, .pane id' => id == id'
  | .split direction weights children, .split direction' weights' children' =>
    direction == direction' && weights == weights' && MuxPaneLayout.beqList children children'
  | _, _ => false

/-- Layouts that are equal one by one. -/
def MuxPaneLayout.beqList : List (MuxPaneLayout K) → List (MuxPaneLayout K) → Bool
  | [], [] => true
  | layout :: rest, layout' :: rest' => layout.beq layout' && MuxPaneLayout.beqList rest rest'
  | _, _ => false

end

/-- The derived `==`. -/
instance : BEq (MuxPaneLayout K) := ⟨MuxPaneLayout.beq⟩

deriving instance BEq for MuxWindow

deriving instance BEq for MuxSession

deriving instance BEq for MuxSnapshot

end PartialEq

namespace Native

open Bootty.Base

variable {K : Type}

/-- Where a `connect` stands after its handshake. -/
inductive Connect where
  | idle
  | resetting
  | connecting
  deriving DecidableEq, Repr

/-- The shared client, the threads inside `connect` and `publish`, and the snapshots published
since the watcher last failed. -/
structure Client (K : Type) where
  generation : Nat
  latest : Option (Except String (TopologySnapshot K))
  connected : Bool
  connect : Nat → Connect
  publishing : Nat → Option (TopologySnapshot K)
  failing : Bool
  published : List (TopologySnapshot K)

namespace Client

/-- What the threads of the client and the server do. -/
inductive Event (K : Type) where
  | swap (thread generation : Nat)
  | reset (thread : Nat)
  | connected (thread : Nat)
  | check (thread : Nat) (snapshot : TopologySnapshot K)
  | update (thread : Nat)
  | fail (error : String)
  | disconnected

/-- A client that is not connected. -/
def new : Client K := ⟨0, none, false, fun _ ↦ .idle, fun _ ↦ none, false, []⟩

/-- `backend.rs:665–672`: the snapshot replaces what is shown. -/
def changes [BEq K] (latest : Option (Except String (TopologySnapshot K)))
    (snapshot : TopologySnapshot K) : Bool :=
  match latest with
  | none | some (.error _) => true
  | some (.ok current) =>
    decide (current.revision ≤ snapshot.revision) &&
      (current.revision != snapshot.revision || current.snapshot != snapshot.snapshot)

/-- One thread gets into another phase. -/
def setConnect (c : Client K) (thread : Nat) (phase : Connect) : Client K :=
  { c with connect := Function.update c.connect thread phase }

variable [BEq K]

/-- One atomic step of a thread; `none` when the thread is elsewhere. -/
def step (c : Client K) : Event K → Option (Client K)
  | .swap thread generation =>
    if c.connect thread = .idle then
      let phase := if c.generation = generation then .connecting else .resetting
      some ({ c with generation }.setConnect thread phase)
    else none
  | .reset thread =>
    if c.connect thread = .resetting then
      some ({ c with latest := none }.setConnect thread .connecting)
    else none
  | .connected thread =>
    if c.connect thread = .connecting then
      some ({ c with connected := true }.setConnect thread .idle)
    else none
  | .check thread snapshot =>
    match c.publishing thread with
    | some _ => none
    | none =>
      if snapshot.generation = c.generation then
        some { c with publishing := Function.update c.publishing thread (some snapshot) }
      else some c
  | .update thread =>
    match c.publishing thread with
    | none => none
    | some snapshot =>
      some { c with
        latest := if changes c.latest snapshot then some (.ok snapshot) else c.latest
        publishing := Function.update c.publishing thread none
        published := snapshot :: c.published }
  | .fail error =>
    if c.failing then none
    else some { c with latest := some (.error error), failing := true, published := [] }
  | .disconnected => if c.failing then some { c with connected := false, failing := false } else none

/-- No step is in progress. -/
def Quiescent (c : Client K) : Prop :=
  (∀ thread, c.connect thread = .idle) ∧ (∀ thread, c.publishing thread = none) ∧ c.failing = false

/-- What is shown is of the current generation, and no older than what has been published. -/
structure ShowsCurrent (c : Client K) : Prop where
  generation : ∀ shown, c.latest = some (.ok shown) → shown.generation = c.generation
  revision : ∀ snapshot ∈ c.published, snapshot.generation = c.generation →
    ∃ shown, c.latest = some (.ok shown) ∧ snapshot.revision ≤ shown.revision

/-- A checked snapshot is stored while its generation is still current and no thread is about
to drop it, and a changed generation is one of which nothing has been published. -/
def InTurn (c : Client K) : Event K → Prop
  | .update thread => ∀ snapshot, c.publishing thread = some snapshot →
    snapshot.generation = c.generation ∧ ∀ other, c.connect other ≠ .resetting
  | .swap _ generation => generation ≠ c.generation →
    ∀ snapshot ∈ c.published, snapshot.generation ≠ generation
  | _ => True

/-! ### The invariant -/

/-- Some thread is about to drop what is shown. -/
private def Resetting (c : Client K) : Prop := ∃ thread, c.connect thread = .resetting

private structure Kept (c : Client K) : Prop where
  generation : ∀ shown, c.latest = some (.ok shown) →
    shown.generation = c.generation ∨ c.Resetting
  revision : ∀ snapshot ∈ c.published, snapshot.generation = c.generation →
    ∃ shown, c.latest = some (.ok shown) ∧ snapshot.revision ≤ shown.revision
  dropping : c.Resetting → ∀ snapshot ∈ c.published, snapshot.generation ≠ c.generation

omit [BEq K]

variable {c : Client K}

private theorem kept_of_nothing (hlatest : ∀ shown, c.latest ≠ some (.ok shown))
    (hpublished : c.published = []) : c.Kept := by
  constructor
  · intro shown h
    exact absurd h (hlatest shown)
  · intro snapshot h
    simp [hpublished] at h
  · intro _ snapshot h
    simp [hpublished] at h

private theorem connect_setConnect (c : Client K) (thread other : Nat) (phase : Connect) :
    (c.setConnect thread phase).connect other =
      if other = thread then phase else c.connect other := by
  simp [setConnect, Function.update_apply]

variable {thread : Nat}

private theorem resetting_of_setConnect {phase : Connect} (hphase : phase ≠ .resetting)
    (h : (c.setConnect thread phase).Resetting) : c.Resetting := by
  obtain ⟨other, hother⟩ := h
  rw [connect_setConnect] at hother
  split at hother
  · exact absurd hother hphase
  · exact ⟨other, hother⟩

private theorem resetting_setConnect (hthread : c.connect thread ≠ .resetting) (phase : Connect)
    (h : c.Resetting) :
    (c.setConnect thread phase).Resetting := by
  obtain ⟨other, hother⟩ := h
  refine ⟨other, ?_⟩
  have hne : other ≠ thread := by
    rintro rfl
    exact hthread hother
  rw [connect_setConnect, if_neg hne]
  exact hother

private theorem kept_setConnect (h : c.Kept) {phase : Connect}
    (hthread : c.connect thread ≠ .resetting) (hphase : phase ≠ .resetting) :
    (c.setConnect thread phase).Kept where
  generation shown hshown :=
    (h.generation shown hshown).imp_right (resetting_setConnect hthread phase)
  revision := h.revision
  dropping hresetting := h.dropping (resetting_of_setConnect hphase hresetting)

private theorem kept_swap {generation : Nat}
    (hfresh : ∀ snapshot ∈ c.published, snapshot.generation ≠ generation) :
    ({ c with generation }.setConnect thread .resetting).Kept where
  generation _ _ := by
    refine .inr ⟨thread, ?_⟩
    rw [connect_setConnect, if_pos rfl]
  revision snapshot hmem heq := absurd heq (hfresh snapshot hmem)
  dropping _ := hfresh

private theorem kept_reset (h : c.Kept) (hthread : c.connect thread = .resetting) :
    ({ c with latest := none }.setConnect thread .connecting).Kept where
  generation _ hshown := by cases hshown
  revision snapshot hmem heq := absurd heq (h.dropping ⟨thread, hthread⟩ snapshot hmem)
  dropping _ := h.dropping ⟨thread, hthread⟩

private theorem le_updated [BEq K] (latest : Option (Except String (TopologySnapshot K)))
    (snapshot : TopologySnapshot K) :
    ∃ shown, (if changes latest snapshot then some (.ok snapshot) else latest) = some (.ok shown) ∧
      snapshot.revision ≤ shown.revision ∧
      (∀ current, latest = some (.ok current) → current.revision ≤ shown.revision) ∧
      (shown = snapshot ∨ latest = some (.ok shown)) := by
  by_cases hchanges : changes latest snapshot = true
  · refine ⟨snapshot, if_pos hchanges, le_rfl, ?_, .inl rfl⟩
    rintro current rfl
    exact of_decide_eq_true (Bool.and_eq_true_iff.mp hchanges).1
  · match latest, hchanges with
    | none, hchanges => exact absurd rfl hchanges
    | some (.error _), hchanges => exact absurd rfl hchanges
    | some (.ok current), hchanges =>
      refine ⟨current, if_neg hchanges, ?_, ?_, .inr rfl⟩
      · by_contra hlt
        apply hchanges
        simp only [changes, Bool.and_eq_true, decide_eq_true_eq, Bool.or_eq_true, bne_iff_ne]
        exact ⟨by omega, .inl (by omega)⟩
      · rintro other hother
        obtain rfl : current = other := by simpa using hother
        exact le_rfl

private theorem kept_update [BEq K] (h : c.Kept) {snapshot : TopologySnapshot K}
    (hcurrent : snapshot.generation = c.generation) (hsteady : ¬ c.Resetting) :
    { c with
      latest := if changes c.latest snapshot then some (.ok snapshot) else c.latest
      publishing := Function.update c.publishing thread none
      published := snapshot :: c.published }.Kept := by
  obtain ⟨shown, hlatest, hle, hmono, hsource⟩ := le_updated c.latest snapshot
  refine ⟨?_, ?_, fun hresetting ↦ absurd hresetting hsteady⟩
  · intro other hother
    obtain rfl : shown = other := by simpa [hlatest] using hother
    obtain rfl | hold := hsource
    · exact .inl hcurrent
    · exact h.generation shown hold
  · intro other hmem hother
    refine ⟨shown, hlatest, ?_⟩
    obtain rfl | hmem := List.mem_cons.mp hmem
    · exact hle
    · obtain ⟨current, hold, hold_le⟩ := h.revision other hmem hother
      exact hold_le.trans (hmono current hold)

variable {e : Event K}

private theorem kept_step [BEq K] {c' : Client K} (h : c.Kept) (hok : c.InTurn e)
    (hstep : c.step e = some c') : c'.Kept := by
  cases e with
  | swap thread generation =>
    obtain ⟨hidle, ⟨⟩⟩ := Option.ite_none_right_eq_some.mp hstep
    by_cases hsame : c.generation = generation
    · subst hsame
      rw [if_pos rfl]
      apply kept_setConnect h
      · simp [hidle]
      · decide
    · rw [if_neg hsame]
      exact kept_swap (hok (Ne.symm hsame))
  | reset thread =>
    obtain ⟨hresetting, ⟨⟩⟩ := Option.ite_none_right_eq_some.mp hstep
    exact kept_reset h hresetting
  | connected thread =>
    obtain ⟨hconnecting, ⟨⟩⟩ := Option.ite_none_right_eq_some.mp hstep
    apply kept_setConnect
    · exact ⟨h.generation, h.revision, h.dropping⟩
    · simp [hconnecting]
    · decide
  | check thread snapshot =>
    simp only [step] at hstep
    split at hstep
    · cases hstep
    · split at hstep
      · obtain rfl := Option.some.inj hstep
        exact ⟨h.generation, h.revision, h.dropping⟩
      · obtain rfl := Option.some.inj hstep
        exact h
  | update thread =>
    simp only [step] at hstep
    split at hstep
    · cases hstep
    · next snapshot hpublishing =>
      obtain rfl := Option.some.inj hstep
      obtain ⟨hcurrent, hsteady⟩ := hok snapshot hpublishing
      exact kept_update h hcurrent fun ⟨other, hother⟩ ↦ hsteady other hother
  | fail error =>
    simp only [step] at hstep
    split at hstep
    · cases hstep
    · obtain rfl := Option.some.inj hstep
      exact kept_of_nothing (by simp) rfl
  | disconnected =>
    obtain ⟨-, ⟨⟩⟩ := Option.ite_none_right_eq_some.mp hstep
    exact ⟨h.generation, h.revision, h.dropping⟩

/-- In every run whose updates and changes of generation are in turn, a client at rest shows
the current server's topology, and none older than what has been published of it. -/
theorem shows_current_server [BEq K] (c : Client K) (hc : Reaches step InTurn new c)
    (hquiet : c.Quiescent) : c.ShowsCurrent := by
  have hnew : (new : Client K).Kept := kept_of_nothing (by simp [new]) rfl
  have hkept : c.Kept := hc.invariant hnew fun _ _ _ h hok hstep ↦ kept_step h hok hstep
  have hsteady : ¬ c.Resetting := by
    rintro ⟨thread, hthread⟩
    rw [hquiet.1 thread] at hthread
    cases hthread
  constructor
  · intro shown hshown
    exact (hkept.generation shown hshown).resolve_right hsteady
  · exact hkept.revision

/-! ### Runs of three threads -/

/-- The event is of one of the first three threads, or of the watcher. -/
private def Event.small : Event K → Bool
  | .swap thread _ | .reset thread | .connected thread | .check thread _ | .update thread =>
    decide (thread < 3)
  | _ => true

/-- The other threads do nothing. -/
private def OthersIdle (c : Client K) : Prop :=
  ∀ thread, 3 ≤ thread → c.connect thread = .idle ∧ c.publishing thread = none

private theorem othersIdle_setConnect (h : c.OthersIdle) (hsmall : thread < 3) (phase : Connect) :
    (c.setConnect thread phase).OthersIdle := by
  intro other hother
  rw [connect_setConnect, if_neg (by omega)]
  exact h other hother

private theorem othersIdle_update (h : c.OthersIdle) (hsmall : thread < 3)
    (x : Option (TopologySnapshot K)) :
    OthersIdle { c with publishing := Function.update c.publishing thread x } := by
  intro other hother
  have hne : other ≠ thread := by omega
  simpa [Function.update_of_ne hne] using h other hother

private theorem othersIdle_step [BEq K] {c' : Client K} (h : c.OthersIdle) (hsmall : e.small = true)
    (hstep : c.step e = some c') : c'.OthersIdle := by
  cases e with
  | swap thread generation =>
    obtain ⟨-, ⟨⟩⟩ := Option.ite_none_right_eq_some.mp hstep
    exact othersIdle_setConnect (by exact h) (of_decide_eq_true hsmall) _
  | reset thread =>
    obtain ⟨-, ⟨⟩⟩ := Option.ite_none_right_eq_some.mp hstep
    exact othersIdle_setConnect (by exact h) (of_decide_eq_true hsmall) _
  | connected thread =>
    obtain ⟨-, ⟨⟩⟩ := Option.ite_none_right_eq_some.mp hstep
    exact othersIdle_setConnect (by exact h) (of_decide_eq_true hsmall) _
  | check thread snapshot =>
    simp only [step] at hstep
    split at hstep
    · cases hstep
    · split at hstep
      · obtain rfl := Option.some.inj hstep
        exact othersIdle_update h (of_decide_eq_true hsmall) _
      · obtain rfl := Option.some.inj hstep
        exact h
  | update thread =>
    simp only [step] at hstep
    split at hstep
    · cases hstep
    · obtain rfl := Option.some.inj hstep
      exact othersIdle_update h (of_decide_eq_true hsmall) none
  | fail error =>
    simp only [step] at hstep
    split at hstep
    · cases hstep
    · obtain rfl := Option.some.inj hstep
      exact h
  | disconnected =>
    obtain ⟨-, ⟨⟩⟩ := Option.ite_none_right_eq_some.mp hstep
    exact h

private def inTurnTest (c : Client K) (e : Event K) : Bool :=
  e.small && match e with
    | .update thread => (c.publishing thread).all fun snapshot ↦
      snapshot.generation == c.generation &&
        (List.range 3).all fun other ↦ c.connect other != .resetting
    | .swap _ generation => c.published.all (·.generation != generation)
    | _ => true

private theorem inTurn_of_test (h : c.OthersIdle) (htest : c.inTurnTest e = true) : c.InTurn e := by
  have hrest := (Bool.and_eq_true_iff.mp htest).2
  cases e with
  | update thread =>
    intro snapshot hpublishing
    simp only [hpublishing, Option.all_some, Bool.and_eq_true, beq_iff_eq, List.all_eq_true,
      List.mem_range, bne_iff_ne] at hrest
    refine ⟨hrest.1, fun other ↦ ?_⟩
    by_cases hother : other < 3
    · exact hrest.2 other hother
    · rw [(h other (by omega)).1]
      decide
  | swap thread generation =>
    intro _ snapshot hmem
    simpa using List.all_eq_true.mp hrest snapshot hmem
  | _ => trivial

private theorem inTurn_of_tested [BEq K] (hc : Reaches step (fun c e ↦ inTurnTest c e = true) new c)
    :
    Reaches step InTurn new c ∧ c.OthersIdle := by
  induction hc with
  | init => exact ⟨.init, fun _ _ ↦ ⟨rfl, rfl⟩⟩
  | step _ ok next ih =>
    exact ⟨.step ih.1 (inTurn_of_test ih.2 ok) next,
      othersIdle_step ih.2 (Bool.and_eq_true_iff.mp ok).1 next⟩

private theorem quiescent_of_test (h : c.OthersIdle) (hwatcher : c.failing = false)
    (htest : ∀ thread < 3, c.connect thread = .idle ∧ (c.publishing thread).isNone = true) :
    c.Quiescent := by
  refine ⟨fun thread ↦ ?_, fun thread ↦ ?_, hwatcher⟩
  · by_cases hthread : thread < 3
    · exact (htest thread hthread).1
    · exact (h thread (by omega)).1
  · by_cases hthread : thread < 3
    · exact Option.isNone_iff_eq_none.mp (htest thread hthread).2
    · exact (h thread (by omega)).2

/-- At rest, showing the snapshot with this generation and revision. -/
private def restsAt (generation revision : Nat) (c : Client K) : Bool :=
  !c.failing &&
    (List.range 3).all (fun thread ↦ c.connect thread == .idle && (c.publishing thread).isNone) &&
    match c.latest with
    | some (.ok shown) => shown.generation == generation && shown.revision == revision
    | _ => false

private theorem rests_of_test {generation revision : Nat} (h : c.OthersIdle)
    (htest : c.restsAt generation revision = true) : c.Quiescent ∧ ∃ shown,
      c.latest = some (.ok shown) ∧ shown.generation = generation ∧ shown.revision = revision := by
  simp only [restsAt, Bool.and_eq_true, Bool.not_eq_true', List.all_eq_true, List.mem_range,
    beq_iff_eq] at htest
  obtain ⟨⟨hwatcher, hidle⟩, hshown⟩ := htest
  refine ⟨quiescent_of_test h hwatcher hidle, ?_⟩
  split at hshown
  · next shown hlatest =>
    simp only [Bool.and_eq_true, beq_iff_eq] at hshown
    exact ⟨shown, hlatest, hshown⟩
  · cases hshown

private def emptyTopology (generation revision : Nat) : TopologySnapshot Binary32 :=
  ⟨generation, revision, ⟨[], none⟩⟩

/-- A restarted server's first snapshot replaces the last one of its predecessor. -/
theorem shows_current_server_restarted :
    ∃ c : Client Binary32, Reaches step InTurn new c ∧ c.Quiescent ∧ c.ShowsCurrent ∧
      ∃ shown, c.latest = some (.ok shown) ∧ shown.generation = 6 ∧ shown.revision = 1 := by
  obtain ⟨c, hc, hgoal⟩ := exists_reaches_of_runEvents (fun _ _ hok ↦ hok)
    (show (runEvents step inTurnTest new
      [.swap 1 5, .reset 1, .connected 1, .check 2 (emptyTopology 5 100), .update 2,
        .swap 1 6, .reset 1, .connected 1, .check 2 (emptyTopology 6 1), .update 2]).map
      (restsAt 6 1) = some true by decide +kernel)
  obtain ⟨hreaches, hidle⟩ := inTurn_of_tested hc
  obtain ⟨hquiet, hshown⟩ := rests_of_test hidle hgoal
  exact ⟨c, hreaches, hquiet, shows_current_server c hreaches hquiet, hshown⟩

private def keepsOld (c : Client K) : Bool := c.restsAt 5 100 && c.generation == 6

/-- A snapshot that was checked before the restart is stored after it. -/
theorem not_shows_current_server :
    ¬ ∀ c : Client Binary32, Reaches step anyStep new c → c.Quiescent → c.ShowsCurrent := by
  intro h
  obtain ⟨c, hc, hgoal⟩ := exists_reaches_of_runEvents (fun _ _ hok ↦ hok)
    (show (runEvents step (fun _ e ↦ e.small) new
      [.swap 1 5, .reset 1, .connected 1, .check 2 (emptyTopology 5 100),
        .swap 1 6, .reset 1, .connected 1, .update 2]).map keepsOld = some true by decide +kernel)
  have hidle : c.OthersIdle :=
    hc.invariant (fun _ _ ↦ ⟨rfl, rfl⟩) fun _ _ _ h hok hstep ↦ othersIdle_step h hok hstep
  obtain ⟨hrests, hgeneration⟩ := Bool.and_eq_true_iff.mp hgoal
  obtain ⟨hquiet, shown, hlatest, hold, -⟩ := rests_of_test hidle hrests
  have hcurrent := (h c (hc.mono fun _ _ _ ↦ trivial) hquiet).generation shown hlatest
  rw [hold, eq_of_beq hgeneration] at hcurrent
  cases hcurrent

end Client
end Native
end Bootty.Mux
