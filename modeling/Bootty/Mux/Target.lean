import Bootty.Base.Binary32
import Bootty.Base.Generations
import Bootty.Base.Machine
import Bootty.Mux.Controller

/-!
# Targets of commands

Model of the resource generations of a controller (`crates/bootty-mux/src/controller.rs:481–525`
and `controller.rs:1039–1121`) and of the targets minted from them (`target.rs:40–134`).

The observations of a run are kept in a log. A command's completion, a pushed event and a
refresh may come in any order and from any server; `peer` is the generation the transport is
connected to at that moment and `fresh` is what the process-wide counter of binding
generations hands out. `serde_json` is a parameter.
-/

namespace Bootty.Mux

open Bootty.Base

variable {K : Type}

/-- `controller.rs:309–313`. -/
inductive MuxResourceKey where
  | session (session : String)
  | window (session window : String)
  | pane (session window pane : String)
  deriving DecidableEq, Repr

/-- The occupant of a resource. Sessions and windows have none; a pane's is the text
`pid:{pid}` or `process:{process:?}`. -/
inductive Fingerprint where
  | none
  | pid (pid : Nat)
  | process (process : Option String)
  deriving DecidableEq, Repr

/-- `controller.rs:496–499`. -/
def MuxPaneAnchor.fingerprint (pane : MuxPaneAnchor) : Fingerprint :=
  match pane.panePid with
  | some pid => .pid pid
  | none => .process pane.process

/-- The entries that `record_resource_snapshot` inserts, in order. -/
def resourceEntries (sessions : List (MuxSession K)) : List (MuxResourceKey × Fingerprint) :=
  sessions.flatMap fun session ↦
    (.session session.id, .none) :: session.windows.flatMap fun window ↦
      (.window session.id window.id, .none) ::
        (window.anchor :: window.panes).filterMap fun pane ↦
          pane.paneId.map fun id ↦ (.pane session.id window.id id, pane.fingerprint)

/-- The map of these entries: a later one replaces an earlier one of the same key. -/
def currentResources (sessions : List (MuxSession K)) (key : MuxResourceKey) :
    Option Fingerprint :=
  (resourceEntries sessions).reverse.lookup key

/-- Generations are `u64`. -/
def generationLimit : Nat := 2 ^ 64 - 1

/-- A controller with its generations. -/
structure BoundController (K : Type) where
  mux : MuxController K
  bindingGeneration : Nat
  resources : Generations MuxResourceKey Fingerprint
  log : List (Generations.Observation MuxResourceKey Fingerprint)

/-- `controller.rs:1077–1087`. -/
def MuxController.rejects (mux : MuxController K) (peer : Option Nat)
    (snapshot : TopologySnapshot K) : Bool :=
  (peer <|> mux.serverGeneration).any (· != snapshot.generation) ||
    mux.serverGeneration == some snapshot.generation &&
      mux.serverRevision.any (snapshot.revision < ·)

namespace BoundController

/-- What servers and commands do to a controller. -/
inductive Event (K : Type) where
  | refresh (peer : Option Nat) (fresh : Nat) (snapshot : TopologySnapshot K)
  | refreshFailed
  | complete (peer : Option Nat) (fresh : Nat) (snapshot : Option (TopologySnapshot K))
  | accept (peer : Option Nat) (fresh : Nat) (snapshot : TopologySnapshot K)
  | execute
  | order (names : List String)

/-- A controller before its first snapshot. -/
def new (bindingGeneration : Nat) : BoundController K := ⟨{}, bindingGeneration, .empty, []⟩

/-- The resources are observed. -/
def observe (c : BoundController K)
    (observation : Generations.Observation MuxResourceKey Fingerprint) : BoundController K :=
  { c with
    resources := c.resources.observe generationLimit observation
    log := c.log ++ [observation] }

/-- `controller.rs:481–525`. -/
def recordResourceSnapshot (c : BoundController K) : BoundController K :=
  c.observe (.recorded (currentResources c.mux.sessions))

/-- `controller.rs:1042–1055`; the generation itself is written with the snapshot. -/
def observeServerGeneration (c : BoundController K) (generation fresh : Nat) :
    BoundController K :=
  if c.mux.serverGeneration.any (· != generation) then
    { c with bindingGeneration := fresh }.observe .cleared
  else c

/-- `controller.rs:1071–1094`. -/
def applyServerSnapshot (c : BoundController K) (peer : Option Nat) (fresh : Nat)
    (snapshot : TopologySnapshot K) : BoundController K × Bool :=
  if c.mux.rejects peer snapshot then (c, false)
  else
    ({ c.observeServerGeneration snapshot.generation fresh with
        mux := c.mux.applyServerSnapshot peer snapshot }, true)

/-- One call of the controller. -/
def step (c : BoundController K) : Event K → Option (BoundController K)
  | .refresh peer fresh snapshot =>
    let next := (c.applyServerSnapshot peer fresh snapshot).1
    some { next with mux := { next.mux with available := true } }.recordResourceSnapshot
  | .refreshFailed => some { c with mux := { c.mux with available := false } }
  | .complete peer fresh snapshot =>
    match snapshot with
    | some snapshot => some (c.applyServerSnapshot peer fresh snapshot).1.recordResourceSnapshot
    | none => some c.recordResourceSnapshot
  | .accept peer fresh snapshot =>
    match c.applyServerSnapshot peer fresh snapshot with
    | (next, true) => some next.recordResourceSnapshot
    | (next, false) => some next
  | .execute => some c.recordResourceSnapshot
  | .order names => some { c with mux := c.mux.applySessionOrder names }

/-- No resource is given its 2^64th generation. -/
def Counted (c : BoundController K) (e : Event K) : Prop :=
  ∀ c' observations, c.step e = some c' → c'.log = c.log ++ observations →
    c.resources.Counts generationLimit observations

/-- `session_generation`, `window_generation` and `pane_generation`, `controller.rs:449–469`. -/
def generation (c : BoundController K) (key : MuxResourceKey) : Option Nat := c.resources.token key

end BoundController

/-! ### Targets -/

/-- `values.rs:88–96`. -/
inductive ResourceKind where
  | applicationInstance
  | applicationWindow
  | binding
  | session
  | muxWindow
  | pane
  | terminal
  deriving DecidableEq, Repr

/-- `CommandTarget`, as far as it is resolved. -/
structure CommandTarget where
  kind : ResourceKind
  handle : String
  generation : Nat
  deriving DecidableEq, Repr

/-- `ExactMuxTarget`. -/
inductive ExactMuxTarget where
  | binding (scope : Int)
  | session (scope : Int) (session : String)
  | window (scope : Int) (session window : String)
  | pane (scope : Int) (session window pane : String)
  deriving DecidableEq, Repr

/-- `serde_json` on arrays of strings. -/
structure JsonPaths where
  render : List String → String
  parse : String → Option (List String)

namespace ExactMuxTarget

/-- `target.rs:23–31`. -/
def scope : ExactMuxTarget → Int
  | .binding scope | .session scope _ | .window scope _ _ | .pane scope _ _ _ => scope

/-- The resource of a target below a binding. -/
def key : ExactMuxTarget → Option MuxResourceKey
  | .binding _ => none
  | .session _ s => some (.session s)
  | .window _ s w => some (.window s w)
  | .pane _ s w p => some (.pane s w p)

/-- The path in the handle of such a target. -/
def path (bindingHandle : String) : ExactMuxTarget → List String
  | .binding _ => [bindingHandle, "active_terminal"]
  | .session _ s => [bindingHandle, s]
  | .window _ s w => [bindingHandle, s, w]
  | .pane _ s w p => [bindingHandle, s, w, p]

/-- `target.rs:40–89`. -/
def commandTarget (json : JsonPaths) (target : ExactMuxTarget) (kind : ResourceKind)
    (c : BoundController K) (bindingHandle : String) : Option CommandTarget :=
  let wire (generation : Nat) : CommandTarget :=
    ⟨kind, json.render (target.path bindingHandle), generation⟩
  match kind, target with
  | .binding, .binding _ => some ⟨kind, bindingHandle, c.bindingGeneration⟩
  | .terminal, .binding _ => some (wire c.bindingGeneration)
  | .session, .session _ s | .terminal, .session _ s => (c.generation (.session s)).map wire
  | .muxWindow, .window _ s w => (c.generation (.window s w)).map wire
  | .pane, .pane _ s w p | .terminal, .pane _ s w p => (c.generation (.pane s w p)).map wire
  | _, _ => none

end ExactMuxTarget

/-- The lookup hint of `exact_mux_target`, `target.rs:101–129`. -/
def targetCandidate (json : JsonPaths) (scope : Int) (target : CommandTarget)
    (bindingHandle : String) : Option ExactMuxTarget :=
  if target.kind = .binding then some (.binding scope)
  else
    (json.parse target.handle).bind fun path ↦
      match target.kind, path with
      | .terminal, [binding, second] =>
        if binding = bindingHandle ∧ second = "active_terminal" then some (.binding scope)
        else if binding = bindingHandle then some (.session scope second)
        else none
      | .session, [binding, session] =>
        if binding = bindingHandle then some (.session scope session) else none
      | .muxWindow, [binding, session, window] =>
        if binding = bindingHandle then some (.window scope session window) else none
      | .pane, [binding, session, window, pane] | .terminal, [binding, session, window, pane] =>
        if binding = bindingHandle then some (.pane scope session window pane) else none
      | _, _ => none

/-- `target.rs:91–134`. -/
def exactMuxTarget (json : JsonPaths) (scope : Int) (c : BoundController K)
    (target : CommandTarget) (bindingHandle : String) : Option ExactMuxTarget :=
  (targetCandidate json scope target bindingHandle).filter fun candidate ↦
    candidate.commandTarget json target.kind c bindingHandle == some target

/-- Every snapshot recorded in between shows the resource with the same occupant, and no
change of the server's generation was observed. -/
def Unchanged (key : MuxResourceKey) (minted later : BoundController K) : Prop :=
  ∃ fingerprint between, minted.resources.observed key = some fingerprint ∧
    later.log = minted.log ++ between ∧ ∀ observation ∈ between, observation.shows key fingerprint

/-! ### What a run observes -/

namespace BoundController

/-- The log has grown by these observations, and the generations have followed them. -/
private def Follows (c c' : BoundController K)
    (observations : List (Generations.Observation MuxResourceKey Fingerprint)) : Prop :=
  c'.log = c.log ++ observations ∧
    c'.resources = observations.foldl (Generations.observe generationLimit) c.resources

variable {c c' c'' : BoundController K}

private theorem follows_refl (c : BoundController K) : Follows c c [] := by
  simp [Follows]

private theorem Follows.observe {observations} (h : Follows c c' observations)
    (o : Generations.Observation MuxResourceKey Fingerprint) :
    Follows c (c'.observe o) (observations ++ [o]) := by
  constructor
  · simp [BoundController.observe, h.1]
  · simp [BoundController.observe, h.2]

private theorem Follows.trans {first second} (h : Follows c c' first) (h' : Follows c' c'' second) :
    Follows c c'' (first ++ second) := by
  constructor
  · rw [h'.1, h.1, List.append_assoc]
  · rw [h'.2, h.2, List.foldl_append]

private theorem follows_applyServerSnapshot (c : BoundController K) (peer : Option Nat)
    (fresh : Nat) (snapshot : TopologySnapshot K) :
    ∃ observations, Follows c (c.applyServerSnapshot peer fresh snapshot).1 observations := by
  unfold applyServerSnapshot observeServerGeneration
  split
  · exact ⟨[], follows_refl c⟩
  · split
    · have hsame : Follows c { c with bindingGeneration := fresh } [] := follows_refl c
      exact ⟨[.cleared], hsame.observe .cleared⟩
    · exact ⟨[], follows_refl c⟩

private theorem follows_step {e : Event K} (h : c.step e = some c') :
    ∃ observations, Follows c c' observations := by
  cases e with
  | refresh peer fresh snapshot =>
    obtain rfl := Option.some.inj h
    obtain ⟨observations, happly⟩ := follows_applyServerSnapshot c peer fresh snapshot
    have hmux : Follows c { (c.applyServerSnapshot peer fresh snapshot).1 with
        mux := { (c.applyServerSnapshot peer fresh snapshot).1.mux with available := true } }
        observations := happly
    exact ⟨_, hmux.observe _⟩
  | refreshFailed =>
    obtain rfl := Option.some.inj h
    exact ⟨[], follows_refl c⟩
  | complete peer fresh snapshot =>
    cases snapshot with
    | none =>
      obtain rfl := Option.some.inj h
      exact ⟨_, (follows_refl c).observe _⟩
    | some snapshot =>
      obtain rfl := Option.some.inj h
      obtain ⟨observations, happly⟩ := follows_applyServerSnapshot c peer fresh snapshot
      exact ⟨_, happly.observe _⟩
  | accept peer fresh snapshot =>
    obtain ⟨observations, happly⟩ := follows_applyServerSnapshot c peer fresh snapshot
    simp only [step] at h
    split at h
    · next next heq =>
      obtain rfl := Option.some.inj h
      rw [heq] at happly
      exact ⟨_, happly.observe _⟩
    · next next heq =>
      obtain rfl := Option.some.inj h
      rw [heq] at happly
      exact ⟨observations, happly⟩
  | execute =>
    obtain rfl := Option.some.inj h
    exact ⟨_, (follows_refl c).observe _⟩
  | order names =>
    obtain rfl := Option.some.inj h
    exact ⟨[], follows_refl c⟩

private theorem follows_run (h : Reaches step Counted c c') :
    ∃ observations, Follows c c' observations ∧
      c.resources.Counts generationLimit observations := by
  induction h with
  | init => exact ⟨[], follows_refl c, trivial⟩
  | step before ok next ih =>
    obtain ⟨past, hpast, hcounts⟩ := ih
    obtain ⟨observations, hstep⟩ := follows_step next
    refine ⟨past ++ observations, hpast.trans hstep, ?_⟩
    rw [Generations.counts_append, ← hpast.2]
    exact ⟨hcounts, ok _ _ next hstep.1⟩

end BoundController

/-! ### Minting and resolving -/

section Targets

variable {json : JsonPaths} {resource : ExactMuxTarget} {key : MuxResourceKey}
  {kind : ResourceKind} {c : BoundController K} {target : CommandTarget} {bindingHandle : String}

private theorem of_commandTarget (hkey : resource.key = some key)
    (h : resource.commandTarget json kind c bindingHandle = some target) :
    target.kind = kind ∧ target.handle = json.render (resource.path bindingHandle) ∧
      c.generation key = some target.generation := by
  cases resource with
  | binding scope => cases hkey
  | session scope s =>
    obtain rfl := Option.some.inj hkey
    cases kind with
    | session | terminal =>
      obtain ⟨generation, hgeneration, rfl⟩ := Option.map_eq_some_iff.mp h
      exact ⟨rfl, rfl, hgeneration⟩
    | _ => cases h
  | window scope s w =>
    obtain rfl := Option.some.inj hkey
    cases kind with
    | muxWindow =>
      obtain ⟨generation, hgeneration, rfl⟩ := Option.map_eq_some_iff.mp h
      exact ⟨rfl, rfl, hgeneration⟩
    | _ => cases h
  | pane scope s w p =>
    obtain rfl := Option.some.inj hkey
    cases kind with
    | pane | terminal =>
      obtain ⟨generation, hgeneration, rfl⟩ := Option.map_eq_some_iff.mp h
      exact ⟨rfl, rfl, hgeneration⟩
    | _ => cases h

/-- The path of a minted target leads back to its resource, except for a terminal of the
session called `active_terminal`, whose path is that of the binding's active terminal. -/
private theorem key_of_candidate {scope : Int} {laterHandle : String} {resolved : ExactMuxTarget}
    (hkey : resource.key = some key)
    (hmint : resource.commandTarget json kind c bindingHandle = some target)
    (hround : json.parse (json.render (resource.path bindingHandle)) =
      some (resource.path bindingHandle))
    (h : targetCandidate json scope target laterHandle = some resolved) :
    resolved.key = some key ∨
      kind = .terminal ∧ key = .session "active_terminal" ∧ resolved = .binding scope := by
  obtain ⟨rfl, hhandle, -⟩ := of_commandTarget hkey hmint
  simp only [targetCandidate, hhandle, hround, Option.bind_some] at h
  cases resource with
  | binding scope => cases hkey
  | session scope s =>
    obtain rfl := Option.some.inj hkey
    cases hkind : target.kind with
    | session =>
      simp only [hkind, ExactMuxTarget.path] at h
      obtain ⟨-, ⟨⟩⟩ := Option.ite_none_right_eq_some.mp h
      exact .inl rfl
    | terminal =>
      simp only [hkind, ExactMuxTarget.path] at h
      by_cases hactive : bindingHandle = laterHandle ∧ s = "active_terminal"
      · obtain rfl : ExactMuxTarget.binding _ = resolved := by simpa [hactive] using h
        exact .inr ⟨rfl, by rw [hactive.2], rfl⟩
      · rw [if_neg (by decide), if_neg hactive] at h
        obtain ⟨-, ⟨⟩⟩ := Option.ite_none_right_eq_some.mp h
        exact .inl rfl
    | _ => simp [hkind, ExactMuxTarget.commandTarget] at hmint
  | window scope s w =>
    obtain rfl := Option.some.inj hkey
    cases hkind : target.kind with
    | muxWindow =>
      simp only [hkind, ExactMuxTarget.path] at h
      obtain ⟨-, ⟨⟩⟩ := Option.ite_none_right_eq_some.mp h
      exact .inl rfl
    | _ => simp [hkind, ExactMuxTarget.commandTarget] at hmint
  | pane scope s w p =>
    obtain rfl := Option.some.inj hkey
    cases hkind : target.kind with
    | pane | terminal =>
      simp only [hkind, ExactMuxTarget.path] at h
      obtain ⟨-, ⟨⟩⟩ := Option.ite_none_right_eq_some.mp h
      exact .inl rfl
    | _ => simp [hkind, ExactMuxTarget.commandTarget] at hmint

/-- A target that resolves is a token of its resource, or it is taken for the binding's
active terminal. -/
private theorem token_of_resolves {scope : Int} {laterHandle : String} {resolved : ExactMuxTarget}
    {later : BoundController K} (hkey : resource.key = some key)
    (hmint : resource.commandTarget json kind c bindingHandle = some target)
    (hround : json.parse (json.render (resource.path bindingHandle)) =
      some (resource.path bindingHandle))
    (h : exactMuxTarget json scope later target laterHandle = some resolved) :
    later.generation key = some target.generation ∨
      kind = .terminal ∧ key = .session "active_terminal" ∧
        target.generation = later.bindingGeneration := by
  obtain ⟨hcandidate, hwire⟩ := Option.filter_eq_some_iff.mp h
  have hwire := eq_of_beq hwire
  obtain hsame | ⟨rfl, hactive, rfl⟩ := key_of_candidate hkey hmint hround hcandidate
  · exact .inl (of_commandTarget hsame hwire).2.2
  · refine .inr ⟨rfl, hactive, ?_⟩
    rw [(of_commandTarget hkey hmint).1] at hwire
    simp only [ExactMuxTarget.commandTarget, Option.some.injEq] at hwire
    rw [← hwire]

/-- A target that resolves was minted for a resource that has been there ever since, with the
same occupant and under the same server, unless it is taken for the binding's active
terminal. -/
theorem stale_target_never_resolves (json : JsonPaths) (scope : Int)
    (resource resolved : ExactMuxTarget) (key : MuxResourceKey) (kind : ResourceKind)
    (minted later : BoundController K) (target : CommandTarget)
    (bindingHandle laterHandle : String) (hkey : resource.key = some key)
    (hmint : resource.commandTarget json kind minted bindingHandle = some target)
    (hround : json.parse (json.render (resource.path bindingHandle)) =
      some (resource.path bindingHandle))
    (hrun : Reaches BoundController.step BoundController.Counted minted later)
    (hresolves : exactMuxTarget json scope later target laterHandle = some resolved)
    (hdistinct : ¬ (kind = .terminal ∧ key = .session "active_terminal" ∧
      target.generation = later.bindingGeneration)) :
    Unchanged key minted later := by
  obtain ⟨between, hfollows, hcounts⟩ := BoundController.follows_run hrun
  have hminted : minted.resources.token key = some target.generation :=
    (of_commandTarget hkey hmint).2.2
  have hlater : later.resources.token key = some target.generation :=
    (token_of_resolves hkey hmint hround hresolves).resolve_right hdistinct
  cases hobserved : minted.resources.observed key with
  | none => simp [Generations.token, hobserved] at hminted
  | some fingerprint =>
    refine ⟨fingerprint, between, hobserved, hfollows.1, ?_⟩
    rw [hfollows.2] at hlater
    exact Generations.shows_of_token hcounts hobserved hminted hlater

/-! ### Round trip -/

private theorem exactMuxTarget_of_candidate {scope : Int} {candidate : ExactMuxTarget}
    (h : targetCandidate json scope target bindingHandle = some candidate) :
    exactMuxTarget json scope c target bindingHandle = some resource ↔
      candidate = resource ∧
        candidate.commandTarget json target.kind c bindingHandle = some target := by
  rw [exactMuxTarget, h, Option.filter_eq_some_iff, Option.some.injEq, beq_iff_eq]
  constructor
  · rintro ⟨rfl, hwire⟩
    exact ⟨rfl, hwire⟩
  · rintro ⟨rfl, hwire⟩
    exact ⟨rfl, hwire⟩

/-- The candidate of a minted target is its resource, or the binding for the one path that the
two share. -/
private theorem targetCandidate_of_commandTarget
    (hmint : resource.commandTarget json kind c bindingHandle = some target)
    (hround : json.parse (json.render (resource.path bindingHandle)) =
      some (resource.path bindingHandle)) :
    target.kind = kind ∧ targetCandidate json resource.scope target bindingHandle =
      some (if kind = .terminal ∧ resource = .session resource.scope "active_terminal" then
        .binding resource.scope else resource) := by
  cases resource with
  | binding scope =>
    cases kind with
    | binding =>
      obtain rfl := Option.some.inj hmint
      exact ⟨rfl, rfl⟩
    | terminal =>
      obtain rfl := Option.some.inj hmint
      refine ⟨rfl, ?_⟩
      simp only [targetCandidate, hround, Option.bind_some]
      simp [ExactMuxTarget.path, ExactMuxTarget.scope]
    | _ => cases hmint
  | session scope s =>
    have ⟨hkind, hhandle, _⟩ := of_commandTarget rfl hmint
    subst hkind
    refine ⟨rfl, ?_⟩
    simp only [targetCandidate, hhandle, hround, Option.bind_some]
    simp only [ExactMuxTarget.path, ExactMuxTarget.scope]
    cases hkind : target.kind with
    | session => simp
    | terminal =>
      by_cases hactive : s = "active_terminal"
      · simp [hactive]
      · simp [hactive]
    | _ => simp [hkind, ExactMuxTarget.commandTarget] at hmint
  | window scope s w =>
    have ⟨hkind, hhandle, _⟩ := of_commandTarget rfl hmint
    subst hkind
    refine ⟨rfl, ?_⟩
    simp only [targetCandidate, hhandle, hround, Option.bind_some]
    simp only [ExactMuxTarget.path, ExactMuxTarget.scope]
    cases hkind : target.kind with
    | muxWindow => simp
    | _ => simp [hkind, ExactMuxTarget.commandTarget] at hmint
  | pane scope s w p =>
    have ⟨hkind, hhandle, _⟩ := of_commandTarget rfl hmint
    subst hkind
    refine ⟨rfl, ?_⟩
    simp only [targetCandidate, hhandle, hround, Option.bind_some]
    simp only [ExactMuxTarget.path, ExactMuxTarget.scope]
    cases hkind : target.kind with
    | pane | terminal => simp
    | _ => simp [hkind, ExactMuxTarget.commandTarget] at hmint

/-- A minted target leads back to the resource it was minted for, unless it is the terminal of a
session called `active_terminal`. -/
theorem exactMuxTarget_commandTarget_iff (json : JsonPaths) (resource : ExactMuxTarget)
    (kind : ResourceKind) (c : BoundController K) (target : CommandTarget)
    (bindingHandle : String)
    (hmint : resource.commandTarget json kind c bindingHandle = some target)
    (hround : json.parse (json.render (resource.path bindingHandle)) =
      some (resource.path bindingHandle)) :
    exactMuxTarget json resource.scope c target bindingHandle = some resource ↔
      ¬ (kind = .terminal ∧ resource = .session resource.scope "active_terminal") := by
  have ⟨hkind, hcandidate⟩ := targetCandidate_of_commandTarget hmint hround
  rw [exactMuxTarget_of_candidate hcandidate, hkind]
  by_cases hshared : kind = .terminal ∧ resource = .session resource.scope "active_terminal"
  · rw [if_pos hshared]
    constructor
    · rintro ⟨hbinding, _⟩
      rw [hshared.2] at hbinding
      cases hbinding
    · exact fun h ↦ absurd hshared h
  · rw [if_neg hshared]
    exact ⟨fun _ ↦ hshared, fun _ ↦ ⟨rfl, hmint⟩⟩

/-! ### Runs on fixed snapshots -/

private def sessionCalled (id : String) : MuxSession Binary32 where
  id
  name := id
  active := true
  anchor := ⟨id, none, none, none, none⟩
  activeWindowId := none
  windows := []
  tag := {}

/-- The server of generation 7 lists these sessions. -/
private def listing (revision : Nat) (ids : List String) : TopologySnapshot Binary32 :=
  ⟨7, revision, ⟨ids.map sessionCalled, none⟩⟩

private def refreshed (c : BoundController Binary32) (revision : Nat) (ids : List String) :
    BoundController Binary32 :=
  (c.step (.refresh none 0 (listing revision ids))).getD c

-- What `serde_json` does to two names without quotes or backslashes.
private def plainJson (name : String) : JsonPaths where
  render path := "[" ++ ",".intercalate (path.map fun part ↦ "\"" ++ part ++ "\"") ++ "]"
  parse text := if text = "[\"space\",\"" ++ name ++ "\"]" then some ["space", name] else none

private theorem counted_of_log {c next : BoundController K} {e : BoundController.Event K}
    {current : MuxResourceKey → Option Fingerprint} (hstep : c.step e = some next)
    (hlog : next.log = c.log ++ [.recorded current])
    (hroom : ∀ key occupant generation, current key = some occupant →
      c.resources.generation key = some generation → generation < generationLimit) :
    c.Counted e := by
  intro c' observations hstep' hlog'
  obtain rfl : next = c' := Option.some.inj (hstep.symm.trans hstep')
  obtain rfl : [.recorded current] = observations := List.append_cancel_left (hlog.symm.trans hlog')
  exact ⟨fun key occupant generation hcurrent hgeneration _ ↦
    hroom key occupant generation hcurrent hgeneration, trivial⟩

private theorem reaches_first (ids : List String) :
    Reaches BoundController.step BoundController.Counted (.new 1) (refreshed (.new 1) 1 ids) ∧
      ∀ key generation, (refreshed (.new 1) 1 ids).resources.generation key = some generation →
        generation = 1 := by
  constructor
  · refine .step (e := .refresh none 0 (listing 1 ids)) .init (counted_of_log rfl rfl ?_) rfl
    intro key occupant generation _ hgeneration
    cases hgeneration
  · intro key generation hgeneration
    have hrecord : (Generations.empty.record generationLimit (currentResources _)).generation key =
        some generation := hgeneration
    simp only [Generations.record, Generations.empty] at hrecord
    split at hrecord
    · cases hrecord
    · exact (Option.some.inj hrecord).symm

private theorem reaches_second (ids ids' : List String) :
    Reaches BoundController.step BoundController.Counted (refreshed (.new 1) 1 ids)
      (refreshed (refreshed (.new 1) 1 ids) 2 ids') := by
  refine .step (e := .refresh none 0 (listing 2 ids')) .init (counted_of_log rfl rfl ?_) rfl
  intro key occupant generation _ hgeneration
  rw [(reaches_first ids).2 key generation hgeneration]
  decide

/-- The target of a session that is listed again. -/
theorem stale_target_never_resolves_listed :
    ∃ (minted later : BoundController Binary32) (target : CommandTarget),
      Reaches BoundController.step BoundController.Counted (.new 1) minted ∧
      Reaches BoundController.step BoundController.Counted minted later ∧
      minted.log.length < later.log.length ∧
      exactMuxTarget (plainJson "work") 3 later target "space" = some (.session 3 "work") ∧
      Unchanged (.session "work") minted later := by
  refine ⟨refreshed (.new 1) 1 ["work"], refreshed (refreshed (.new 1) 1 ["work"]) 2 ["work"],
    ⟨.session, "[\"space\",\"work\"]", 1⟩, (reaches_first _).1, reaches_second _ _, ?_, ?_, ?_⟩
  · decide +kernel
  · decide +kernel
  · exact stale_target_never_resolves (plainJson "work") 3 (.session 3 "work") (.session 3 "work")
      (.session "work") .session _ _ ⟨.session, "[\"space\",\"work\"]", 1⟩ "space" "space" rfl
      (by decide +kernel) (by decide +kernel) (reaches_second _ _) (by decide +kernel) (by decide)

/-- The target of a terminal in a session called `active_terminal` resolves after the session
is gone: it is taken for the active terminal of the first binding. -/
theorem not_stale_target_never_resolves :
    ¬ ∀ (resource resolved : ExactMuxTarget) (key : MuxResourceKey) (kind : ResourceKind)
      (minted later : BoundController Binary32) (target : CommandTarget),
      Reaches BoundController.step BoundController.Counted (.new 1) minted →
      resource.key = some key →
      resource.commandTarget (plainJson "active_terminal") kind minted "space" = some target →
      Reaches BoundController.step BoundController.Counted minted later →
      exactMuxTarget (plainJson "active_terminal") 3 later target "space" = some resolved →
      Unchanged key minted later := by
  intro h
  obtain ⟨fingerprint, between, -, hlog, hshows⟩ := h (.session 3 "active_terminal") (.binding 3)
    (.session "active_terminal") .terminal (refreshed (.new 1) 1 ["active_terminal"])
    (refreshed (refreshed (.new 1) 1 ["active_terminal"]) 2 [])
    ⟨.terminal, "[\"space\",\"active_terminal\"]", 1⟩ (reaches_first _).1 rfl (by decide +kernel)
    (reaches_second _ _) (by decide +kernel)
  obtain rfl : [.recorded (currentResources [])] = between := List.append_cancel_left hlog
  have hshown := hshows _ (List.mem_singleton_self _)
  cases hshown

/-- The target of a listed session leads back to it. -/
theorem exactMuxTarget_commandTarget_iff_listed :
    exactMuxTarget (plainJson "work") 3 (refreshed (.new 1) 1 ["work"])
      ⟨.terminal, "[\"space\",\"work\"]", 1⟩ "space" = some (.session 3 "work") :=
  (exactMuxTarget_commandTarget_iff (plainJson "work") (.session 3 "work") .terminal
    (refreshed (.new 1) 1 ["work"]) ⟨.terminal, "[\"space\",\"work\"]", 1⟩ "space"
    (by decide +kernel) (by decide +kernel)).mpr (by decide)

/-- The terminal target of the listed session `active_terminal` does not lead back to it. -/
theorem not_exactMuxTarget_commandTarget :
    ¬ ∀ (json : JsonPaths) (resource : ExactMuxTarget) (kind : ResourceKind)
      (c : BoundController Binary32) (target : CommandTarget) (bindingHandle : String),
      Reaches BoundController.step BoundController.Counted (.new 1) c →
      json.parse (json.render (resource.path bindingHandle)) =
        some (resource.path bindingHandle) →
      resource.commandTarget json kind c bindingHandle = some target →
      exactMuxTarget json resource.scope c target bindingHandle = some resource := by
  intro h
  have hresolved := h (plainJson "active_terminal") (.session 3 "active_terminal") .terminal
    (refreshed (.new 1) 1 ["active_terminal"]) ⟨.terminal, "[\"space\",\"active_terminal\"]", 1⟩
    "space" (reaches_first _).1 (by decide +kernel) (by decide +kernel)
  have hbinding : exactMuxTarget (plainJson "active_terminal") 3
      (refreshed (.new 1) 1 ["active_terminal"])
      ⟨.terminal, "[\"space\",\"active_terminal\"]", 1⟩ "space" = some (.binding 3) := by
    decide +kernel
  exact absurd (hbinding.symm.trans hresolved) (by decide)

end Targets

end Bootty.Mux
