import Mathlib.Data.List.Perm.Basic
import Bootty.Mux.Command

/-!
# The controller of a binding

Model of the part of `crates/bootty-mux/src/controller.rs` that holds the server's topology:
which snapshots it takes and in which order it lists their sessions. Selection, resource
generations and command results are left out. A controller is `available` when it has no
availability error.
-/

namespace Bootty.Mux

variable {K : Type}

/-- A topology as the server publishes it. -/
structure TopologySnapshot (K : Type) where
  generation : Nat
  revision : Nat
  snapshot : MuxSnapshot K

/-- `MuxController`, as far as snapshots go. -/
structure MuxController (K : Type) where
  hasSnapshot : Bool := false
  available : Bool := true
  serverGeneration : Option Nat := none
  serverRevision : Option Nat := none
  sessions : List (MuxSession K) := []
  allSessions : List (MuxSession K) := []

/-- `position` and `remove`: the first element that passes, and the others. -/
def takeFirst {α : Type} (p : α → Bool) : List α → Option (α × List α)
  | [] => none
  | x :: xs => if p x then some (x, xs) else (takeFirst p xs).map fun (y, ys) ↦ (y, x :: ys)

/-- Nothing is lost when one is taken. -/
theorem perm_of_takeFirst {α : Type} {p : α → Bool} {l rest : List α} {a : α}
    (h : takeFirst p l = some (a, rest)) : l.Perm (a :: rest) := by
  induction l generalizing rest with
  | nil => cases h
  | cons x xs ih =>
    rw [takeFirst] at h
    split at h
    · obtain ⟨rfl, rfl⟩ := Prod.mk.inj (Option.some.inj h)
      exact List.Perm.refl _
    · obtain ⟨⟨y, ys⟩, hrest, heq⟩ := Option.map_eq_some_iff.mp h
      obtain ⟨rfl, rfl⟩ := Prod.mk.inj heq
      exact ((ih hrest).cons x).trans (List.Perm.swap _ _ _)

theorem passes_of_takeFirst {α : Type} {p : α → Bool} {l rest : List α} {a : α}
    (h : takeFirst p l = some (a, rest)) : p a = true := by
  induction l generalizing rest with
  | nil => cases h
  | cons x xs ih =>
    rw [takeFirst] at h
    split at h
    · next hx =>
      obtain ⟨rfl, rfl⟩ := Prod.mk.inj (Option.some.inj h)
      exact hx
    · obtain ⟨⟨y, ys⟩, hrest, heq⟩ := Option.map_eq_some_iff.mp h
      obtain ⟨rfl, rfl⟩ := Prod.mk.inj heq
      exact ih hrest

/-- `controller.rs:265–280`. -/
def stableSessionOrder : List (MuxSession K) → List (MuxSession K) → List (MuxSession K)
  | [], refreshed => refreshed
  | old :: previous, refreshed =>
    match takeFirst (fun session ↦ session.id == old.id || session.name == old.name) refreshed with
    | some (session, rest) => session :: stableSessionOrder previous rest
    | none => stableSessionOrder previous refreshed

/-- Sessions are reordered. -/
theorem stableSessionOrder_perm (previous refreshed : List (MuxSession K)) :
    (stableSessionOrder previous refreshed).Perm refreshed := by
  induction previous generalizing refreshed with
  | nil => exact List.Perm.refl _
  | cons old previous ih =>
    rw [stableSessionOrder]
    split
    · next session rest htake =>
      exact ((ih rest).cons session).trans (perm_of_takeFirst htake).symm
    · exact ih refreshed

/-- `controller.rs:282–291`. -/
def orderSessionsByNames : List (MuxSession K) → List String → List (MuxSession K)
  | _, [] => []
  | remaining, name :: names =>
    match takeFirst (fun session ↦ session.name == name) remaining with
    | some (session, rest) => session :: orderSessionsByNames rest names
    | none => orderSessionsByNames remaining names

theorem orderSessionsByNames_subset (sessions : List (MuxSession K)) (names : List String) :
    orderSessionsByNames sessions names ⊆ sessions := by
  induction names generalizing sessions with
  | nil => exact List.nil_subset _
  | cons name names ih =>
    rw [orderSessionsByNames]
    split
    · next session rest htake =>
      have hperm := perm_of_takeFirst htake
      apply List.cons_subset.mpr
      constructor
      · exact hperm.mem_iff.mpr List.mem_cons_self
      · intro other hother
        exact hperm.mem_iff.mpr (List.mem_cons_of_mem _ (ih rest hother))
    · exact ih sessions

namespace MuxController

/-- `controller.rs:532–534`. -/
def hasSessionSnapshot (mux : MuxController K) : Bool := mux.hasSnapshot && mux.available

/-- `all_sessions`, `controller.rs:542–548`. -/
def backendSessions (mux : MuxController K) : List (MuxSession K) :=
  if mux.allSessions.isEmpty then mux.sessions else mux.allSessions

/-- `controller.rs:558–562`. -/
def backendSessionByIdOrName (mux : MuxController K) (key : String) : Option (MuxSession K) :=
  mux.backendSessions.find? fun session ↦ sessionMatches session key

/-- `controller.rs:640–657`. -/
def applySessionOrder (mux : MuxController K) (orderedNames : List String) : MuxController K :=
  { mux with sessions := orderSessionsByNames mux.backendSessions orderedNames }

/-- `controller.rs:1097–1121`. -/
def applySnapshot (mux : MuxController K) (snapshot : MuxSnapshot K) : MuxController K :=
  let sessions := stableSessionOrder mux.sessions snapshot.sessions
  { mux with hasSnapshot := true, allSessions := sessions, sessions }

/-- `controller.rs:1070–1095`: a snapshot of another server, or an older one of the same
server, is not taken. `peer` is the generation the transport is connected to. -/
def applyServerSnapshot (mux : MuxController K) (peer : Option Nat)
    (snapshot : TopologySnapshot K) : MuxController K :=
  if (peer <|> mux.serverGeneration).any (· != snapshot.generation) ||
      mux.serverGeneration == some snapshot.generation &&
        mux.serverRevision.any (snapshot.revision < ·) then mux
  else
    { mux with
      serverGeneration := some snapshot.generation
      serverRevision := some snapshot.revision }.applySnapshot snapshot.snapshot

end MuxController
end Bootty.Mux
