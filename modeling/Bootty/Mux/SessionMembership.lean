import Bootty.Base.ListEdits
import Bootty.Mux.SessionSnapshot

/-!
# Session membership

Model of `crates/bootty-mux/src/session_membership.rs`. Membership and order are one list. A
`&mut self` method that reports whether it changed anything returns the changed list, and
`none` for `false`, which never comes with a change.
-/

namespace Bootty.Mux

open Bootty.Base

/-! ### Equality of checkpoints -/

section Equality

variable {K : Type} [DecidableEq K]

mutual

/-- Layouts are compared node by node. -/
protected def MuxPaneLayout.decEq : (a b : MuxPaneLayout K) → Decidable (a = b)
  | .pane a, .pane b =>
    if h : a = b then isTrue (h ▸ rfl) else isFalse fun e ↦ h (MuxPaneLayout.pane.inj e)
  | .split d ws cs, .split d' ws' cs' =>
    if hd : d = d' then
      if hw : ws = ws' then
        match MuxPaneLayout.decEqList cs cs' with
        | isTrue hc => isTrue (by rw [hd, hw, hc])
        | isFalse hc => isFalse fun e ↦ hc (MuxPaneLayout.split.inj e).2.2
      else isFalse fun e ↦ hw (MuxPaneLayout.split.inj e).2.1
    else isFalse fun e ↦ hd (MuxPaneLayout.split.inj e).1
  | .pane _, .split _ _ _ => isFalse fun e ↦ nomatch e
  | .split _ _ _, .pane _ => isFalse fun e ↦ nomatch e

/-- Children are compared one by one. -/
protected def MuxPaneLayout.decEqList : (as bs : List (MuxPaneLayout K)) → Decidable (as = bs)
  | [], [] => isTrue rfl
  | a :: as, b :: bs =>
    match MuxPaneLayout.decEq a b with
    | isTrue h =>
      match MuxPaneLayout.decEqList as bs with
      | isTrue hs => isTrue (by rw [h, hs])
      | isFalse hs => isFalse fun e ↦ hs (List.cons.inj e).2
    | isFalse h => isFalse fun e ↦ h (List.cons.inj e).1
  | [], _ :: _ => isFalse fun e ↦ nomatch e
  | _ :: _, [] => isFalse fun e ↦ nomatch e

end

/-- Equality of layouts is decidable. -/
instance : DecidableEq (MuxPaneLayout K) := MuxPaneLayout.decEq

end Equality

deriving instance DecidableEq for SavedTerminalWindow, SavedTerminalSession

/-! ### Sessions -/

/-- `session_membership.rs:11–22`. -/
structure SessionState where
  pinned : Bool := false
  /-- Absolute UTC seconds of accepted input. -/
  lastActivityAt : Option Int := none
  projectless : Bool := false
  /-- The server process on which the session was last observed attached. -/
  serverGeneration : Option Nat := none
  deriving DecidableEq

/-- A change that moves no session. -/
inductive SessionStateChange where
  | setPinned (pinned : Bool)
  | recordActivity (time now : Int)

/-- One session a Space claims, `session_membership.rs:30–47`. -/
structure WorkspaceSession (K : Type) where
  identity : String
  backendName : String
  displayName : String
  explicit : Bool
  cwd : String
  state : SessionState
  terminalSnapshot : Option (SavedTerminalSession K)
  deriving DecidableEq

/-- The sessions one Space claims, in sidebar order. -/
abbrev SessionMembership (K : Type) := List (WorkspaceSession K)

section Membership

variable {K : Type}

/-- `label.split_once('/')`: the prefix a label shares with its siblings. -/
def labelGroup (label : String) : String :=
  if label.toList.contains '/' then String.ofList (label.toList.takeWhile (· != '/')) else ""

/-- `session_membership.rs:52–58`. -/
def WorkspaceSession.label (session : WorkspaceSession K) : String :=
  if session.displayName = "" then session.backendName else session.displayName

/-- The group of a session. -/
def WorkspaceSession.group (session : WorkspaceSession K) : String := labelGroup session.label

namespace SessionMembership

/-- `get`. -/
def get (m : SessionMembership K) (identity : String) : Option (WorkspaceSession K) :=
  m.find? (·.identity == identity)

/-- `contains`. -/
def contains (m : SessionMembership K) (identity : String) : Bool := (m.get identity).isSome

/-- `backend_names`. -/
def backendNames (m : SessionMembership K) : List String := m.map (·.backendName)

/-- `position`. -/
def position (m : SessionMembership K) (identity : String) : Option Nat :=
  m.findIdx? (·.identity == identity)

/-- `Iterator::rposition`: the last position whose element passes. -/
def rposition (p : WorkspaceSession K → Bool) (m : SessionMembership K) : Option Nat :=
  (m.reverse.findIdx? p).map fun i ↦ m.length - 1 - i

/-- `session_membership.rs:103–124`: a session joins its group, or the end of the list. -/
def claim (m : SessionMembership K) (session : WorkspaceSession K) :
    Option (SessionMembership K) :=
  if session.identity = "" ∨ m.contains session.identity then none
  else
    let last := if session.group = "" then none else rposition (·.group == session.group) m
    some (m.insertIdx ((last.map (· + 1)).getD m.length) session)

/-- `session_membership.rs:127–133`: the session dropped, and the others. -/
def release (m : SessionMembership K) (identity : String) :
    Option (WorkspaceSession K × SessionMembership K) :=
  (m.position identity).bind fun i ↦ m[i]?.map fun session ↦ (session, m.eraseIdx i)

/-- `session_mut`: change the session of an identity, if that changes it. -/
def update [DecidableEq K] (m : SessionMembership K) (identity : String)
    (f : WorkspaceSession K → WorkspaceSession K) : Option (SessionMembership K) :=
  (m.get identity).bind fun session ↦
    if f session = session then none else some (modifyFirst (·.identity == identity) f m)

variable [DecidableEq K]

/-- `session_membership.rs:136–145`. -/
def observeBackendName (m : SessionMembership K) (identity backendName : String) :
    Option (SessionMembership K) :=
  m.update identity fun session ↦ { session with backendName }

/-- `session_membership.rs:152–162`. -/
def setDisplayName (m : SessionMembership K) (identity displayName : String) (explicit : Bool) :
    Option (SessionMembership K) :=
  m.update identity fun session ↦ { session with displayName, explicit }

/-- `session_membership.rs:164–173`. -/
def setCwd (m : SessionMembership K) (identity cwd : String) : Option (SessionMembership K) :=
  m.update identity fun session ↦ { session with cwd }

/-- `session_membership.rs:175–188`. -/
def setTerminalSnapshot (m : SessionMembership K) (identity : String)
    (snapshot : SavedTerminalSession K) : Option (SessionMembership K) :=
  m.update identity fun session ↦ { session with terminalSnapshot := some snapshot }

/-- `session_membership.rs:197–209`: an activity counts when it is no later than the clock
and later than the last one. -/
def changeState (state : SessionState) : SessionStateChange → SessionState
  | .setPinned pinned => { state with pinned }
  | .recordActivity time now =>
    if 0 ≤ time ∧ time ≤ now ∧ state.lastActivityAt.all (· < time) then
      { state with lastActivityAt := some time }
    else state

/-- `session_membership.rs:191–211`. -/
def setState (m : SessionMembership K) (identity : String) (change : SessionStateChange) :
    Option (SessionMembership K) :=
  m.update identity fun session ↦ { session with state := changeState session.state change }

omit [DecidableEq K] in
/-- `session_membership.rs:147–151`. -/
def observeServerGeneration (m : SessionMembership K) (identity : String)
    (generation : Option Nat) : SessionMembership K :=
  modifyFirst (·.identity == identity)
    (fun session ↦ { session with
      state := { session.state with serverGeneration := generation } }) m

end SessionMembership

/-! ### Order -/

namespace SessionMembership

/-- `session_membership.rs:275–290`: the span `index` belongs to, its whole group or just
itself when it is ungrouped. -/
def block (m : SessionMembership K) (group : String) (index : Nat) : Option (Nat × Nat) :=
  if index < m.length then
    if group = "" then some (index, index + 1)
    else
      let preceding := ((m.take index).reverse.takeWhile (·.group == group)).length
      let following := ((m.drop index).takeWhile (·.group == group)).length
      some (index - preceding, index + following)
  else none

/-- `block_start`. -/
def blockStart (m : SessionMembership K) (index : Nat) : Option Nat :=
  m[index]?.bind fun session ↦ (m.block session.group index).map Prod.fst

/-- `block_end`. -/
def blockEnd (m : SessionMembership K) (index : Nat) : Option Nat :=
  m[index]?.bind fun session ↦
    ((m.block session.group index).map Prod.snd).filter (· < m.length)

/-- `session_membership.rs:303–312`. -/
def moveWithinGroup (m : SessionMembership K) (start : Nat) (anchor : Option Nat) :
    Option (SessionMembership K) :=
  let target := anchor.getD m.length
  let insertAt := if target > start then target - 1 else target
  if insertAt = start then none
  else m[start]?.map fun session ↦ (m.eraseIdx start).insertIdx insertAt session

/-- `session_membership.rs:315–333`: lift the block of `index` out and put it back at the
block of `anchor`. -/
def moveBlock (m : SessionMembership K) (group : String) (index : Nat) (anchor : Option Nat) :
    Option (SessionMembership K) :=
  (m.block group index).bind fun (start, stop) ↦
    let insertAt := (anchor.bind m.blockStart).getD m.length
    if start ≤ insertAt ∧ insertAt ≤ stop then none
    else
      let block := (m.take stop).drop start
      let rest := m.take start ++ m.drop stop
      let insertAt := if insertAt > start then insertAt - block.length else insertAt
      some (rest.take insertAt ++ block ++ rest.drop insertAt)

/-- The position to move before; a missing identity ends the move. -/
def anchorOf (m : SessionMembership K) : Option String → Option (Option Nat)
  | some before => (m.position before).map some
  | none => some none

/-- The position one place up or down. -/
def neighbourOf (m : SessionMembership K) (start : Nat) (delta : Int) : Option Nat :=
  if delta < 0 then (if start = 0 then none else some (start - 1))
  else (if start + 1 < m.length then some (start + 1) else none)

/-- `session_membership.rs:217–241`: dragging a session past another group takes its whole
group with it. -/
def moveBefore (m : SessionMembership K) (source : String) (before : Option String) :
    Option (SessionMembership K) := do
  let start ← m.position source
  let anchor ← m.anchorOf before
  let session ← m[start]?
  let beside := (anchor.bind (m[·]?)).any fun other ↦ other.group == session.group
  if session.group ≠ "" ∧ beside then m.moveWithinGroup start anchor
  else m.moveBlock session.group start anchor

/-- `session_membership.rs:244–273`: one place, past the neighbour's whole block when that is
another group. -/
def moveBy (m : SessionMembership K) (identity : String) (delta : Int) :
    Option (SessionMembership K) :=
  if delta = 0 then none
  else do
    let start ← m.position identity
    let neighbour ← m.neighbourOf start delta
    let source ← m[start]?
    let other ← m[neighbour]?
    if source.group ≠ "" ∧ other.group = source.group then
      some ((m.set start other).set neighbour source)
    else
      m.moveBlock source.group start
        (if delta < 0 then m.blockStart neighbour else m.blockEnd neighbour)

end SessionMembership

/-! ### What an operation claims -/

namespace SessionMembership

/-- The identities, in their order. -/
def identities (m : SessionMembership K) : List String := m.map (·.identity)

/-- The second list claims no identity twice if the first does not, and none beyond the
first and `added`. -/
structure Claims (added : List String) (m m' : SessionMembership K) : Prop where
  nodup : m.identities.Nodup → m'.identities.Nodup
  subset : ∀ identity ∈ m'.identities, identity ∈ added ∨ identity ∈ m.identities

namespace Claims

variable {added : List String} {m m' m'' : SessionMembership K}

theorem refl (m : SessionMembership K) : Claims added m m := ⟨id, fun _ ↦ .inr⟩

/-- Claims add up. -/
theorem trans (h : Claims added m m') (h' : Claims added m' m'') : Claims added m m'' := by
  refine ⟨fun hm ↦ h'.nodup (h.nodup hm), ?_⟩
  intro identity hidentity
  rcases h'.subset identity hidentity with hadded | hidentity
  · exact .inl hadded
  · exact h.subset identity hidentity

theorem mono {more : List String} (h : Claims added m m') (hmore : added ⊆ more) :
    Claims more m m' := by
  refine ⟨h.nodup, fun identity hidentity ↦ ?_⟩
  rcases h.subset identity hidentity with hadded | hidentity
  · exact .inl (hmore hadded)
  · exact .inr hidentity

/-- A release claims nothing. -/
theorem of_sublist (h : m'.Sublist m) : Claims added m m' :=
  ⟨fun hm ↦ (h.map _).nodup hm, fun _ hidentity ↦ .inr ((h.map _).subset hidentity)⟩

theorem of_perm (h : m'.Perm m) : Claims added m m' :=
  ⟨fun hm ↦ (h.map _).nodup_iff.mpr hm, fun _ hidentity ↦ .inr ((h.map _).mem_iff.mp hidentity)⟩

theorem of_identities (h : m'.identities = m.identities) : Claims added m m' :=
  ⟨fun hm ↦ h ▸ hm, fun _ hidentity ↦ .inr (h ▸ hidentity)⟩

/-- An operation that may report no change. -/
theorem getD {o : Option (SessionMembership K)} (h : ∀ m', o = some m' → Claims added m m') :
    Claims added m (o.getD m) := by
  cases o with
  | none => exact refl m
  | some m' => exact h m' rfl

end Claims

variable {identity : String}

theorem get_eq_none {m : SessionMembership K} :
    m.get identity = none ↔ identity ∉ m.identities := by
  simp [get, identities]

/-- What is contained is listed. -/
theorem contains_iff {m : SessionMembership K} :
    m.contains identity = true ↔ identity ∈ m.identities := by
  cases hget : m.get identity with
  | none =>
    have hnot := get_eq_none.mp hget
    simp [contains, hget, hnot]
  | some session =>
    have hin : identity ∈ m.identities := by
      by_contra hnot
      rw [get_eq_none.mpr hnot] at hget
      cases hget
    simp [contains, hget, hin]

variable {session : WorkspaceSession K}

/-- A claim adds one session of a new identity. -/
theorem perm_claim {m m' : SessionMembership K} (h : m.claim session = some m') :
    m'.Perm (session :: m) ∧ session.identity ∉ m.identities := by
  simp only [claim] at h
  split at h
  · cases h
  · next hfree =>
    obtain rfl := Option.some.inj h
    generalize hposition : (Option.map (· + 1) _).getD m.length = position
    have hle : position ≤ m.length := by
      rw [← hposition]
      split
      · simp
      · cases hlast : rposition (fun x ↦ x.group == session.group) m with
        | none => simp
        | some last =>
          simp only [rposition, Option.map_eq_some_iff] at hlast
          obtain ⟨i, hi, rfl⟩ := hlast
          have hlt := (List.findIdx?_eq_some_iff_getElem.mp hi).1
          simp only [List.length_reverse] at hlt
          simp only [Option.map_some, Option.getD_some]
          omega
    refine ⟨List.perm_insertIdx session m hle, ?_⟩
    intro hin
    exact hfree (.inr (contains_iff.mpr hin))

/-- What a claim adds. -/
theorem claims_claim {m m' : SessionMembership K} (h : m.claim session = some m') :
    Claims [session.identity] m m' := by
  obtain ⟨hperm, hfresh⟩ := perm_claim h
  have hids : m'.identities.Perm (session.identity :: m.identities) := hperm.map _
  constructor
  · intro hm
    exact hids.nodup_iff.mpr (List.nodup_cons.mpr ⟨hfresh, hm⟩)
  · intro identity hidentity
    simpa using hids.mem_iff.mp hidentity

/-- A release takes one session out. -/
theorem perm_release {m m' : SessionMembership K} (h : m.release identity = some (session, m')) :
    m.Perm (session :: m') := by
  simp only [release, Option.bind_eq_some_iff, Option.map_eq_some_iff, Prod.mk.injEq] at h
  obtain ⟨i, -, found, hfound, rfl, rfl⟩ := h
  obtain ⟨before, after, rfl, rfl⟩ := exists_split_of_getElem? hfound
  rw [eraseIdx_split]
  exact List.perm_middle

/-- A released identity was claimed, and with distinct identities it is gone. -/
theorem release_eq_some {m m' : SessionMembership K} (h : m.release identity = some (session, m')) :
    session ∈ m ∧ session.identity = identity ∧ m'.Sublist m ∧
      (m.identities.Nodup → identity ∉ m'.identities) := by
  simp only [release, position, Option.bind_eq_some_iff, Option.map_eq_some_iff,
    Prod.mk.injEq] at h
  obtain ⟨i, hi, found, hfound, rfl, rfl⟩ := h
  obtain ⟨a, ha, hidentity⟩ := getElem?_of_findIdx? hi
  obtain rfl : a = found := Option.some.inj (ha.symm.trans hfound)
  have hsame : a.identity = identity := by simpa using hidentity
  refine ⟨List.mem_of_getElem? hfound, hsame, List.eraseIdx_sublist m i, ?_⟩
  intro hnodup
  obtain ⟨before, after, rfl, rfl⟩ := exists_split_of_getElem? hfound
  rw [eraseIdx_split, ← hsame]
  simp only [identities, List.map_append, List.map_cons, List.nodup_middle,
    List.nodup_cons] at hnodup
  simpa [identities] using hnodup.1

theorem claims_release (m : SessionMembership K) (identity : String) (added : List String) :
    Claims added m (((m.release identity).map Prod.snd).getD m) := by
  apply Claims.getD
  intro m' hm'
  obtain ⟨⟨session, rest⟩, hrelease, rfl⟩ := Option.map_eq_some_iff.mp hm'
  exact Claims.of_sublist (release_eq_some hrelease).2.2.1

/-! Changes of one session -/

/-- A change of other fields keeps the identities. -/
theorem identities_modifyFirst {p : WorkspaceSession K → Bool}
    {f : WorkspaceSession K → WorkspaceSession K} (hf : ∀ session, (f session).identity =
      session.identity) (m : SessionMembership K) :
    identities (modifyFirst p f m) = m.identities :=
  map_modifyFirst hf m

theorem claims_update [DecidableEq K] {m m' : SessionMembership K}
    {f : WorkspaceSession K → WorkspaceSession K} (added : List String)
    (h : m.update identity f = some m') (hf : ∀ session, (f session).identity = session.identity) :
    Claims added m m' := by
  simp only [update, Option.bind_eq_some_iff] at h
  obtain ⟨session, -, hchanged⟩ := h
  split at hchanged
  · cases hchanged
  · obtain rfl := Option.some.inj hchanged
    exact Claims.of_identities (identities_modifyFirst hf m)

/-! Moves -/

private theorem perm_moveWithinGroup {m m' : SessionMembership K} {start : Nat}
    {anchor : Option Nat}
    (hanchor : ∀ i, anchor = some i → i < m.length)
    (h : m.moveWithinGroup start anchor = some m') : m'.Perm m := by
  have htarget : anchor.getD m.length ≤ m.length := by
    cases anchor with
    | none => exact Nat.le_refl _
    | some i => exact Nat.le_of_lt (hanchor i rfl)
  unfold moveWithinGroup at h
  dsimp only at h
  generalize hinsert : (if anchor.getD m.length > start then anchor.getD m.length - 1
    else anchor.getD m.length) = insertAt at h
  split at h
  · cases h
  · obtain ⟨session, hsession, rfl⟩ := Option.map_eq_some_iff.mp h
    have hstart : start < m.length := (List.getElem?_eq_some_iff.mp hsession).1
    apply perm_insertIdx_eraseIdx hsession
    rw [← hinsert]
    split
    · omega
    · omega

private theorem perm_reinsert {α : Type} (l : List α) {start stop : Nat} (hle : start ≤ stop)
    (insertAt : Nat) :
    ((l.take start ++ l.drop stop).take insertAt ++ (l.take stop).drop start ++
      (l.take start ++ l.drop stop).drop insertAt).Perm l := by
  have htake : l.take start ++ (l.take stop).drop start = l.take stop := by
    have hsplit := List.take_append_drop start (l.take stop)
    rwa [List.take_take, Nat.min_eq_left hle] at hsplit
  have hrest : ((l.take start ++ l.drop stop).take insertAt ++ (l.take stop).drop start ++
      (l.take start ++ l.drop stop).drop insertAt).Perm
      ((l.take stop).drop start ++ (l.take start ++ l.drop stop)) := by
    refine (List.perm_append_comm.append_right _).trans ?_
    rw [List.append_assoc, List.take_append_drop]
  refine hrest.trans ?_
  rw [← List.append_assoc]
  refine (List.perm_append_comm.append_right _).trans ?_
  rw [htake, List.take_append_drop]

private theorem perm_moveBlock {m m' : SessionMembership K} {group : String} {index : Nat}
    {anchor : Option Nat} (h : m.moveBlock group index anchor = some m') : m'.Perm m := by
  simp only [moveBlock, Option.bind_eq_some_iff] at h
  obtain ⟨⟨start, stop⟩, hblock, hmoved⟩ := h
  have hle : start ≤ stop := by
    simp only [block] at hblock
    split at hblock
    · split at hblock
      · obtain ⟨rfl, rfl⟩ := Prod.mk.inj (Option.some.inj hblock)
        omega
      · obtain ⟨rfl, rfl⟩ := Prod.mk.inj (Option.some.inj hblock)
        omega
    · cases hblock
  split at hmoved
  · cases hmoved
  · obtain rfl := Option.some.inj hmoved
    exact perm_reinsert m hle _

/-- `move_before` only permutes the list. -/
theorem perm_moveBefore {m m' : SessionMembership K} {source : String} {before : Option String}
    (h : m.moveBefore source before = some m') : m'.Perm m := by
  simp only [moveBefore, Option.bind_eq_bind, Option.bind_eq_some_iff] at h
  obtain ⟨start, -, anchor, hanchor, session, -, hmoved⟩ := h
  split at hmoved
  · apply perm_moveWithinGroup _ hmoved
    rintro i rfl
    cases before with
    | none => cases hanchor
    | some target =>
      obtain ⟨j, hj, heq⟩ := Option.map_eq_some_iff.mp hanchor
      obtain rfl := Option.some.inj heq
      exact (List.findIdx?_eq_some_iff_getElem.mp hj).1
  · exact perm_moveBlock hmoved

private theorem perm_swap {α : Type} {l : List α} {i j : Nat} {a b : α} (hi : l[i]? = some a)
    (hj : l[j]? = some b) : ((l.set i b).set j a).Perm l := by
  obtain ⟨hilt, rfl⟩ := List.getElem?_eq_some_iff.mp hi
  obtain ⟨hjlt, rfl⟩ := List.getElem?_eq_some_iff.mp hj
  exact List.set_set_perm hilt hjlt

/-- `move_by` only permutes the list. -/
theorem perm_moveBy {m m' : SessionMembership K} {delta : Int}
    (h : m.moveBy identity delta = some m') : m'.Perm m := by
  simp only [moveBy] at h
  split at h
  · cases h
  · simp only [Option.bind_eq_bind, Option.bind_eq_some_iff] at h
    obtain ⟨start, -, neighbour, -, source, hsource, other, hother, hmoved⟩ := h
    split at hmoved
    · obtain rfl := Option.some.inj hmoved
      exact perm_swap hsource hother
    · exact perm_moveBlock hmoved

end SessionMembership

end Membership

end Bootty.Mux
