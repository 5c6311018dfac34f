import Mathlib.Data.List.Sort
import Bootty.Mux.SessionMembership

/-!
# Saved membership

Model of the membership part of `crates/bootty-mux/src/repository.rs` and of
`repository/snapshot.rs:61–143`. SQLite is a table of rows: a transaction that fails leaves
the table as it was, `identity` is the primary key and a session row belongs to a Space. The
JSON texts of a row's state and checkpoint are the values they encode. The other columns of a
Space and the path in a database error are left out.
-/

namespace Bootty.Mux

open Bootty.Base

/-- `controller.rs:294`, a row id of `workspace_spaces`. -/
abbrev SpaceId := Int

/-- A saved membership change, `repository.rs:59–75`. -/
inductive BindingMembershipMutation where
  | create (identity sessionName displayName : String) (explicit : Bool) (cwd : String)
      (initialState : SessionState)
  | rename (identity newName displayName : String) (explicit : Bool)

/-- The session that is created or renamed. -/
def BindingMembershipMutation.identity : BindingMembershipMutation → String
  | .create identity _ _ _ _ _ => identity
  | .rename identity _ _ _ => identity

/-- `value.contains('\0')`. -/
def hasNul (value : String) : Bool := value.toList.contains (Char.ofNat 0)

/-- `repository.rs:845`. -/
def validText (value : String) : Bool := value != "" && !hasNul value

/-- `repository.rs:842–868`. -/
def validateBindingMembershipMutation : BindingMembershipMutation → Except String Unit
  | .create identity sessionName displayName _ cwd initialState =>
    ensure (validText identity && validText sessionName && !hasNul displayName && !hasNul cwd &&
        initialState.lastActivityAt.all (0 ≤ ·))
      "binding membership mutation is invalid"
  | .rename identity newName displayName _ =>
    ensure (validText identity && validText newName && validText displayName)
      "binding membership mutation is invalid"

section Apply

variable {K : Type} [DecidableEq K]

/-- The two writes that both mutations end with; an unchanged session stays as it is. -/
def nameSession (identity backendName displayName : String) (explicit : Bool)
    (sessions : SessionMembership K) : SessionMembership K :=
  let sessions := (sessions.observeBackendName identity backendName).getD sessions
  (sessions.setDisplayName identity displayName explicit).getD sessions

/-- `repository.rs:882–924`: keyed on the identity, so it lands on the session it was issued
for even if the name moved on in between. -/
def applyBindingMembershipMutation (mutation : BindingMembershipMutation)
    (sessions : SessionMembership K) : Except String (SessionMembership K) :=
  match mutation with
  | .create identity sessionName displayName explicit cwd initialState =>
    let claimed := (sessions.claim
      { identity, backendName := sessionName, displayName, explicit, cwd, state := initialState,
        terminalSnapshot := none }).getD sessions
    .ok (nameSession identity sessionName displayName explicit claimed)
  | .rename identity newName displayName explicit => do
    ensure (sessions.contains identity)
      "apply binding membership: renamed session is not claimed by this Space"
    pure (nameSession identity newName displayName explicit sessions)

end Apply

/-! ### The database -/

/-- A row of `workspace_sessions`, `repository/schema.rs:138–149`. -/
structure SessionRow (K : Type) where
  identity : String
  spaceId : SpaceId
  backendName : String
  displayName : String
  explicit : Bool
  cwd : String
  state : SessionState
  terminalSnapshot : Option (SavedTerminalSession K)
  position : Nat

/-- The rows of `workspace_spaces` and `workspace_sessions`. -/
structure WorkspaceRepository (K : Type) where
  spaces : List SpaceId
  rows : List (SessionRow K)

section Database

variable {K : Type}

/-- The session of a row. -/
def SessionRow.session (row : SessionRow K) : WorkspaceSession K :=
  { identity := row.identity, backendName := row.backendName, displayName := row.displayName,
    explicit := row.explicit, cwd := row.cwd, state := row.state,
    terminalSnapshot := row.terminalSnapshot }

namespace WorkspaceRepository

/-- `ORDER BY position` over the rows of one Space, `repository/snapshot.rs:71–121`. -/
def membership (repository : WorkspaceRepository K) (scope : SpaceId) : SessionMembership K :=
  ((repository.rows.filter (·.spaceId == scope)).insertionSort
    fun a b ↦ a.position ≤ b.position).map SessionRow.session

/-- The checkpoint a session is written with, `repository.rs:740`: that of the table wins. -/
def storedSnapshot (rows : List (SessionRow K)) (session : WorkspaceSession K) :
    Option (SavedTerminalSession K) :=
  match rows.find? (·.identity == session.identity) with
  | some row => row.terminalSnapshot
  | none => session.terminalSnapshot

variable [Scalar K]

/-- `repository.rs:707–716`. -/
def checkSnapshot (host : Host) (session : WorkspaceSession K) : Except String Unit :=
  match session.terminalSnapshot with
  | some snapshot => do
    snapshot.validate host
    ensure (snapshot.sessionId == session.identity)
      "checkpoint logical identity does not match its owner"
  | none => .ok ()

/-- The loop of `write_binding_state`, `repository.rs:706–744`. `before` are the rows that the
transaction started from, `rows` those it has written. -/
def insertSessions (host : Host) (scope : SpaceId) (before : List (SessionRow K)) :
    Nat → List (WorkspaceSession K) → List (SessionRow K) → Except String (List (SessionRow K))
  | _, [], rows => .ok rows
  | position, session :: rest, rows => do
    checkSnapshot host session
    ensure (position < 2 ^ 63) "session position exceeds the database range"
    ensure (rows.all (·.identity != session.identity)) "insert persisted session"
    insertSessions host scope before (position + 1) rest
      (rows ++ [{ identity := session.identity, spaceId := scope
                  backendName := session.backendName, displayName := session.displayName
                  explicit := session.explicit, cwd := session.cwd, state := session.state
                  terminalSnapshot := storedSnapshot before session, position }])

/-- `repository.rs:672–746`: replace the rows of one Space. -/
def writeBindingState (host : Host) (repository : WorkspaceRepository K) (scope : SpaceId)
    (sessions : SessionMembership K) : Except String (WorkspaceRepository K) := do
  ensure (repository.spaces.contains scope)
    ("commit binding state: Space " ++ toString scope ++ " is gone")
  let rows ← insertSessions host scope repository.rows 0 sessions
    (repository.rows.filter (·.spaceId != scope))
  pure { repository with rows }

/-- The session check of `validate_binding_states`, `repository.rs:650–668`. -/
def validSession (session : WorkspaceSession K) : Bool :=
  validText session.identity && validText session.backendName && !hasNul session.displayName &&
    !hasNul session.cwd && session.state.lastActivityAt.all (0 ≤ ·)

/-- `repository.rs:639–670`; the sets of scopes and identities seen are lists. -/
def validateBindingStates : List SpaceId → List (SpaceId × SessionMembership K) → Except String Unit
  | _, [] => .ok ()
  | seen, (scope, sessions) :: rest => do
    ensure (!seen.contains scope)
      ("validate binding state: Space " ++ toString scope ++ " is listed twice")
    ensure (sessions.all validSession && decide (sessions.map (·.identity)).Nodup)
      "validate binding state: session membership is invalid or duplicated"
    validateBindingStates (scope :: seen) rest

/-- `repository.rs:613–637`: several candidates in one transaction. -/
def commitBindingStates (host : Host) (repository : WorkspaceRepository K)
    (states : List (SpaceId × SessionMembership K)) : Except String (WorkspaceRepository K) := do
  validateBindingStates [] states
  states.foldlM (fun repository state ↦ repository.writeBindingState host state.1 state.2)
    repository

/-- `repository.rs:592–611`: the next table, and the membership written. -/
def commitBindingMembershipMutation [DecidableEq K] (host : Host)
    (repository : WorkspaceRepository K) (scope : SpaceId) (mutation : BindingMembershipMutation)
    (sessions : SessionMembership K) :
    Except String (WorkspaceRepository K × SessionMembership K) := do
  validateBindingMembershipMutation mutation
  let next ← applyBindingMembershipMutation mutation sessions
  let repository ← repository.writeBindingState host scope next
  pure (repository, next)

end WorkspaceRepository

/-! ### What a commit writes -/

/-- The columns of a saved session without its names on the backend and its checkpoint. -/
structure SavedSession where
  identity : String
  displayName : String
  explicit : Bool
  cwd : String
  state : SessionState
  deriving DecidableEq

/-- What is saved of a session. -/
def WorkspaceSession.saved (session : WorkspaceSession K) : SavedSession :=
  { identity := session.identity, displayName := session.displayName
    explicit := session.explicit, cwd := session.cwd, state := session.state }

/-- What is saved of a membership. -/
def SessionMembership.saved (sessions : SessionMembership K) : List SavedSession :=
  sessions.map WorkspaceSession.saved

/-- The rows written for a membership. -/
def sessionRows (scope : SpaceId) (before : List (SessionRow K)) :
    Nat → SessionMembership K → List (SessionRow K)
  | _, [] => []
  | position, session :: rest =>
    { identity := session.identity, spaceId := scope, backendName := session.backendName
      displayName := session.displayName, explicit := session.explicit, cwd := session.cwd
      state := session.state
      terminalSnapshot := WorkspaceRepository.storedSnapshot before session, position } ::
      sessionRows scope before (position + 1) rest

private theorem saved_sessionRows (scope : SpaceId) (before : List (SessionRow K)) (position : Nat)
    (sessions : SessionMembership K) :
    ((sessionRows scope before position sessions).map SessionRow.session).map
      WorkspaceSession.saved = sessions.saved := by
  induction sessions generalizing position with
  | nil => rfl
  | cons session rest ih =>
    simp only [sessionRows, List.map_cons, ih]
    rfl

variable {before : List (SessionRow K)} {position : Nat} {row : SessionRow K}

private theorem spaceId_sessionRows {scope : SpaceId} {sessions : SessionMembership K}
    (h : row ∈ sessionRows scope before position sessions) : row.spaceId = scope := by
  induction sessions generalizing position with
  | nil => cases h
  | cons session rest ih =>
    rcases List.mem_cons.mp h with rfl | h
    · rfl
    · exact ih h

private theorem le_position_of_mem {scope : SpaceId} {sessions : SessionMembership K}
    (h : row ∈ sessionRows scope before position sessions) : position ≤ row.position := by
  induction sessions generalizing position with
  | nil => cases h
  | cons session rest ih =>
    rcases List.mem_cons.mp h with rfl | h
    · exact Nat.le_refl _
    · exact Nat.le_of_succ_le (ih h)

private theorem pairwise_sessionRows (scope : SpaceId) (before : List (SessionRow K))
    (position : Nat) (sessions : SessionMembership K) :
    (sessionRows scope before position sessions).Pairwise
      fun a b ↦ a.position ≤ b.position := by
  induction sessions generalizing position with
  | nil => exact List.Pairwise.nil
  | cons session rest ih =>
    apply List.Pairwise.cons
    · intro row hrow
      exact Nat.le_of_succ_le (le_position_of_mem hrow)
    · exact ih (position + 1)

namespace WorkspaceRepository

/-- The saved membership of a Space. -/
def saved (repository : WorkspaceRepository K) (scope : SpaceId) : List SavedSession :=
  (repository.membership scope).saved

private theorem filter_sessionRows_self (scope : SpaceId) (before : List (SessionRow K))
    (sessions : SessionMembership K) :
    (sessionRows scope before 0 sessions).filter (·.spaceId == scope) =
      sessionRows scope before 0 sessions := by
  rw [List.filter_eq_self]
  intro row hrow
  exact beq_iff_eq.mpr (spaceId_sessionRows hrow)

variable {states : List (SpaceId × SessionMembership K)}

private theorem nodup_of_validate {seen : List SpaceId}
    (h : validateBindingStates seen states = .ok ()) :
    (states.map Prod.fst).Nodup ∧ ∀ scope ∈ seen, scope ∉ states.map Prod.fst := by
  induction states generalizing seen with
  | nil => exact ⟨List.nodup_nil, fun _ _ ↦ List.not_mem_nil⟩
  | cons state rest ih =>
    simp only [validateBindingStates, bind_eq_ok, ensure_eq_ok] at h
    obtain ⟨_, hfresh, _, -, hrest⟩ := h
    obtain ⟨hnodup, hseen⟩ := ih hrest
    have hhead : state.1 ∉ seen := by simpa using hfresh
    constructor
    · exact List.nodup_cons.mpr ⟨hseen _ List.mem_cons_self, hnodup⟩
    · intro scope hscope hmem
      rcases List.mem_cons.mp hmem with rfl | hmem
      · exact hhead hscope
      · exact hseen scope (List.mem_cons_of_mem _ hscope) hmem

variable [Scalar K]

variable {rows : List (SessionRow K)}

private theorem insertSessions_eq_ok {host : Host} {scope : SpaceId}
    {sessions : SessionMembership K}
    {rows' : List (SessionRow K)}
    (h : insertSessions host scope before position sessions rows = .ok rows') :
    rows' = rows ++ sessionRows scope before position sessions := by
  induction sessions generalizing position rows with
  | nil =>
    simp only [insertSessions, Except.ok.injEq] at h
    simp [sessionRows, h]
  | cons session rest ih =>
    simp only [insertSessions, bind_eq_ok, ensure_eq_ok] at h
    obtain ⟨_, -, _, -, _, -, hrest⟩ := h
    rw [ih hrest, sessionRows, List.append_assoc]
    rfl

/-- A write replaces the rows of its Space and keeps those of the others. -/
theorem writeBindingState_eq_ok {host : Host} {repository repository' : WorkspaceRepository K}
    {scope : SpaceId} {sessions : SessionMembership K}
    (h : repository.writeBindingState host scope sessions = .ok repository') :
    repository'.spaces = repository.spaces ∧
      repository'.rows = repository.rows.filter (·.spaceId != scope) ++
        sessionRows scope repository.rows 0 sessions := by
  simp only [writeBindingState, bind_eq_ok, ensure_eq_ok, pure_eq_ok] at h
  obtain ⟨_, -, rows, hrows, rfl⟩ := h
  exact ⟨rfl, insertSessions_eq_ok hrows⟩

/-- A Space has what was written. -/
theorem saved_writeBindingState {host : Host} {repository repository' : WorkspaceRepository K}
    {scope : SpaceId} {sessions : SessionMembership K}
    (h : repository.writeBindingState host scope sessions = .ok repository') :
    repository'.saved scope = sessions.saved := by
  have hrows := (writeBindingState_eq_ok h).2
  have hothers : (repository.rows.filter (·.spaceId != scope)).filter (·.spaceId == scope) = [] := by
    rw [List.filter_filter, List.filter_eq_nil_iff]
    intro row _
    simp
  simp only [saved, membership, hrows, List.filter_append, hothers, List.nil_append,
    filter_sessionRows_self]
  rw [List.Pairwise.insertionSort_eq (pairwise_sessionRows _ _ _ _)]
  exact saved_sessionRows _ _ _ _

/-- Another one keeps what it had. -/
theorem saved_writeBindingState_of_ne {host : Host}
    {repository repository' : WorkspaceRepository K} {scope other : SpaceId}
    {sessions : SessionMembership K}
    (h : repository.writeBindingState host scope sessions = .ok repository')
    (hne : other ≠ scope) : repository'.saved other = repository.saved other := by
  have hrows := (writeBindingState_eq_ok h).2
  have hkept : (repository.rows.filter (·.spaceId != scope)).filter (·.spaceId == other) =
      repository.rows.filter (·.spaceId == other) := by
    rw [List.filter_filter]
    apply List.filter_congr
    intro row _
    by_cases hrow : row.spaceId = other
    · simp [hrow, hne]
    · simp [hrow]
  have hnone : (sessionRows scope repository.rows 0 sessions).filter (·.spaceId == other) = [] := by
    rw [List.filter_eq_nil_iff]
    intro row hrow
    simpa [spaceId_sessionRows hrow] using fun he : scope = other ↦ hne he.symm
  simp only [saved, membership, hrows, List.filter_append, hkept, hnone, List.append_nil]

private theorem saved_foldlM {host : Host} (hnodup : (states.map Prod.fst).Nodup)
    {repository repository' : WorkspaceRepository K}
    (h : states.foldlM (fun repository state ↦ repository.writeBindingState host state.1 state.2)
      repository = .ok repository') :
    (∀ scope, scope ∉ states.map Prod.fst → repository'.saved scope = repository.saved scope) ∧
      ∀ state ∈ states, repository'.saved state.1 = state.2.saved := by
  induction states generalizing repository with
  | nil =>
    simp only [List.foldlM_nil, pure_eq_ok] at h
    simp [h]
  | cons state rest ih =>
    simp only [List.foldlM_cons, bind_eq_ok] at h
    obtain ⟨middle, hwrite, hrest⟩ := h
    obtain ⟨hfresh, hnodup⟩ := List.nodup_cons.mp hnodup
    obtain ⟨hothers, hwritten⟩ := ih hnodup hrest
    constructor
    · intro scope hscope
      rw [List.map_cons, List.mem_cons, not_or] at hscope
      rw [hothers scope hscope.2, saved_writeBindingState_of_ne hwrite hscope.1]
    · intro other hother
      rcases List.mem_cons.mp hother with rfl | hother
      · rw [hothers _ hfresh, saved_writeBindingState hwrite]
      · exact hwritten other hother

/-- A commit writes every candidate and keeps the Spaces without one. -/
theorem saved_commitBindingStates {host : Host} {repository repository' : WorkspaceRepository K}
    (h : repository.commitBindingStates host states = .ok repository') :
    (∀ scope, scope ∉ states.map Prod.fst → repository'.saved scope = repository.saved scope) ∧
      ∀ state ∈ states, repository'.saved state.1 = state.2.saved := by
  simp only [commitBindingStates, bind_eq_ok] at h
  obtain ⟨_, hvalid, hwrite⟩ := h
  exact saved_foldlM (nodup_of_validate hvalid).1 hwrite

/-! ### Keys and checkpoints -/

omit [Scalar K] in
private theorem mem_sessionRows {scope : SpaceId} {sessions : SessionMembership K}
    (h : row ∈ sessionRows scope before position sessions) :
    ∃ session ∈ sessions, row.identity = session.identity ∧
      row.terminalSnapshot = storedSnapshot before session := by
  induction sessions generalizing position with
  | nil => cases h
  | cons session rest ih =>
    rcases List.mem_cons.mp h with rfl | h
    · exact ⟨session, List.mem_cons_self, rfl, rfl⟩
    · obtain ⟨other, hother, hrow⟩ := ih h
      exact ⟨other, List.mem_cons_of_mem _ hother, hrow⟩

variable {session : WorkspaceSession K}

omit [Scalar K] in
private theorem exists_sessionRow (scope : SpaceId) (before : List (SessionRow K)) (position : Nat)
    {sessions : SessionMembership K} (h : session ∈ sessions) :
    ∃ row ∈ sessionRows scope before position sessions, row.identity = session.identity ∧
      row.terminalSnapshot = storedSnapshot before session := by
  induction sessions generalizing position with
  | nil => cases h
  | cons head rest ih =>
    rcases List.mem_cons.mp h with rfl | h
    · exact ⟨_, List.mem_cons_self, rfl, rfl⟩
    · obtain ⟨row, hrow, heq⟩ := ih (position + 1) h
      exact ⟨row, List.mem_cons_of_mem _ hrow, heq⟩

/-- `identity` is the primary key of the sessions. -/
def Keyed (repository : WorkspaceRepository K) : Prop :=
  (repository.rows.map (·.identity)).Nodup

omit [Scalar K] in
/-- One row has the identity. -/
theorem Keyed.eq {repository : WorkspaceRepository K} (h : repository.Keyed) {a b : SessionRow K}
    (ha : a ∈ repository.rows) (hb : b ∈ repository.rows) (hidentity : a.identity = b.identity) :
    a = b :=
  List.inj_on_of_nodup_map h ha hb hidentity

omit [Scalar K] in
theorem storedSnapshot_of_mem {repository : WorkspaceRepository K} (h : repository.Keyed)
    (hrow : row ∈ repository.rows) (hidentity : row.identity = session.identity) :
    storedSnapshot repository.rows session = row.terminalSnapshot := by
  cases hfind : repository.rows.find? (·.identity == session.identity) with
  | none =>
    have hnone := List.find?_eq_none.mp hfind row hrow
    simp [hidentity] at hnone
  | some found =>
    have hfound : found.identity = session.identity := by simpa using List.find?_some hfind
    have hsame := h.eq (List.mem_of_find?_eq_some hfind) hrow (hfound.trans hidentity.symm)
    rw [storedSnapshot, hfind, hsame]

omit [Scalar K] in
private theorem storedSnapshot_of_absent (h : ∀ row ∈ rows, row.identity ≠ session.identity) :
    storedSnapshot rows session = session.terminalSnapshot := by
  have hfind : rows.find? (·.identity == session.identity) = none := by
    apply List.find?_eq_none.mpr
    intro row hrow
    simpa using h row hrow
  rw [storedSnapshot, hfind]

private theorem nodup_insertSessions {host : Host} {scope : SpaceId}
    {sessions : SessionMembership K} {rows' : List (SessionRow K)}
    (h : insertSessions host scope before position sessions rows = .ok rows')
    (hrows : (rows.map (·.identity)).Nodup) : (rows'.map (·.identity)).Nodup := by
  induction sessions generalizing position rows with
  | nil =>
    simp only [insertSessions, Except.ok.injEq] at h
    rw [← h]
    exact hrows
  | cons session rest ih =>
    simp only [insertSessions, bind_eq_ok, ensure_eq_ok] at h
    obtain ⟨_, -, _, -, _, hfree, hrest⟩ := h
    apply ih hrest
    rw [List.map_append, List.map_singleton, List.nodup_append]
    refine ⟨hrows, List.nodup_singleton _, ?_⟩
    intro identity hidentity other hother heq
    obtain ⟨row, hrow, rfl⟩ := List.mem_map.mp hidentity
    have hne := List.all_eq_true.mp hfree row hrow
    simp [List.mem_singleton.mp hother] at heq
    simp [heq] at hne

/-- A write keeps the key. -/
theorem keyed_writeBindingState {host : Host} {repository repository' : WorkspaceRepository K}
    {scope : SpaceId} {sessions : SessionMembership K}
    (h : repository.writeBindingState host scope sessions = .ok repository')
    (hkeyed : repository.Keyed) : repository'.Keyed := by
  simp only [writeBindingState, bind_eq_ok, ensure_eq_ok, pure_eq_ok] at h
  obtain ⟨_, -, rows, hrows, rfl⟩ := h
  apply nodup_insertSessions hrows
  exact (List.filter_sublist.map _).nodup hkeyed

section Writes

variable {host : Host} {repository repository' : WorkspaceRepository K} {scope : SpaceId}
  {sessions : SessionMembership K}

/-- A row of the Space that is written: the checkpoint of the table wins over the live one. -/
theorem cases_writeBindingState
    (h : repository.writeBindingState host scope sessions = .ok repository')
    (hrow : row ∈ repository'.rows) :
    (row ∈ repository.rows ∧ row.spaceId ≠ scope) ∨
      row.spaceId = scope ∧ ∃ session ∈ sessions, row.identity = session.identity ∧
        row.terminalSnapshot = storedSnapshot repository.rows session := by
  rw [(writeBindingState_eq_ok h).2] at hrow
  rcases List.mem_append.mp hrow with hkept | hnew
  · obtain ⟨hmem, hother⟩ := List.mem_filter.mp hkept
    exact .inl ⟨hmem, by simpa using hother⟩
  · exact .inr ⟨spaceId_sessionRows hnew, mem_sessionRows hnew⟩

/-- Rows of other Spaces stay. -/
theorem mem_writeBindingState_of_ne
    (h : repository.writeBindingState host scope sessions = .ok repository')
    (hrow : row ∈ repository.rows) (hne : row.spaceId ≠ scope) :
    row ∈ repository'.rows := by
  rw [(writeBindingState_eq_ok h).2]
  apply List.mem_append_left
  exact List.mem_filter.mpr ⟨hrow, by simpa using hne⟩

theorem exists_row_writeBindingState
    (h : repository.writeBindingState host scope sessions = .ok repository')
    (hsession : session ∈ sessions) :
    ∃ row ∈ repository'.rows, row.spaceId = scope ∧ row.identity = session.identity ∧
      row.terminalSnapshot = storedSnapshot repository.rows session := by
  obtain ⟨row, hrow, heq⟩ := exists_sessionRow scope repository.rows 0 hsession
  refine ⟨row, ?_, spaceId_sessionRows hrow, heq⟩
  rw [(writeBindingState_eq_ok h).2]
  exact List.mem_append_right _ hrow

private theorem mem_of_untouched
    (h : states.foldlM (fun repository state ↦ repository.writeBindingState host state.1 state.2)
      repository = .ok repository') (hrow : row ∈ repository.rows)
    (hscope : row.spaceId ∉ states.map Prod.fst) : row ∈ repository'.rows := by
  induction states generalizing repository with
  | nil =>
    simp only [List.foldlM_nil, pure_eq_ok] at h
    rw [← h]
    exact hrow
  | cons state rest ih =>
    simp only [List.foldlM_cons, bind_eq_ok] at h
    obtain ⟨middle, hwrite, hrest⟩ := h
    rw [List.map_cons, List.mem_cons, not_or] at hscope
    exact ih hrest (mem_writeBindingState_of_ne hwrite hrow hscope.1) hscope.2

private theorem keyed_foldlM
    (h : states.foldlM (fun repository state ↦ repository.writeBindingState host state.1 state.2)
      repository = .ok repository') (hkeyed : repository.Keyed) : repository'.Keyed := by
  induction states generalizing repository with
  | nil =>
    simp only [List.foldlM_nil, pure_eq_ok] at h
    rw [← h]
    exact hkeyed
  | cons state rest ih =>
    simp only [List.foldlM_cons, bind_eq_ok] at h
    obtain ⟨middle, hwrite, hrest⟩ := h
    exact ih hrest (keyed_writeBindingState hwrite hkeyed)

private theorem inserted_of_absent (hnodup : (states.map Prod.fst).Nodup)
    (hkeyed : repository.Keyed)
    (h : states.foldlM (fun repository state ↦ repository.writeBindingState host state.1 state.2)
      repository = .ok repository') (hrow : row ∈ repository'.rows)
    (habsent : ∀ other ∈ repository.rows, other.identity ≠ row.identity) :
    ∃ state ∈ states, state.1 = row.spaceId ∧ ∃ session ∈ state.2,
      session.identity = row.identity ∧ session.terminalSnapshot = row.terminalSnapshot := by
  induction states generalizing repository with
  | nil =>
    simp only [List.foldlM_nil, pure_eq_ok] at h
    rw [← h] at hrow
    exact absurd rfl (habsent row hrow)
  | cons state rest ih =>
    simp only [List.foldlM_cons, bind_eq_ok] at h
    obtain ⟨middle, hwrite, hrest⟩ := h
    obtain ⟨hfresh, hnodup⟩ := List.nodup_cons.mp hnodup
    have hmiddle := keyed_writeBindingState hwrite hkeyed
    by_cases hin : ∃ session ∈ state.2, session.identity = row.identity
    · obtain ⟨session, hsession, hidentity⟩ := hin
      obtain ⟨written, hwritten, hspace, hsame, hsnapshot⟩ :=
        exists_row_writeBindingState hwrite hsession
      have hfinal : written ∈ repository'.rows := mem_of_untouched hrest hwritten (by rwa [hspace])
      obtain rfl : written = row :=
        (keyed_foldlM hrest hmiddle).eq hfinal hrow (hsame.trans hidentity)
      rw [storedSnapshot_of_absent (by rwa [hidentity])] at hsnapshot
      exact ⟨state, List.mem_cons_self, hspace.symm, session, hsession, hidentity, hsnapshot.symm⟩
    · have hstill : ∀ other ∈ middle.rows, other.identity ≠ row.identity := by
        intro other hother heq
        rcases cases_writeBindingState hwrite hother with ⟨hkept, -⟩ | ⟨-, session, hsession, hid, -⟩
        · exact habsent other hkept heq
        · exact hin ⟨session, hsession, hid.symm.trans heq⟩
      obtain ⟨other, hother, hrest⟩ := ih hnodup hmiddle hrest hstill
      exact ⟨other, List.mem_cons_of_mem _ hother, hrest⟩

private theorem kept_or_carried_foldlM (hnodup : (states.map Prod.fst).Nodup)
    (hkeyed : repository.Keyed)
    (h : states.foldlM (fun repository state ↦ repository.writeBindingState host state.1 state.2)
      repository = .ok repository') {row' : SessionRow K} (hrow : row ∈ repository.rows)
    (hrow' : row' ∈ repository'.rows) (hidentity : row'.identity = row.identity) :
    row'.terminalSnapshot = row.terminalSnapshot ∨
      (∃ state ∈ states, state.1 = row.spaceId ∧ row.identity ∉ state.2.identities) ∧
        ∃ state ∈ states, state.1 = row'.spaceId ∧ state.1 ≠ row.spaceId ∧ ∃ session ∈ state.2,
          session.identity = row.identity ∧ session.terminalSnapshot = row'.terminalSnapshot := by
  induction states generalizing repository row with
  | nil =>
    simp only [List.foldlM_nil, pure_eq_ok] at h
    rw [← h] at hrow'
    rw [hkeyed.eq hrow' hrow hidentity]
    exact .inl rfl
  | cons state rest ih =>
    simp only [List.foldlM_cons, bind_eq_ok] at h
    obtain ⟨middle, hwrite, hrest⟩ := h
    obtain ⟨hfresh, hnodup⟩ := List.nodup_cons.mp hnodup
    have hmiddle := keyed_writeBindingState hwrite hkeyed
    by_cases hspace : row.spaceId = state.1
    · by_cases hin : ∃ session ∈ state.2, session.identity = row.identity
      · -- The Space writes the session again, with the checkpoint it found.
        obtain ⟨session, hsession, hsame⟩ := hin
        obtain ⟨written, hwritten, hscope, hid, hsnapshot⟩ :=
          exists_row_writeBindingState hwrite hsession
        have hfinal : written ∈ repository'.rows :=
          mem_of_untouched hrest hwritten (by rwa [hscope])
        obtain rfl : written = row' := (keyed_foldlM hrest hmiddle).eq hfinal hrow'
          ((hid.trans hsame).trans hidentity.symm)
        rw [storedSnapshot_of_mem hkeyed hrow hsame.symm] at hsnapshot
        exact .inl hsnapshot
      · -- The Space drops the row, so a later state must have inserted it.
        have habsent : ∀ other ∈ middle.rows, other.identity ≠ row'.identity := by
          intro other hother heq
          rcases cases_writeBindingState hwrite hother with
            ⟨hkept, hne⟩ | ⟨-, session, hsession, hid, -⟩
          · rw [hkeyed.eq hkept hrow (heq.trans hidentity)] at hne
            exact hne hspace
          · exact hin ⟨session, hsession, (hid.symm.trans heq).trans hidentity⟩
        obtain ⟨other, hother, hscope, session, hsession, hsame, hsnapshot⟩ :=
          inserted_of_absent hnodup hmiddle hrest hrow' habsent
        refine .inr ⟨⟨state, List.mem_cons_self, hspace.symm, ?_⟩, other,
          List.mem_cons_of_mem _ hother, hscope, ?_, session, hsession, hsame.trans hidentity,
          hsnapshot⟩
        · intro hmem
          obtain ⟨session, hsession, hid⟩ := List.mem_map.mp hmem
          exact hin ⟨session, hsession, hid⟩
        · intro heq
          exact hfresh (List.mem_map.mpr ⟨other, hother, heq.trans hspace⟩)
    · have hkept := mem_writeBindingState_of_ne hwrite hrow hspace
      rcases ih hnodup hmiddle hrest hkept hidentity with hsame |
        ⟨⟨released, hreleased, hdrop⟩, carried, hcarried, hinsert⟩
      · exact .inl hsame
      · exact .inr ⟨⟨released, List.mem_cons_of_mem _ hreleased, hdrop⟩, carried,
          List.mem_cons_of_mem _ hcarried, hinsert⟩

/-- A commit keeps the checkpoint of a session, unless one state releases the session from its
Space and another brings it in with its live copy. -/
theorem kept_or_carried (hkeyed : repository.Keyed)
    (h : repository.commitBindingStates host states = .ok repository') {row' : SessionRow K}
    (hrow : row ∈ repository.rows) (hrow' : row' ∈ repository'.rows)
    (hidentity : row'.identity = row.identity) :
    row'.terminalSnapshot = row.terminalSnapshot ∨
      (∃ state ∈ states, state.1 = row.spaceId ∧ row.identity ∉ state.2.identities) ∧
        ∃ state ∈ states, state.1 = row'.spaceId ∧ state.1 ≠ row.spaceId ∧ ∃ session ∈ state.2,
          session.identity = row.identity ∧ session.terminalSnapshot = row'.terminalSnapshot := by
  simp only [commitBindingStates, bind_eq_ok] at h
  obtain ⟨_, hvalid, hwrite⟩ := h
  exact kept_or_carried_foldlM (nodup_of_validate hvalid).1 hkeyed hwrite hrow hrow' hidentity

/-- A commit keeps the key. -/
theorem keyed_commitBindingStates (h : repository.commitBindingStates host states = .ok repository')
    (hkeyed : repository.Keyed) : repository'.Keyed := by
  simp only [commitBindingStates, bind_eq_ok] at h
  obtain ⟨_, -, hwrite⟩ := h
  exact keyed_foldlM hwrite hkeyed

end Writes

end WorkspaceRepository

end Database
end Bootty.Mux
