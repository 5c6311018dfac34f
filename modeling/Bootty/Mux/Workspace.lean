import Bootty.Mux.Controller
import Bootty.Mux.Repository

/-!
# Bindings and their membership

Model of the membership operations of `crates/bootty-mux/src/workspace.rs` and
`workspace/binding_session_names.rs`. Each Space has one binding. An operation computes
candidates from the live membership, commits them to the repository as one transaction,
publishes them and only then sends a stamp to the backend; `requests` are the stamps sent
and not answered. The operations on the active Space get its scope. Presentation, projects,
terminals and the reservation of generated names are left out.
-/

namespace Bootty.Mux

open Bootty.Base

variable {K : Type}

/-- `BindingRuntime`, as far as membership goes. -/
structure BindingRuntime (K : Type) where
  scope : SpaceId
  spaceTag : String
  /-- `multiplexer.remote.is_some()`. -/
  remote : Bool
  sessions : SessionMembership K
  mux : MuxController K

/-- `BindingStateCandidate`. -/
structure BindingStateCandidate (K : Type) where
  scope : SpaceId
  sessions : SessionMembership K

namespace BindingRuntime

/-- `workspace/binding_session_names.rs:26–38`. -/
def sessionCwd (host : Host) (binding : BindingRuntime K) (cwd : String) : String :=
  if binding.remote then cwd else host.sessionRoot cwd

/-- The part of a stamp that names a Space. -/
def stampedSpace (binding : BindingRuntime K) : Option String :=
  if binding.spaceTag = "" then none else some binding.spaceTag

/-- `workspace.rs:514–518`. -/
def publishSessionState (binding : BindingRuntime K) (sessions : SessionMembership K) :
    BindingRuntime K :=
  { binding with sessions, mux := binding.mux.applySessionOrder sessions.backendNames }

/-- `workspace.rs:454–469`: a missing session survives only when its hosting server is gone
or unknown. -/
def ended (binding : BindingRuntime K) (session : WorkspaceSession K) : Bool :=
  !(binding.mux.backendSessions.any fun s ↦ s.tag.identity == some session.identity) &&
    (session.state.serverGeneration.isSome &&
        session.state.serverGeneration == binding.mux.serverGeneration ||
      session.terminalSnapshot.isNone)

/-- `workspace.rs:470–472`. -/
def releaseAll (sessions : SessionMembership K) (identities : List String) :
    SessionMembership K :=
  identities.foldl (fun sessions identity ↦ ((sessions.release identity).map Prod.snd).getD sessions)
    sessions

variable [DecidableEq K]

/-- `workspace.rs:482–500`: a tagged session takes the backend's name, or is claimed. -/
def claimSession (host : Host) (binding : BindingRuntime K) (sessions : SessionMembership K)
    (identity : String) (session : MuxSession K) : SessionMembership K :=
  if sessions.contains identity then
    (sessions.observeBackendName identity session.name).getD sessions
  else
    (sessions.claim
      { identity, backendName := session.name, displayName := session.name, explicit := false
        cwd := (session.anchor.cwd.map (binding.sessionCwd host)).getD "", state := {}
        terminalSnapshot := none }).getD sessions

/-- `workspace.rs:504–510`: the project belongs to the saved session, not to the shell's
current directory. -/
def fillCwd (host : Host) (binding : BindingRuntime K) (sessions : SessionMembership K)
    (identity : String) (cwd : Option String) : SessionMembership K :=
  match cwd with
  | some cwd =>
    if (sessions.get identity).any (·.cwd == "") then
      (sessions.setCwd identity (binding.sessionCwd host cwd)).getD sessions
    else sessions
  | none => sessions

/-- The body of the loop over the backend's sessions, `workspace.rs:475–511`. -/
def claimReported (host : Host) (binding : BindingRuntime K) (sessions : SessionMembership K)
    (session : MuxSession K) : SessionMembership K :=
  match session.tag.identity with
  | none => sessions
  | some identity =>
    if session.tag.space = some binding.spaceTag then
      let claimed := binding.claimSession host sessions identity session
      let observed := claimed.observeServerGeneration identity binding.mux.serverGeneration
      binding.fillCwd host observed identity session.anchor.cwd
    else sessions

/-- `workspace.rs:449–512`: the binding's claims brought in line with what the backend
reports. -/
def reconcileSessionState (host : Host) (binding : BindingRuntime K) : SessionMembership K :=
  if binding.mux.hasSessionSnapshot then
    let ended := (binding.sessions.filter binding.ended).map (·.identity)
    binding.mux.backendSessions.foldl (binding.claimReported host)
      (releaseAll binding.sessions ended)
  else binding.sessions

end BindingRuntime

/-! ### The workspace -/

/-- `WorkspaceRuntime`, and the requests it has sent. -/
structure WorkspaceRuntime (K : Type) where
  repository : WorkspaceRepository K
  bindings : List (BindingRuntime K)
  requests : List (SpaceId × MuxCommand K) := []

/-- A membership operation up to its commit: the candidates, the message for a binding that
is gone, and the stamp sent when the commit has succeeded. -/
structure Edit (K : Type) where
  candidates : List (BindingStateCandidate K)
  absent : String := "candidate binding is no longer live"
  stamp : Option (SpaceId × MuxCommand K) := none

namespace WorkspaceRuntime

/-- The binding of a Space. -/
def binding (ws : WorkspaceRuntime K) (scope : SpaceId) : Option (BindingRuntime K) :=
  ws.bindings.find? (·.scope == scope)

/-- Publish a membership that is committed, or was committed by the command that completes. -/
def publish (ws : WorkspaceRuntime K) (candidate : BindingStateCandidate K) :
    WorkspaceRuntime K :=
  { ws with
    bindings := modifyFirst (·.scope == candidate.scope)
      (·.publishSessionState candidate.sessions) ws.bindings }

/-- The bindings of the candidates, each used once. -/
def takeBindings (absent : String) : List (BindingRuntime K) → List (BindingStateCandidate K) →
    Except String (List (BindingRuntime K × BindingStateCandidate K))
  | _, [] => .ok []
  | bindings, candidate :: rest => do
    let (binding, others) ← context (takeFirst (·.scope == candidate.scope) bindings) absent
    let updates ← takeBindings absent others rest
    pure ((binding, candidate) :: updates)

/-- `workspace.rs:1284–1296`. -/
def sessionIdentity (ws : WorkspaceRuntime K) (scope : SpaceId) (sessionId : String) :
    Option String :=
  (ws.binding scope).bind fun binding ↦
    if binding.sessions.contains sessionId then some sessionId
    else (binding.mux.backendSessionByIdOrName sessionId).bind (·.tag.identity)

/-- The backend id a stamp is addressed to. -/
def backendSessionId (ws : WorkspaceRuntime K) (scope : SpaceId) (sessionId : String) :
    Option String :=
  ((ws.binding scope).bind (·.mux.backendSessionByIdOrName sessionId)).map (·.id)

section Commit

variable [Scalar K] [DecidableEq K]

/-- `commit_binding_state_candidate` and `commit_binding_state_candidates`,
`workspace.rs:1680–1737`: only changed memberships are written, all are published. -/
def commitBindingStateCandidates (host : Host) (ws : WorkspaceRuntime K) (absent : String)
    (candidates : List (BindingStateCandidate K)) : Except String (WorkspaceRuntime K) := do
  let updates ← takeBindings absent ws.bindings candidates
  let changed := updates.filter fun update ↦ decide (update.1.sessions ≠ update.2.sessions)
  let repository ← ws.repository.commitBindingStates host
    (changed.map fun update ↦ (update.2.scope, update.2.sessions))
  pure (candidates.foldl publish { ws with repository })

/-- Commit an operation's candidates, then send its stamp. -/
def commitEdit (host : Host) (ws : WorkspaceRuntime K) (edit : Edit K) :
    Except String (WorkspaceRuntime K) := do
  let ws ← ws.commitBindingStateCandidates host edit.absent edit.candidates
  pure { ws with requests := ws.requests ++ edit.stamp.toList }

end Commit

/-! ### Operations

Each returns the edit it commits, and `none` where the source returns `Ok(false)`. -/

/-- `workspace.rs:1304–1320`. -/
def moveActiveSession (ws : WorkspaceRuntime K) (scope : SpaceId) (sessionId : String)
    (delta : Int) : Option (Edit K) := do
  let identity ← ws.sessionIdentity scope sessionId
  let binding ← ws.binding scope
  let sessions ← binding.sessions.moveBy identity delta
  pure { candidates := [⟨scope, sessions⟩] }

/-- The identity to reorder before; a name that no session has ends the operation. -/
def anchorIdentity (ws : WorkspaceRuntime K) (scope : SpaceId) :
    Option String → Option (Option String)
  | some before => (ws.sessionIdentity scope before).map some
  | none => some none

/-- `workspace.rs:1324–1344`. -/
def reorderActiveSessionBefore (ws : WorkspaceRuntime K) (scope : SpaceId) (source : String)
    (before : Option String) : Option (Edit K) := do
  let source ← ws.sessionIdentity scope source
  let before ← ws.anchorIdentity scope before
  let binding ← ws.binding scope
  let sessions ← binding.sessions.moveBefore source before
  pure { candidates := [⟨scope, sessions⟩] }

/-- `workspace.rs:1349–1401`; `minted` is the fresh identity of a session without one. -/
def adoptSessionIntoBinding (ws : WorkspaceRuntime K) (scope : SpaceId) (sessionId minted : String) :
    Option (Edit K) := do
  let binding ← ws.binding scope
  let session ← binding.mux.backendSessionByIdOrName sessionId
  let identity := session.tag.identity.getD minted
  let sessions ← binding.sessions.claim
    { identity, backendName := session.name, displayName := session.name, explicit := false
      cwd := session.anchor.cwd.getD "", state := {}, terminalSnapshot := none }
  pure { candidates := [⟨scope, sessions⟩]
         stamp := some (scope, .stampSession session.id ⟨some identity, binding.stampedSpace⟩) }

/-- `workspace.rs:1407–1417`. -/
def sessionMoveIsPossible (ws : WorkspaceRuntime K) (source target : SpaceId) : Bool :=
  (ws.binding source).any fun origin ↦ (ws.binding target).any fun destination ↦
    destination.scope != source && !origin.remote && !destination.remote

/-- `workspace.rs:1425–1477`. -/
def moveSessionToSpace (ws : WorkspaceRuntime K) (source : SpaceId) (sessionId : String)
    (target : SpaceId) : Option (Edit K) :=
  if ws.sessionMoveIsPossible source target then do
    let identity ← ws.sessionIdentity source sessionId
    let sourceBinding ← ws.binding source
    let targetBinding ← ws.binding target
    let (claimed, released) ← sourceBinding.sessions.release identity
    pure
      { candidates := [⟨source, released⟩,
          ⟨target, (targetBinding.sessions.claim claimed).getD targetBinding.sessions⟩]
        absent := "candidate binding is absent or duplicated"
        stamp := (ws.backendSessionId source sessionId).map fun id ↦
          (source, .stampSession id ⟨some identity, targetBinding.stampedSpace⟩) }
  else none

/-- `workspace.rs:1482–1524`: the identity stays on the session, only the claim is cleared. -/
def detachSessionFromSpace (ws : WorkspaceRuntime K) (scope : SpaceId) (sessionId : String) :
    Option (Edit K) := do
  let binding ← ws.binding scope
  let identity ← ws.sessionIdentity scope sessionId
  let (_, released) ← binding.sessions.release identity
  pure
    { candidates := [⟨scope, released⟩]
      stamp := (ws.backendSessionId scope sessionId).map fun id ↦
        (scope, .stampSession id ⟨some identity, none⟩) }

/-- The identity that `release_closed_session` drops, `workspace/binding_session_names.rs:66–93`. -/
def releaseClosedSession (ws : WorkspaceRuntime K) (scope : SpaceId) (command : MuxCommand K) :
    Option (Edit K) :=
  match command with
  | .ditchSession sessionId => do
    let identity ← ws.sessionIdentity scope sessionId
    let binding ← ws.binding scope
    let released := ((binding.sessions.release identity).map Prod.snd).getD binding.sessions
    pure { candidates := [⟨scope, released⟩] }
  | _ => none

/-- The Unicode property `White_Space`. -/
def isWhiteSpace (c : Char) : Bool :=
  (9 ≤ c.val && c.val ≤ 13) || c.val == 0x20 || c.val == 0x85 || c.val == 0xA0 ||
    c.val == 0x1680 || (0x2000 ≤ c.val && c.val ≤ 0x200A) || c.val == 0x2028 ||
    c.val == 0x2029 || c.val == 0x202F || c.val == 0x205F || c.val == 0x3000

/-- `str::trim`. -/
def trim (text : String) : String :=
  String.ofList ((text.toList.dropWhile isWhiteSpace).reverse.dropWhile isWhiteSpace).reverse

/-- `workspace/binding_session_names.rs:249–256`. -/
def validateSessionTitle (title : String) : Except String Unit :=
  ensure (trim title != "" && title.utf8ByteSize ≤ 256 && !title.toList.any isControl)
    "session title must be 1–256 bytes without control characters"

section Saved

variable [DecidableEq K]

/-- `workspace/binding_session_names.rs:190–213`. -/
def setSessionTitle (ws : WorkspaceRuntime K) (scope : SpaceId) (identity title : String) :
    Except String (Option (Edit K)) := do
  validateSessionTitle title
  let binding ← context (ws.binding scope) "the Space no longer exists"
  ensure (binding.sessions.contains identity) "this Space does not hold the saved session"
  pure ((binding.sessions.setDisplayName identity (trim title) true).map fun sessions ↦
    { candidates := [⟨scope, sessions⟩] })

/-- `workspace/binding_session_names.rs:226–230`. -/
def checkActivity : SessionStateChange → Except String Unit
  | .recordActivity time now =>
    ensure (0 ≤ time && time ≤ now)
      "activity must be non-negative UTC seconds no later than the accepted clock"
  | .setPinned _ => .ok ()

/-- `workspace/binding_session_names.rs:218–245`. -/
def setSessionState (ws : WorkspaceRuntime K) (scope : SpaceId) (identity : String)
    (change : SessionStateChange) : Except String (Option (Edit K)) := do
  checkActivity change
  let binding ← context (ws.binding scope) "the Space no longer exists"
  ensure (binding.sessions.contains identity) "this Space does not hold the saved session"
  pure ((binding.sessions.setState identity change).map fun sessions ↦
    { candidates := [⟨scope, sessions⟩] })

/-- `workspace.rs:1664–1676`, run on every frame. -/
def reconcileBindingStates (host : Host) (ws : WorkspaceRuntime K) : Edit K :=
  { candidates := ws.bindings.map fun binding ↦
      ⟨binding.scope, binding.reconcileSessionState host⟩
    absent := "candidate binding is absent or duplicated" }

end Saved

/-! ### What a commit does -/

/-- A binding is known by its scope. -/
def Distinct (ws : WorkspaceRuntime K) : Prop := (ws.bindings.map (·.scope)).Nodup

/-- The binding after the candidates for its Space have been published. -/
def published (candidates : List (BindingStateCandidate K)) (binding : BindingRuntime K) :
    BindingRuntime K :=
  candidates.foldl
    (fun binding candidate ↦
      if binding.scope = candidate.scope then binding.publishSessionState candidate.sessions
      else binding) binding

theorem scope_published (candidates : List (BindingStateCandidate K)) (binding : BindingRuntime K) :
    (published candidates binding).scope = binding.scope := by
  induction candidates generalizing binding with
  | nil => rfl
  | cons candidate rest ih =>
    rw [published, List.foldl_cons, ← published, ih]
    split
    · rfl
    · rfl

/-- A Space without a candidate stays. -/
theorem published_of_ne {candidates : List (BindingStateCandidate K)} {binding : BindingRuntime K}
    (h : ∀ candidate ∈ candidates, candidate.scope ≠ binding.scope) :
    published candidates binding = binding := by
  induction candidates with
  | nil => rfl
  | cons candidate rest ih =>
    have hne : binding.scope ≠ candidate.scope := (h _ List.mem_cons_self).symm
    rw [published, List.foldl_cons, if_neg hne, ← published]
    exact ih fun other hother ↦ h other (List.mem_cons_of_mem _ hother)

/-- One with a candidate shows it. -/
theorem published_of_mem {candidates : List (BindingStateCandidate K)}
    (hnodup : (candidates.map (·.scope)).Nodup) {candidate : BindingStateCandidate K}
    (hmem : candidate ∈ candidates) {binding : BindingRuntime K}
    (hscope : candidate.scope = binding.scope) :
    published candidates binding = binding.publishSessionState candidate.sessions := by
  induction candidates with
  | nil => cases hmem
  | cons first rest ih =>
    obtain ⟨hfresh, hnodup⟩ := List.nodup_cons.mp hnodup
    rw [published, List.foldl_cons, ← published]
    rcases List.mem_cons.mp hmem with rfl | hmem
    · rw [if_pos hscope.symm]
      apply published_of_ne
      intro other hother heq
      exact hfresh (List.mem_map.mpr ⟨other, hother, heq.trans hscope.symm⟩)
    · rw [if_neg, ih hnodup hmem]
      intro heq
      exact hfresh (List.mem_map.mpr ⟨candidate, hmem, hscope.trans heq⟩)

private theorem bindings_publish {ws : WorkspaceRuntime K} (h : ws.Distinct)
    (candidate : BindingStateCandidate K) :
    (ws.publish candidate).bindings = ws.bindings.map (published [candidate]) :=
  modifyFirst_key h candidate.scope _

theorem distinct_publish {ws : WorkspaceRuntime K} (h : ws.Distinct)
    (candidate : BindingStateCandidate K) : (ws.publish candidate).Distinct := by
  have hscopes : (ws.bindings.map (published [candidate])).map (·.scope) =
      ws.bindings.map (·.scope) := by
    rw [List.map_map]
    exact List.map_congr_left fun binding _ ↦ scope_published [candidate] binding
  rw [Distinct, bindings_publish h, hscopes]
  exact h

/-- Publishing candidates reaches every binding once. -/
theorem foldl_publish {ws : WorkspaceRuntime K} (h : ws.Distinct)
    (candidates : List (BindingStateCandidate K)) :
    candidates.foldl publish ws =
      { ws with bindings := ws.bindings.map (published candidates) } := by
  induction candidates generalizing ws with
  | nil =>
    have hid : published ([] : List (BindingStateCandidate K)) = id := rfl
    rw [hid, List.map_id]
    rfl
  | cons candidate rest ih =>
    rw [List.foldl_cons, ih (distinct_publish h candidate), bindings_publish h, List.map_map]
    rfl

variable {absent : String}

private theorem takeBindings_eq_ok {bindings : List (BindingRuntime K)}
    (hdistinct : (bindings.map (·.scope)).Nodup) {candidates : List (BindingStateCandidate K)}
    {updates : List (BindingRuntime K × BindingStateCandidate K)}
    (h : takeBindings absent bindings candidates = .ok updates) :
    updates.map Prod.snd = candidates ∧ (candidates.map (·.scope)).Nodup ∧
      ∀ update ∈ updates, update.1 ∈ bindings ∧ update.1.scope = update.2.scope := by
  induction candidates generalizing bindings updates with
  | nil =>
    simp only [takeBindings, Except.ok.injEq] at h
    subst h
    simp
  | cons candidate rest ih =>
    simp only [takeBindings, bind_eq_ok, context_eq_ok, pure_eq_ok] at h
    obtain ⟨⟨binding, others⟩, htake, tail, hrest, rfl⟩ := h
    have hperm := perm_of_takeFirst htake
    have hpasses := passes_of_takeFirst htake
    have hscope : binding.scope = candidate.scope := by simpa using hpasses
    have hscopes := (hperm.map (·.scope)).nodup_iff.mp hdistinct
    obtain ⟨hfresh, hothers⟩ := List.nodup_cons.mp hscopes
    obtain ⟨hmap, hnodup, hmem⟩ := ih hothers hrest
    refine ⟨by rw [List.map_cons, hmap], List.nodup_cons.mpr ⟨?_, hnodup⟩, ?_⟩
    · rw [← hmap]
      intro hscope'
      obtain ⟨_, hcandidate, heq⟩ := List.mem_map.mp hscope'
      obtain ⟨update, hupdate, rfl⟩ := List.mem_map.mp hcandidate
      obtain ⟨hbinding, hsame⟩ := hmem update hupdate
      exact hfresh (List.mem_map.mpr ⟨update.1, hbinding, (hsame.trans heq).trans hscope.symm⟩)
    · intro update hupdate
      rcases List.mem_cons.mp hupdate with rfl | hupdate
      · exact ⟨hperm.mem_iff.mpr List.mem_cons_self, hscope⟩
      · obtain ⟨hbinding, hsame⟩ := hmem update hupdate
        exact ⟨hperm.mem_iff.mpr (List.mem_cons_of_mem _ hbinding), hsame⟩

/-- What a commit has written and published. -/
structure Committed (ws : WorkspaceRuntime K) (candidates : List (BindingStateCandidate K))
    (ws' : WorkspaceRuntime K) : Prop where
  scopes : (candidates.map (·.scope)).Nodup
  bindings : ws'.bindings = ws.bindings.map (published candidates)
  requests : ws'.requests = ws.requests
  kept : ∀ binding ∈ ws.bindings,
    (∀ candidate ∈ candidates, candidate.scope = binding.scope →
      candidate.sessions = binding.sessions) →
    ws'.repository.saved binding.scope = ws.repository.saved binding.scope
  written : ∀ binding ∈ ws.bindings, ∀ candidate ∈ candidates, candidate.scope = binding.scope →
    candidate.sessions ≠ binding.sessions →
    ws'.repository.saved binding.scope = candidate.sessions.saved

variable {b : BindingRuntime K}

theorem eq_of_scope {ws : WorkspaceRuntime K} (h : ws.Distinct) {a : BindingRuntime K}
    (ha : a ∈ ws.bindings) (hb : b ∈ ws.bindings) (hscope : a.scope = b.scope) : a = b :=
  List.inj_on_of_nodup_map h ha hb hscope

/-- A Space is found by its number. -/
theorem binding_of_mem {ws : WorkspaceRuntime K} (h : ws.Distinct) (hb : b ∈ ws.bindings) :
    ws.binding b.scope = some b := by
  cases hfind : ws.binding b.scope with
  | none =>
    have hnone := List.find?_eq_none.mp hfind b hb
    simp at hnone
  | some other =>
    have hscope : other.scope = b.scope := by simpa using List.find?_some hfind
    rw [eq_of_scope h (List.mem_of_find?_eq_some hfind) hb hscope]

/-- What is found is a Space of the number. -/
theorem scope_of_binding {ws : WorkspaceRuntime K} {scope : SpaceId} (h : ws.binding scope = some b)
    : b ∈ ws.bindings ∧ b.scope = scope :=
  ⟨List.mem_of_find?_eq_some h, by simpa using List.find?_some h⟩

section Commit

variable [Scalar K] [DecidableEq K]

/-- What a commit did. -/
theorem commitBindingStateCandidates_eq_ok {host : Host} {ws ws' : WorkspaceRuntime K}
    {candidates : List (BindingStateCandidate K)} (hdistinct : ws.Distinct)
    (h : ws.commitBindingStateCandidates host absent candidates = .ok ws') :
    Committed ws candidates ws' := by
  simp only [commitBindingStateCandidates, bind_eq_ok, pure_eq_ok] at h
  obtain ⟨updates, htake, repository, hcommit, rfl⟩ := h
  obtain ⟨hmap, hnodup, hmem⟩ := takeBindings_eq_ok hdistinct htake
  obtain ⟨hothers, hwritten⟩ := WorkspaceRepository.saved_commitBindingStates hcommit
  have hfold := @foldl_publish K { ws with repository } hdistinct candidates
  have hupdate : ∀ candidate ∈ candidates, ∀ binding ∈ ws.bindings,
      candidate.scope = binding.scope → (binding, candidate) ∈ updates := by
    intro candidate hcandidate binding hbinding hscope
    rw [← hmap] at hcandidate
    obtain ⟨update, hupdate, rfl⟩ := List.mem_map.mp hcandidate
    obtain ⟨hin, hsame⟩ := hmem update hupdate
    rw [← eq_of_scope hdistinct hin hbinding (hsame.trans hscope)]
    exact hupdate
  refine ⟨hnodup, by rw [hfold], by rw [hfold], ?_, ?_⟩
  · intro binding hbinding hsame
    rw [hfold]
    apply hothers
    intro hscope
    obtain ⟨_, hstate, heq⟩ := List.mem_map.mp hscope
    obtain ⟨update, hchanged, rfl⟩ := List.mem_map.mp hstate
    obtain ⟨hin, hdiffers⟩ := List.mem_filter.mp hchanged
    obtain ⟨hmember, hsamescope⟩ := hmem update hin
    have hbindings : update.1 = binding :=
      eq_of_scope hdistinct hmember hbinding (hsamescope.trans heq)
    have hcandidate : update.2 ∈ candidates := by
      rw [← hmap]
      exact List.mem_map_of_mem hin
    have hsessions := hsame update.2 hcandidate heq
    simp [hbindings, hsessions] at hdiffers
  · intro binding hbinding candidate hcandidate hscope hdiffers
    rw [hfold, ← hscope]
    apply hwritten (candidate.scope, candidate.sessions)
    refine List.mem_map.mpr ⟨(binding, candidate), List.mem_filter.mpr ⟨?_, ?_⟩, rfl⟩
    · exact hupdate candidate hcandidate binding hbinding hscope
    · exact decide_eq_true hdiffers.symm

/-- What a commit hands to the repository are candidates. -/
theorem states_of_commitBindingStateCandidates {host : Host} {ws ws' : WorkspaceRuntime K}
    {candidates : List (BindingStateCandidate K)} (hdistinct : ws.Distinct)
    (h : ws.commitBindingStateCandidates host absent candidates = .ok ws') :
    ∃ states, ws.repository.commitBindingStates host states = .ok ws'.repository ∧
      ∀ state ∈ states, ⟨state.1, state.2⟩ ∈ candidates := by
  simp only [commitBindingStateCandidates, bind_eq_ok, pure_eq_ok] at h
  obtain ⟨updates, htake, repository, hcommit, rfl⟩ := h
  obtain ⟨hmap, -, -⟩ := takeBindings_eq_ok hdistinct htake
  have hfold := @foldl_publish K { ws with repository } hdistinct candidates
  refine ⟨_, by rw [hfold]; exact hcommit, ?_⟩
  intro state hstate
  obtain ⟨update, hchanged, rfl⟩ := List.mem_map.mp hstate
  rw [← hmap]
  exact List.mem_map_of_mem (List.mem_filter.mp hchanged).1

end Commit

namespace Committed

variable {ws ws' : WorkspaceRuntime K} {candidates : List (BindingStateCandidate K)}

theorem distinct (h : Committed ws candidates ws') (hdistinct : ws.Distinct) : ws'.Distinct := by
  have hscopes : (ws.bindings.map (published candidates)).map (·.scope) =
      ws.bindings.map (·.scope) := by
    rw [List.map_map]
    exact List.map_congr_left fun binding _ ↦ scope_published candidates binding
  rw [Distinct, h.bindings, hscopes]
  exact hdistinct

/-- After a commit a binding has its old membership, or that of a candidate. -/
theorem cases (h : Committed ws candidates ws') {b' : BindingRuntime K}
    (hb' : b' ∈ ws'.bindings) :
    ∃ b ∈ ws.bindings, b'.scope = b.scope ∧
      (b'.sessions = b.sessions ∧
          ws'.repository.saved b.scope = ws.repository.saved b.scope ∨
        ∃ candidate ∈ candidates, candidate.scope = b.scope ∧
          b'.sessions = candidate.sessions ∧ candidate.sessions ≠ b.sessions ∧
          ws'.repository.saved b.scope = candidate.sessions.saved) := by
  rw [h.bindings] at hb'
  obtain ⟨b, hb, rfl⟩ := List.mem_map.mp hb'
  refine ⟨b, hb, scope_published _ _, ?_⟩
  by_cases hcandidate : ∃ candidate ∈ candidates, candidate.scope = b.scope
  · obtain ⟨candidate, hmem, hscope⟩ := hcandidate
    have hpublished := published_of_mem h.scopes hmem hscope
    by_cases hsame : candidate.sessions = b.sessions
    · left
      constructor
      · rw [hpublished, ← hsame]
        rfl
      · apply h.kept b hb
        intro other hother hscope'
        have heq : other = candidate :=
          List.inj_on_of_nodup_map h.scopes hother hmem (hscope'.trans hscope.symm)
        rw [heq, hsame]
    · right
      refine ⟨candidate, hmem, hscope, ?_, hsame, h.written b hb candidate hmem hscope hsame⟩
      rw [hpublished]
      rfl
  · left
    have hnone : ∀ candidate ∈ candidates, candidate.scope ≠ b.scope :=
      fun candidate hmem hscope ↦ hcandidate ⟨candidate, hmem, hscope⟩
    constructor
    · rw [published_of_ne hnone]
    · exact h.kept b hb fun candidate hmem hscope ↦ absurd hscope (hnone candidate hmem)

end Committed

end WorkspaceRuntime
end Bootty.Mux
