import Bootty.Base.Binary32
import Bootty.Base.CommitLog
import Bootty.Mux.Checkpoint

/-!
# Live checkpoints

Commits of one session are ordered by compare-and-swap, publications of their receipts are
not: a receipt is dropped only when the checkpoint shown was captured later. The receipts of a
session are a log in the sense of `Bootty.Base.CommitLog`; its row holds the newest entry and
the live membership the newest of those published, as long as receipts of the same time are
published in the order of their commits.
-/

namespace Bootty.Mux

open Bootty.Base

variable {K : Type}

namespace CheckpointedWorkspace

/-- The events of checkpoints, and snapshots that arrive: no membership changes. -/
def keepsMembership : CheckpointEvent K → Bool
  | .client (.refresh _ _ _) => true
  | .client (.setAvailable _ _) => true
  | .client _ => false
  | _ => true

/-- A receipt is not published after that of another checkpoint of the session which was
committed later and captured at the same time. -/
def inOrder [DecidableEq K] (s : CheckpointedWorkspace K) : CheckpointEvent K → Bool
  | .publish k => s.receipts[k]?.all fun receipt ↦ (List.range s.receipts.length).all fun j ↦
    j ≤ k || s.unpublished.contains j || s.receipts[j]?.all fun later ↦
      later.identity != receipt.identity ||
        later.snapshot.capturedAt != receipt.snapshot.capturedAt ||
        decide (later.snapshot = receipt.snapshot)
  | _ => true

/-- Every live session has its row, with the checkpoint it shows. -/
structure Mirrored (s : CheckpointedWorkspace K) : Prop where
  distinct : s.client.runtime.Distinct
  keyed : s.client.runtime.repository.Keyed
  nodup : ∀ binding ∈ s.client.runtime.bindings, binding.sessions.identities.Nodup
  shown : ∀ binding ∈ s.client.runtime.bindings, ∀ session ∈ binding.sessions,
    ∃ row ∈ s.client.runtime.repository.rows, row.identity = session.identity ∧
      row.spaceId = binding.scope ∧ row.terminalSnapshot = session.terminalSnapshot

end CheckpointedWorkspace

/-! ### The log of a session -/

variable {k : Nat} {snapshot : SavedTerminalSession K} {receipt : SavedSessionCheckpoint K}

namespace SavedSessionCheckpoint

/-- The checkpoint of a session at a place of the receipts. -/
def entry (receipts : List (SavedSessionCheckpoint K)) (identity : String) (k : Nat) :
    Option (SavedTerminalSession K) :=
  receipts[k]?.bind fun receipt ↦
    if receipt.identity = identity then some receipt.snapshot else none

variable {receipts : List (SavedSessionCheckpoint K)} {identity : String}

private theorem entry_eq_some :
    entry receipts identity k = some snapshot ↔
      ∃ receipt, receipts[k]? = some receipt ∧ receipt.identity = identity ∧
        receipt.snapshot = snapshot := by
  simp only [entry, Option.bind_eq_some_iff, Option.ite_none_right_eq_some, Option.some.injEq]

private theorem entry_of_le (h : receipts.length ≤ k) :
    entry receipts identity k = none := by
  rw [entry, List.getElem?_eq_none h]
  rfl

private theorem entry_append_of_ne (receipt : SavedSessionCheckpoint K) (h : k ≠ receipts.length) :
    entry (receipts ++ [receipt]) identity k = entry receipts identity k := by
  by_cases hlt : k < receipts.length
  · rw [entry, entry, List.getElem?_append_left hlt]
  · have hlong : (receipts ++ [receipt]).length ≤ k := by
      rw [List.length_append, List.length_singleton]
      omega
    rw [entry_of_le hlong, entry_of_le (by omega)]

private theorem entry_append_self (receipt : SavedSessionCheckpoint K) :
    entry (receipts ++ [receipt]) identity receipts.length =
      if receipt.identity = identity then some receipt.snapshot else none := by
  rw [entry, List.getElem?_concat_length]
  rfl

/-- What the log of a session says about its row and its live copy. -/
structure Tracks (receipts : List (SavedSessionCheckpoint K)) (unpublished : List Nat)
    (base : Option (SavedTerminalSession K)) (identity : String)
    (stored shown : Option (SavedTerminalSession K)) : Prop where
  ordered : OrderedLog (·.capturedAt) base (entry receipts identity)
  stored : Newest base (entry receipts identity) (fun _ ↦ True) stored
  shown : Newest base (entry receipts identity) (fun k ↦ k ∉ unpublished) shown

variable {unpublished : List Nat} {base stored shown : Option (SavedTerminalSession K)}

private theorem ne_length_of_entry (h : entry receipts identity k = some snapshot) :
    k ≠ receipts.length := by
  rintro rfl
  rw [entry_of_le (Nat.le_refl _)] at h
  cases h

private theorem shown_append (h : Newest base (entry receipts identity) (· ∉ unpublished) shown)
    (receipt : SavedSessionCheckpoint K) :
    Newest base (entry (receipts ++ [receipt]) identity)
      (· ∉ unpublished ++ [receipts.length]) shown := by
  apply h.transfer
  · intro k snapshot hk hentry
    have hne := ne_length_of_entry hentry
    refine ⟨by simp [hk, hne], ?_⟩
    rw [entry_append_of_ne receipt hne]
    exact hentry
  · intro k snapshot hk hentry
    simp only [List.mem_append, List.mem_singleton, not_or] at hk
    rw [entry_append_of_ne receipt hk.2] at hentry
    exact ⟨hk.1, hentry⟩

private theorem Tracks.other (h : Tracks receipts unpublished base identity stored shown)
    {receipt : SavedSessionCheckpoint K} (hne : receipt.identity ≠ identity) :
    Tracks (receipts ++ [receipt]) (unpublished ++ [receipts.length]) base identity stored
      shown := by
  have hsame : entry (receipts ++ [receipt]) identity = entry receipts identity := by
    funext k
    by_cases hk : k = receipts.length
    · rw [hk, entry_append_self, if_neg hne, entry_of_le (Nat.le_refl _)]
    · exact entry_append_of_ne receipt hk
  refine ⟨?_, ?_, shown_append h.shown receipt⟩
  · rw [hsame]
    exact h.ordered
  · rw [hsame]
    exact h.stored

private theorem Tracks.commit (h : Tracks receipts unpublished base identity stored shown)
    {receipt : SavedSessionCheckpoint K} (hidentity : receipt.identity = identity)
    (htime : ∀ old, stored = some old → old.capturedAt ≤ receipt.snapshot.capturedAt) :
    Tracks (receipts ++ [receipt]) (unpublished ++ [receipts.length]) base identity
      (some receipt.snapshot) shown := by
  have hnew : entry (receipts ++ [receipt]) identity receipts.length = some receipt.snapshot := by
    rw [entry_append_self, if_pos hidentity]
  refine ⟨?_, ?_, shown_append h.shown receipt⟩
  · exact h.ordered.commit h.stored htime (fun k hk ↦ entry_of_le hk) hnew
      fun k hk ↦ entry_append_of_ne receipt hk
  · apply newest_commit hnew
    intro k hk
    apply entry_of_le
    rw [List.length_append, List.length_singleton]
    omega

private theorem notMem_erase_iff (hpending : unpublished.Nodup) (k j : Nat) :
    j ∉ unpublished.erase k ↔ j ∉ unpublished ∨ j = k := by
  rw [hpending.mem_erase_iff]
  by_cases hjk : j = k
  · simp [hjk]
  · simp [hjk]

private theorem Tracks.unrelated (h : Tracks receipts unpublished base identity stored shown)
    (hpending : unpublished.Nodup) (hk : receipts[k]? = some receipt)
    (hne : receipt.identity ≠ identity) :
    Tracks receipts (unpublished.erase k) base identity stored shown := by
  refine ⟨h.ordered, h.stored, ?_⟩
  apply h.shown.transfer
  · intro j snapshot hj hentry
    exact ⟨(notMem_erase_iff hpending k j).mpr (.inl hj), hentry⟩
  · intro j snapshot hj hentry
    rcases (notMem_erase_iff hpending k j).mp hj with hj | rfl
    · exact ⟨hj, hentry⟩
    · rw [entry, hk, Option.bind_some, if_neg hne] at hentry
      cases hentry

private theorem published_erase (hpending : unpublished.Nodup)
    {value : Option (SavedTerminalSession K)}
    (h : Newest base (entry receipts identity) (fun j ↦ j ∉ unpublished ∨ j = k) value) :
    Newest base (entry receipts identity) (· ∉ unpublished.erase k) value := by
  apply h.transfer
  · intro j snapshot hj hentry
    exact ⟨(notMem_erase_iff hpending k j).mpr hj, hentry⟩
  · intro j snapshot hj hentry
    exact ⟨(notMem_erase_iff hpending k j).mp hj, hentry⟩

private theorem Tracks.deliver (h : Tracks receipts unpublished base identity stored shown)
    (hpending : unpublished.Nodup) (hk : entry receipts identity k = some snapshot)
    (hshown : ∀ old, shown = some old → old.capturedAt ≤ snapshot.capturedAt)
    (htie : ∀ j later, j ∉ unpublished → k < j → entry receipts identity j = some later →
      later.capturedAt = snapshot.capturedAt → later = snapshot) :
    Tracks receipts (unpublished.erase k) base identity stored (some snapshot) :=
  ⟨h.ordered, h.stored, published_erase hpending (h.shown.deliver h.ordered hk hshown htie)⟩

private theorem Tracks.refuse (h : Tracks receipts unpublished base identity stored shown)
    (hpending : unpublished.Nodup) {newer : SavedTerminalSession K}
    (hk : entry receipts identity k = some snapshot) (hshown : shown = some newer)
    (htime : snapshot.capturedAt < newer.capturedAt) :
    Tracks receipts (unpublished.erase k) base identity stored shown :=
  ⟨h.ordered, h.stored, published_erase hpending (h.shown.refuse h.ordered hk hshown htime)⟩

end SavedSessionCheckpoint

/-! ### Steps -/

variable {row : SessionRow K} {repository : WorkspaceRepository K}

namespace WorkspaceRuntime

open SavedSessionCheckpoint

variable [Scalar K]

/-- Rows and live sessions follow the log, from the checkpoints that the run started with. -/
structure Mirrors (host : Host) (base : String → Option (SavedTerminalSession K))
    (ws : WorkspaceRuntime K) (receipts : List (SavedSessionCheckpoint K))
    (unpublished : List Nat) : Prop where
  distinct : ws.Distinct
  keyed : ws.repository.Keyed
  nodup : ∀ binding ∈ ws.bindings, binding.sessions.identities.Nodup
  pending : unpublished.Nodup
  listed : ∀ k ∈ unpublished, k < receipts.length
  valid : ∀ receipt ∈ receipts, receipt.snapshot.validate host = .ok ()
  owned : ∀ receipt ∈ receipts, ∃ row ∈ ws.repository.rows,
    row.identity = receipt.identity ∧ row.spaceId = receipt.scope
  tracks : ∀ binding ∈ ws.bindings, ∀ session ∈ binding.sessions,
    ∃ row ∈ ws.repository.rows, row.identity = session.identity ∧ row.spaceId = binding.scope ∧
      Tracks receipts unpublished (base session.identity) session.identity row.terminalSnapshot
        session.terminalSnapshot

variable {host : Host} {base : String → Option (SavedTerminalSession K)}
  {ws : WorkspaceRuntime K} {receipts : List (SavedSessionCheckpoint K)} {unpublished : List Nat}

private theorem Mirrors.modifyMux (h : ws.Mirrors host base receipts unpublished) (scope : SpaceId)
    (f : MuxController K → MuxController K) :
    (ws.modifyMux scope f).Mirrors host base receipts unpublished := by
  refine ⟨distinct_modifyMux h.distinct scope f, h.keyed, ?_, h.pending, h.listed, h.valid,
    h.owned, ?_⟩
  · intro binding hbinding
    obtain ⟨before, hbefore, -, hsessions⟩ := mem_modifyMux hbinding
    rw [hsessions]
    exact h.nodup before hbefore
  · intro binding hbinding session hsession
    obtain ⟨before, hbefore, hscope, hsessions⟩ := mem_modifyMux hbinding
    rw [hsessions] at hsession
    rw [hscope]
    exact h.tracks before hbefore session hsession

private theorem Mirrors.scope_eq (h : ws.Mirrors host base receipts unpublished)
    (hreceipt : receipt ∈ receipts) (hrow : row ∈ ws.repository.rows)
    (hidentity : row.identity = receipt.identity) :
    row.spaceId = receipt.scope := by
  obtain ⟨owner, howner, hid, hscope⟩ := h.owned receipt hreceipt
  rw [h.keyed.eq hrow howner (hidentity.trans hid.symm)]
  exact hscope

variable {session : WorkspaceSession K}

omit [Scalar K] in
private theorem get_of_mem {m : SessionMembership K} (hnodup : m.identities.Nodup) (h : session ∈ m)
    : m.get session.identity = some session := by
  cases hget : m.get session.identity with
  | none =>
    have hnone := SessionMembership.get_eq_none.mp hget
    exact absurd (List.mem_map_of_mem h) hnone
  | some found =>
    have hid : found.identity = session.identity := by simpa using List.find?_some hget
    rw [List.inj_on_of_nodup_map hnodup (List.mem_of_find?_eq_some hget) h hid]

variable [DecidableEq K]

omit [Scalar K] in
private theorem mem_setTerminalSnapshot {m : SessionMembership K} (hnodup : m.identities.Nodup)
    {identity : String} (h : session ∈ (m.setTerminalSnapshot identity snapshot).getD m) :
    ∃ before ∈ m, session.identity = before.identity ∧
      session.terminalSnapshot =
        if before.identity = identity then some snapshot else before.terminalSnapshot := by
  cases hset : m.setTerminalSnapshot identity snapshot with
  | none =>
    rw [hset] at h
    refine ⟨session, h, rfl, ?_⟩
    split
    · next hid =>
      -- The session already shows this checkpoint.
      simp only [SessionMembership.setTerminalSnapshot, SessionMembership.update, ← hid,
        get_of_mem hnodup h, Option.bind_some] at hset
      split at hset
      · next hsame => exact congrArg (·.terminalSnapshot) hsame.symm
      · cases hset
    · rfl
  | some m' =>
    rw [hset] at h
    simp only [SessionMembership.setTerminalSnapshot, SessionMembership.update,
      Option.bind_eq_some_iff] at hset
    obtain ⟨_, -, hchanged⟩ := hset
    split at hchanged
    · cases hchanged
    · obtain rfl := Option.some.inj hchanged
      have hmap := modifyFirst_key hnodup identity
        (fun session : WorkspaceSession K ↦ { session with terminalSnapshot := some snapshot })
      rw [Option.getD_some, hmap] at h
      obtain ⟨before, hbefore, rfl⟩ := List.mem_map.mp h
      refine ⟨before, hbefore, ?_, ?_⟩
      · split
        · rfl
        · rfl
      · split
        · rfl
        · rfl

private theorem Mirrors.saved (h : ws.Mirrors host base receipts unpublished)
    {prepared : PreparedSessionCheckpoint K}
    (hcommit : ws.repository.commitTerminalSnapshot host prepared.scope prepared.identity
      prepared.previous snapshot = .ok repository) :
    ({ ws with repository } : WorkspaceRuntime K).Mirrors host base
      (receipts ++ [⟨prepared.scope, prepared.identity, prepared.generation, snapshot⟩])
      (unpublished ++ [receipts.length]) := by
  obtain ⟨hvalid, htime, ⟨owner, howner, hownerId, hownerScope, hprevious⟩, hrows⟩ :=
    WorkspaceRepository.commitTerminalSnapshot_eq_ok hcommit
  have hkept : ∀ row ∈ ws.repository.rows, ∃ row' ∈ repository.rows,
      row'.identity = row.identity ∧ row'.spaceId = row.spaceId ∧ row'.terminalSnapshot =
        if row.identity = prepared.identity ∧ row.spaceId = prepared.scope then some snapshot
        else row.terminalSnapshot := by
    intro row hrow
    refine ⟨_, by rw [hrows]; exact List.mem_map_of_mem hrow, ?_⟩
    split
    · exact ⟨rfl, rfl, rfl⟩
    · exact ⟨rfl, rfl, rfl⟩
  have hkeys : repository.rows.map (·.identity) = ws.repository.rows.map (·.identity) := by
    rw [hrows, List.map_map]
    apply List.map_congr_left
    intro row _
    simp only [Function.comp_apply]
    split
    · rfl
    · rfl
  refine ⟨h.distinct, ?_, h.nodup, ?_, ?_, ?_, ?_, ?_⟩
  · change (repository.rows.map (·.identity)).Nodup
    rw [hkeys]
    exact h.keyed
  · rw [List.nodup_append]
    refine ⟨h.pending, List.nodup_singleton _, ?_⟩
    rintro k hk _ hlast rfl
    have hlt := h.listed k hk
    rw [List.mem_singleton.mp hlast] at hlt
    omega
  · intro k hk
    rw [List.length_append, List.length_singleton]
    rcases List.mem_append.mp hk with hk | hk
    · exact Nat.lt_succ_of_lt (h.listed k hk)
    · rw [List.mem_singleton.mp hk]
      exact Nat.lt_succ_self _
  · intro receipt hreceipt
    rcases List.mem_append.mp hreceipt with hreceipt | hreceipt
    · exact h.valid receipt hreceipt
    · rw [List.mem_singleton.mp hreceipt]
      exact hvalid
  · intro receipt hreceipt
    have hbefore : ∃ row ∈ ws.repository.rows,
        row.identity = receipt.identity ∧ row.spaceId = receipt.scope := by
      rcases List.mem_append.mp hreceipt with hreceipt | hreceipt
      · exact h.owned receipt hreceipt
      · rw [List.mem_singleton.mp hreceipt]
        exact ⟨owner, howner, hownerId, hownerScope⟩
    obtain ⟨row, hrow, hid, hspace⟩ := hbefore
    obtain ⟨row', hrow', hid', hspace', -⟩ := hkept row hrow
    exact ⟨row', hrow', hid'.trans hid, hspace'.trans hspace⟩
  · intro binding hbinding session hsession
    obtain ⟨row, hrow, hid, hspace, htracks⟩ := h.tracks binding hbinding session hsession
    obtain ⟨row', hrow', hid', hspace', hsnapshot⟩ := hkept row hrow
    refine ⟨row', hrow', hid'.trans hid, hspace'.trans hspace, ?_⟩
    rw [hsnapshot]
    by_cases hsame : prepared.identity = session.identity
    · have hown : row = owner :=
        h.keyed.eq hrow howner (hid.trans (hsame.symm.trans hownerId.symm))
      rw [if_pos ⟨hid.trans hsame.symm, by rw [hown]; exact hownerScope⟩]
      apply htracks.commit hsame
      intro old hold
      apply htime old
      rw [← hprevious, ← hown]
      exact hold
    · rw [if_neg fun hboth ↦ hsame (hboth.1.symm.trans hid)]
      exact htracks.other hsame

omit [Scalar K] in
private theorem mem_showCheckpoint (hdistinct : ws.Distinct)
    (hnodup : ∀ binding ∈ ws.bindings, binding.sessions.identities.Nodup)
    {binding' : BindingRuntime K} (hbinding' : binding' ∈ (ws.showCheckpoint receipt).bindings) :
    ∃ binding ∈ ws.bindings, binding'.scope = binding.scope ∧
      binding'.sessions.identities = binding.sessions.identities ∧
      ∀ session' ∈ binding'.sessions, ∃ session ∈ binding.sessions,
        session'.identity = session.identity ∧ session'.terminalSnapshot =
          if binding.scope = receipt.scope ∧ session.identity = receipt.identity then
            some receipt.snapshot
          else session.terminalSnapshot := by
  have hbindings : (ws.showCheckpoint receipt).bindings = ws.bindings.map fun b ↦
      if b.scope = receipt.scope then
        { b with
          sessions :=
            (b.sessions.setTerminalSnapshot receipt.identity receipt.snapshot).getD b.sessions }
      else b :=
    modifyFirst_key hdistinct receipt.scope _
  rw [hbindings] at hbinding'
  obtain ⟨binding, hbinding, rfl⟩ := List.mem_map.mp hbinding'
  refine ⟨binding, hbinding, ?_⟩
  split
  · next hscope =>
    refine ⟨rfl, ?_, ?_⟩
    · cases hset : binding.sessions.setTerminalSnapshot receipt.identity receipt.snapshot with
      | none => rfl
      | some sessions =>
        simp only [SessionMembership.setTerminalSnapshot, SessionMembership.update,
          Option.bind_eq_some_iff] at hset
        obtain ⟨_, -, hchanged⟩ := hset
        split at hchanged
        · cases hchanged
        · obtain rfl := Option.some.inj hchanged
          apply SessionMembership.identities_modifyFirst
          intro session
          rfl
    · intro session' hsession'
      obtain ⟨session, hsession, hid, hsnapshot⟩ :=
        mem_setTerminalSnapshot (hnodup binding hbinding) hsession'
      refine ⟨session, hsession, hid, ?_⟩
      rw [hsnapshot]
      simp only [hscope, true_and]
  · next hother =>
    refine ⟨rfl, rfl, ?_⟩
    intro session hsession
    refine ⟨session, hsession, rfl, ?_⟩
    rw [if_neg fun hboth ↦ hother hboth.1]

omit [DecidableEq K] in
private theorem Mirrors.tracks_publish (h : ws.Mirrors host base receipts unpublished)
    (hlisted : receipts[k]? = some receipt)
    (htie : ∀ j later, j ∉ unpublished → k < j → receipts[j]? = some later →
      later.identity = receipt.identity → later.snapshot.capturedAt = receipt.snapshot.capturedAt →
      later.snapshot = receipt.snapshot) {binding : BindingRuntime K}
    (hbinding : binding ∈ ws.bindings) (hsession : session ∈ binding.sessions)
    {shown : Option (SavedTerminalSession K)}
    (hshown : receipt.identity = session.identity → ws.binding receipt.scope = some binding →
      binding.sessions.get receipt.identity = some session →
      (∃ newer, session.terminalSnapshot = some newer ∧ shown = some newer ∧
        receipt.snapshot.capturedAt < newer.capturedAt) ∨
      shown = some receipt.snapshot ∧ ∀ old, session.terminalSnapshot = some old →
        old.capturedAt ≤ receipt.snapshot.capturedAt)
    (hother : receipt.identity ≠ session.identity → shown = session.terminalSnapshot) :
    ∃ row ∈ ws.repository.rows, row.identity = session.identity ∧ row.spaceId = binding.scope ∧
      Tracks receipts (unpublished.erase k) (base session.identity) session.identity
        row.terminalSnapshot shown := by
  obtain ⟨row, hrow, hid, hspace, htracks⟩ := h.tracks binding hbinding session hsession
  refine ⟨row, hrow, hid, hspace, ?_⟩
  by_cases hsame : receipt.identity = session.identity
  · have hscope : receipt.scope = binding.scope := by
      rw [← hspace]
      exact (h.scope_eq (List.mem_of_getElem? hlisted) hrow (hid.trans hsame.symm)).symm
    have hlive : ws.binding receipt.scope = some binding := by
      rw [hscope]
      exact binding_of_mem h.distinct hbinding
    have hget : binding.sessions.get receipt.identity = some session := by
      rw [hsame]
      exact get_of_mem (h.nodup binding hbinding) hsession
    have hentry : entry receipts session.identity k = some receipt.snapshot :=
      entry_eq_some.mpr ⟨receipt, hlisted, hsame, rfl⟩
    rcases hshown hsame hlive hget with ⟨newer, hlater, hkept, htime⟩ | ⟨hnew, holder⟩
    · rw [hkept]
      rw [hlater] at htracks
      exact htracks.refuse h.pending hentry rfl htime
    · rw [hnew]
      apply htracks.deliver h.pending hentry holder
      intro j later hj hlt hjentry htime
      obtain ⟨other, hother, hotherId, rfl⟩ := entry_eq_some.mp hjentry
      exact htie j other hj hlt hother (hotherId.trans hsame.symm) htime
  · rw [hother hsame]
    exact htracks.unrelated h.pending hlisted hsame

private theorem Mirrors.published (h : ws.Mirrors host base receipts unpublished)
    (hlisted : receipts[k]? = some receipt)
    (htie : ∀ j later, j ∉ unpublished → k < j → receipts[j]? = some later →
      later.identity = receipt.identity → later.snapshot.capturedAt = receipt.snapshot.capturedAt →
      later.snapshot = receipt.snapshot) {admitted : Bool} {ws' : WorkspaceRuntime K}
    (hshown : ws.publishSessionCheckpoint host receipt = .ok (admitted, ws')) :
    ws'.Mirrors host base receipts (unpublished.erase k) := by
  have hpending := h.pending.erase k
  have hindices : ∀ j ∈ unpublished.erase k, j < receipts.length :=
    fun j hj ↦ h.listed j (List.mem_of_mem_erase hj)
  rcases publishSessionCheckpoint_cases hshown with ⟨rfl, hnewer⟩ |
    ⟨rfl, live, held, hlive, hheld, holder⟩
  · refine ⟨h.distinct, h.keyed, h.nodup, hpending, hindices, h.valid, h.owned, ?_⟩
    intro binding hbinding session hsession
    apply h.tracks_publish hlisted htie hbinding hsession
    · intro _ hbound hget
      obtain ⟨newer, hsnapshot, htime⟩ := hnewer binding session hbound hget
      exact .inl ⟨newer, hsnapshot, hsnapshot, htime⟩
    · exact fun _ ↦ rfl
  · have hscopes : (ws.showCheckpoint receipt).bindings.map (·.scope) =
        ws.bindings.map (·.scope) := by
      apply map_modifyFirst
      intro binding
      rfl
    refine ⟨?_, h.keyed, ?_, hpending, hindices, h.valid, h.owned, ?_⟩
    · rw [Distinct, hscopes]
      exact h.distinct
    · intro binding' hbinding'
      obtain ⟨binding, hbinding, -, hids, -⟩ := mem_showCheckpoint h.distinct h.nodup hbinding'
      rw [hids]
      exact h.nodup binding hbinding
    · intro binding' hbinding' session' hsession'
      obtain ⟨binding, hbinding, hscope, -, hsessions⟩ :=
        mem_showCheckpoint h.distinct h.nodup hbinding'
      obtain ⟨session, hsession, hid, hsnapshot⟩ := hsessions session' hsession'
      rw [hscope, hid]
      apply h.tracks_publish hlisted htie hbinding hsession
      · intro hsame hbound hget
        obtain rfl : live = binding := Option.some.inj (hlive.symm.trans hbound)
        obtain rfl : held = session := Option.some.inj (hheld.symm.trans hget)
        refine .inr ⟨?_, holder⟩
        rw [hsnapshot, if_pos ⟨(scope_of_binding hbound).2, hsame.symm⟩]
      · intro hdiffers
        rw [hsnapshot, if_neg fun hboth ↦ hdiffers hboth.2.symm]

end WorkspaceRuntime

/-! ### Runs -/

namespace CheckpointedWorkspace

variable [DecidableEq K] [Scalar K] {host : Host} {s s' : CheckpointedWorkspace K}
  {base : String → Option (SavedTerminalSession K)}

/-- Rows and live sessions follow the receipts. -/
private def FollowsReceipts (host : Host) (base : String → Option (SavedTerminalSession K))
    (s : CheckpointedWorkspace K) : Prop :=
  s.client.runtime.Mirrors host base s.receipts s.unpublished

omit [Scalar K] in
private theorem tie_of_inOrder (horder : s.inOrder (.publish k) = true)
    (hlisted : s.receipts[k]? = some receipt) :
    ∀ j later, j ∉ s.unpublished → k < j → s.receipts[j]? = some later →
      later.identity = receipt.identity → later.snapshot.capturedAt = receipt.snapshot.capturedAt →
      later.snapshot = receipt.snapshot := by
  intro j later hj hlt hlater hid htime
  have hlength : j < s.receipts.length := (List.getElem?_eq_some_iff.mp hlater).1
  simp only [inOrder, hlisted, Option.all_some, List.all_eq_true] at horder
  have hplace := horder j (List.mem_range.mpr hlength)
  have hnot : ¬ j ≤ k := by omega
  simpa [hnot, hj, hlater, hid, htime] using hplace

private theorem FollowsReceipts.step {event : CheckpointEvent K} (h : FollowsReceipts host base s)
    (hmembership : keepsMembership event = true) (horder : s.inOrder event = true)
    (hstep : s.step host event = some s') : FollowsReceipts host base s' := by
  cases transition_of_step hstep with
  | @client event client hclient =>
    cases event with
    | refresh scope peer snapshot =>
      obtain rfl := Option.some.inj hclient
      exact WorkspaceRuntime.Mirrors.modifyMux h scope (·.applyServerSnapshot peer snapshot)
    | setAvailable scope available =>
      obtain rfl := Option.some.inj hclient
      exact WorkspaceRuntime.Mirrors.modifyMux h scope fun mux ↦ { mux with available }
    | _ => cases hmembership
  | worker _ => exact h
  | saved hcommit => exact WorkspaceRuntime.Mirrors.saved h hcommit
  | published hlisted _ hshown =>
    exact WorkspaceRuntime.Mirrors.published h hlisted (tie_of_inOrder horder hlisted) hshown
  | @malformed k receipt message hlisted hshown =>
    -- Only validated checkpoints were committed.
    have hvalid := h.valid receipt (List.mem_of_getElem? hlisted)
    simp only [WorkspaceRuntime.publishSessionCheckpoint] at hshown
    split at hshown
    · cases hshown
    · split at hshown
      · cases hshown
      · rw [hvalid] at hshown
        simp only [bind, Except.bind] at hshown
        split at hshown
        · cases hshown
        · cases hshown

omit [DecidableEq K] in
private theorem Mirrored.followsReceipts (h : s.Mirrored) (hreceipts : s.receipts = [])
    (hunpublished : s.unpublished = []) : FollowsReceipts host
      (fun identity ↦ (s.client.runtime.repository.stored identity).join) s := by
  rw [FollowsReceipts, hreceipts, hunpublished]
  refine ⟨h.distinct, h.keyed, h.nodup, List.nodup_nil, ?_, ?_, ?_, ?_⟩
  · intro k hk
    cases hk
  · intro receipt hreceipt
    cases hreceipt
  · intro receipt hreceipt
    cases hreceipt
  · intro binding hbinding session hsession
    obtain ⟨row, hrow, hid, hspace, hsnapshot⟩ := h.shown binding hbinding session hsession
    have hbase : (s.client.runtime.repository.stored session.identity).join =
        session.terminalSnapshot := by
      rw [← hid, WorkspaceRepository.stored_of_mem h.keyed hrow, hsnapshot]
      rfl
    refine ⟨row, hrow, hid, hspace, ?_, ?_, ?_⟩
    · constructor
      · intro j k c d _ hj
        cases hj
      · intro old k c _ hk
        cases hk
    · exact .inl ⟨hsnapshot.trans hbase.symm, fun _ _ ↦ rfl⟩
    · exact .inl ⟨hbase.symm, fun _ _ ↦ rfl⟩

private theorem commit_isOk (hkeyed : repository.Keyed) (hrow : row ∈ repository.rows)
    (hvalid : snapshot.validate host = .ok ()) (hid : snapshot.sessionId = row.identity)
    (htime : ∀ old, row.terminalSnapshot = some old → old.capturedAt ≤ snapshot.capturedAt) :
    (repository.commitTerminalSnapshot host row.spaceId row.identity row.terminalSnapshot
      snapshot).isOk = true := by
  have hfind : repository.rows.find? (fun other ↦
      other.identity == row.identity && other.spaceId == row.spaceId) = some row := by
    cases hfound : repository.rows.find? (fun other ↦
        other.identity == row.identity && other.spaceId == row.spaceId) with
    | none =>
      have hnone := List.find?_eq_none.mp hfound row hrow
      simp at hnone
    | some other =>
      have hmatches := List.find?_some hfound
      simp only [Bool.and_eq_true, beq_iff_eq] at hmatches
      rw [hkeyed.eq (List.mem_of_find?_eq_some hfound) hrow hmatches.1]
  have hlater : (row.terminalSnapshot.any fun old ↦
      decide (snapshot.capturedAt < old.capturedAt)) = false := by
    cases hsnapshot : row.terminalSnapshot with
    | none => rfl
    | some old => simpa using htime old hsnapshot
  simp [WorkspaceRepository.commitTerminalSnapshot, hvalid, hid, hlater, hfind, ensure, bind,
    Except.bind, pure, Except.pure, Except.isOk, Except.toBool]

/-- When all receipts are published, each no later than those of the same time that were
committed after it, every live checkpoint is the stored one, and the next checkpoint prepared
from it passes the compare-and-swap. -/
theorem live_checkpoint_mirrors_storage (host : Host) {init s : CheckpointedWorkspace K}
    (hinit : init.Mirrored) (hfresh : init.receipts = [] ∧ init.unpublished = [])
    (hrun : Reaches (step host)
      (fun s event ↦ (keepsMembership event && s.inOrder event) = true) init s)
    (hpublished : s.unpublished = []) {binding : BindingRuntime K}
    (hbinding : binding ∈ s.client.runtime.bindings) {session : WorkspaceSession K}
    (hsession : session ∈ binding.sessions) :
    s.client.runtime.repository.stored session.identity = some session.terminalSnapshot ∧
      ∀ snapshot : SavedTerminalSession K, snapshot.validate host = .ok () →
        snapshot.sessionId = session.identity →
        (∀ old, session.terminalSnapshot = some old → old.capturedAt ≤ snapshot.capturedAt) →
        (s.client.runtime.repository.commitTerminalSnapshot host binding.scope session.identity
          session.terminalSnapshot snapshot).isOk = true := by
  have hmirrors : FollowsReceipts host
      (fun identity ↦ (init.client.runtime.repository.stored identity).join) s := by
    apply hrun.invariant (hinit.followsReceipts hfresh.1 hfresh.2)
    intro before event after h hallowed hstep
    rw [Bool.and_eq_true] at hallowed
    exact h.step hallowed.1 hallowed.2 hstep
  obtain ⟨row, hrow, hid, hspace, htracks⟩ := hmirrors.tracks binding hbinding session hsession
  have hsame : row.terminalSnapshot = session.terminalSnapshot := by
    apply htracks.stored.unique htracks.shown
    intro k _
    simp [hpublished]
  rw [← hid, ← hspace, ← hsame]
  refine ⟨WorkspaceRepository.stored_of_mem hmirrors.keyed hrow, ?_⟩
  intro snapshot hvalid hsnapshot htime
  exact commit_isOk hmirrors.keyed hrow hvalid hsnapshot htime

/-! ### Two checkpoints of one second -/

private def mirroredRow : SessionRow Binary32 :=
  { identity := "x", spaceId := 1, backendName := "x", displayName := "x", explicit := false
    cwd := "/src", state := {}, terminalSnapshot := none, position := 0 }

/-- The session as its server has reported it. -/
private def attachedSession : MuxSession Binary32 :=
  { id := "s", name := "x", active := true
    anchor := { sessionId := "s", paneId := some "p", panePid := none, cwd := none
                process := none }
    activeWindowId := none, windows := [], tag := ⟨some "x", some "a"⟩ }

/-- A Space with the session `x`, which runs on its server. -/
def attached : CheckpointedWorkspace Binary32 :=
  { client :=
      { runtime :=
          { repository := { spaces := [1], rows := [mirroredRow] }
            bindings := [{ scope := 1, spaceTag := "a", remote := false
                           sessions := [mirroredRow.session]
                           mux := { hasSnapshot := true, serverGeneration := some 7
                                    serverRevision := some 1, sessions := [attachedSession]
                                    allSessions := [attachedSession] } }] } } }

private theorem mirrored_attached : attached.Mirrored := by
  refine ⟨List.nodup_singleton _, List.nodup_singleton _, ?_, ?_⟩
  · intro binding hbinding
    obtain rfl := List.mem_singleton.mp hbinding
    exact List.nodup_singleton _
  · intro binding hbinding session hsession
    obtain rfl := List.mem_singleton.mp hbinding
    obtain rfl := List.mem_singleton.mp hsession
    exact ⟨mirroredRow, List.mem_singleton_self _, rfl, rfl, rfl⟩

/-- Prepare a checkpoint of the second 10 whose window has this title. -/
private def preparing (title : String) : CheckpointEvent Binary32 :=
  .prepare 1 "x" 0 10 none
    [{ id := "w", backendId := "w", title, focusedPaneId := "p", layout := none
       panes := [{ id := "p", backendId := "p", cwd := "/src", cols := 0, rows := 0, text := "" }] }]

private def savingPane : CheckpointEvent Binary32 :=
  .save 0 [{ paneId := "p", cwd := none, cols := 0, rows := 0, text := "", omittedLines := 0 }]

/-- Two checkpoints are committed, the second one advanced with the receipt of the first. -/
private def committing : List (CheckpointEvent Binary32) :=
  [preparing "first", savingPane, preparing "second", .follow 0 0, savingPane]

/-- All receipts are published, and the live checkpoint differs from the stored one. -/
private def differs (s : CheckpointedWorkspace Binary32) : Bool :=
  s.unpublished.isEmpty && s.client.runtime.bindings.any fun binding ↦
    binding.sessions.any fun session ↦ decide (s.client.runtime.repository.stored session.identity ≠
      some session.terminalSnapshot)

/-- A checkpoint that is shown as it is stored. -/
theorem live_checkpoint_mirrors_storage_pair : ∃ s : CheckpointedWorkspace Binary32,
    s.receipts.length = 2 ∧ ∀ binding ∈ s.client.runtime.bindings, ∀ session ∈ binding.sessions,
      s.client.runtime.repository.stored session.identity = some session.terminalSnapshot := by
  obtain ⟨s, hrun, hgoal⟩ := exists_reaches_of_runEvents (fun _ _ htest ↦ htest)
    (show (runEvents (step Host.plain) (fun s event ↦ keepsMembership event && s.inOrder event)
      attached (committing ++ [.publish 0, .publish 1])).map
        (fun s ↦ s.unpublished.isEmpty && s.receipts.length == 2) = some true by decide +kernel)
  simp only [Bool.and_eq_true, List.isEmpty_iff, beq_iff_eq] at hgoal
  refine ⟨s, hgoal.2, ?_⟩
  intro binding hbinding session hsession
  exact (live_checkpoint_mirrors_storage Host.plain mirrored_attached ⟨rfl, rfl⟩ hrun hgoal.1
    hbinding hsession).1

/-- Published in the other order, the receipt of the first checkpoint is shown over the
second one, which was captured in the same second. -/
theorem not_live_checkpoint_mirrors_storage :
    ¬ ∀ s, Reaches (step Host.plain) (fun _ event ↦ keepsMembership event = true) attached s →
      s.unpublished = [] → ∀ binding ∈ s.client.runtime.bindings, ∀ session ∈ binding.sessions,
      s.client.runtime.repository.stored session.identity = some session.terminalSnapshot := by
  intro h
  obtain ⟨s, hrun, hgoal⟩ := exists_reaches_of_runEvents (fun _ _ htest ↦ htest)
    (show (runEvents (step Host.plain) (fun _ event ↦ keepsMembership event) attached
      (committing ++ [.publish 1, .publish 0])).map differs = some true by decide +kernel)
  simp only [differs, Bool.and_eq_true, List.isEmpty_iff, List.any_eq_true,
    decide_eq_true_eq] at hgoal
  obtain ⟨hpublished, binding, hbinding, session, hsession, hdiffers⟩ := hgoal
  exact hdiffers (h s hrun hpublished binding hbinding session hsession)

end CheckpointedWorkspace
end Bootty.Mux
