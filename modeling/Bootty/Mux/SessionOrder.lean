import Bootty.Base.Contiguous
import Bootty.Mux.SessionMembership

/-!
# Sidebar order

The order operations of `crates/bootty-mux/src/session_membership.rs:103–131` and `210–332` on a
membership with distinct identities in which every group stands together. What `block` finds is
then the whole group of a session, or the session alone when it has none. A block is lifted out
and put back only where another block begins or the list ends, so that no group is cut in two.
-/

namespace Bootty.Mux
namespace SessionMembership

open Bootty.Base

variable {K : Type}

/-- The sessions of every named group stand together. -/
def Grouped (m : SessionMembership K) : Prop :=
  ∀ group, group ≠ "" → Contiguous (·.group = group) m

/-- The other session moves together with the first one: it is of the same named group, or the
same session. -/
def inBlock (session other : WorkspaceSession K) : Bool :=
  if session.group = "" then other.identity == session.identity
  else other.group == session.group

/-- The block of a session, in the order of the list. -/
def blockOf (m : SessionMembership K) (session : WorkspaceSession K) : SessionMembership K :=
  m.filter (inBlock session)

/-! ### Positions -/

variable {identity : String} {i : Nat}

section Positions

variable {m : SessionMembership K}

private theorem inBlock_self (session : WorkspaceSession K) : inBlock session session = true := by
  unfold inBlock
  split <;> simp

/-- A position splits the list at the session of that identity. -/
theorem position_eq_some (h : m.position identity = some i) :
    ∃ before session after, m = before ++ session :: after ∧ before.length = i ∧
      session.identity = identity := by
  have ⟨session, hat, hidentity⟩ := getElem?_of_findIdx? h
  have ⟨before, after, hm, hlength⟩ := exists_split_of_getElem? hat
  exact ⟨before, session, after, hm, hlength, by simpa using hidentity⟩

/-- With distinct identities a session stands in one place. -/
theorem position_unique {j : Nat} {session : WorkspaceSession K} (hn : m.identities.Nodup)
    (hi : m[i]? = some session) (hj : m[j]? = some session) : i = j := by
  have hlt : i < m.identities.length := by
    rw [identities, List.length_map]
    exact (List.getElem?_eq_some_iff.mp hi).1
  apply (List.getElem?_inj hlt hn).mp
  rw [identities, List.getElem?_map, List.getElem?_map, hi, hj]

end Positions

/-! ### Blocks -/

/-- What `block` finds: the list is what stands before the block, the block, and the rest. -/
structure Spans (m : SessionMembership K) (session : WorkspaceSession K)
    (before block after : SessionMembership K) : Prop where
  split : m = before ++ block ++ after
  members : ∀ x ∈ block, inBlock session x = true
  outside : ∀ x ∈ before ++ after, inBlock session x = false
  alone : session.group = "" → block = [session]

namespace Spans

variable {m before block after : SessionMembership K} {session : WorkspaceSession K}

private theorem blockOf_eq (h : Spans m session before block after) :
    m.blockOf session = block := by
  unfold blockOf
  rw [h.split, List.filter_append, List.filter_append, List.filter_eq_self.mpr h.members,
    List.filter_eq_nil_iff.mpr, List.filter_eq_nil_iff.mpr]
  · simp
  · intro x hx
    rw [h.outside x (List.mem_append_right _ hx)]
    exact Bool.false_ne_true
  · intro x hx
    rw [h.outside x (List.mem_append_left _ hx)]
    exact Bool.false_ne_true

private theorem rest_eq (h : Spans m session before block after) :
    m.filter (fun x ↦ !inBlock session x) = before ++ after := by
  have hout : ∀ x ∈ before ++ after, (!inBlock session x) = true := by
    intro x hx
    rw [h.outside x hx, Bool.not_false]
  rw [h.split, List.filter_append, List.filter_append,
    List.filter_eq_self.mpr fun x hx ↦ hout x (List.mem_append_left _ hx),
    List.filter_eq_self.mpr fun x hx ↦ hout x (List.mem_append_right _ hx),
    List.filter_eq_nil_iff.mpr, List.append_nil]
  intro x hx
  rw [h.members x hx]
  exact Bool.false_ne_true

end Spans

variable {front back : SessionMembership K}

/-- `block` finds the whole group of a session, or the session alone when it has none. -/
theorem exists_spans {m : SessionMembership K} {session : WorkspaceSession K} (hg : Grouped m)
    (hn : m.identities.Nodup) (hm : m = front ++ session :: back) :
    ∃ before block after, Spans m session before block after ∧ session ∈ block ∧
      m.block session.group front.length = some (before.length, (before ++ block).length) := by
  have hlt : front.length < m.length := by
    rw [hm, List.length_append, List.length_cons]
    omega
  by_cases hgroup : session.group = ""
  · refine ⟨front, [session], back, ⟨by simp [hm], ?_, ?_, fun _ ↦ rfl⟩, by simp, ?_⟩
    · intro x hx
      rw [List.mem_singleton.mp hx]
      exact inBlock_self session
    · intro x hx
      simp only [inBlock, if_pos hgroup, beq_eq_false_iff_ne]
      rw [hm] at hn
      simp only [identities, List.map_append, List.map_cons, List.nodup_middle,
        List.nodup_cons] at hn
      intro heq
      exact hn.1 (heq ▸ by simpa using List.mem_map_of_mem hx)
    · unfold SessionMembership.block
      rw [if_pos hlt, if_pos hgroup]
      simp
  · obtain ⟨u, v, w, hsplit, hu, hv, hw⟩ := (hg session.group hgroup).exists_run
    obtain ⟨a, b, hfront, hblock, hback⟩ := exists_split_run (hsplit.symm.trans hm) hu hw rfl
    have hin : ∀ x, inBlock session x = (x.group == session.group) := by
      intro x
      rw [inBlock, if_neg hgroup]
    refine ⟨u, v, w, ⟨hsplit, ?_, ?_, fun hnone ↦ absurd hnone hgroup⟩, by simp [hblock], ?_⟩
    · intro x hx
      rw [hin]
      exact beq_iff_eq.mpr (hv x hx)
    · intro x hx
      rw [hin]
      apply beq_eq_false_iff_ne.mpr
      rcases List.mem_append.mp hx with hx | hx
      · exact hu x hx
      · exact hw x hx
    · have hpreceding : (m.take front.length).reverse.takeWhile (·.group == session.group) =
          a.reverse := by
        rw [hm, List.take_left, hfront, List.reverse_append]
        apply takeWhile_run
        · intro x hx
          exact beq_iff_eq.mpr (hv x (by rw [hblock]; simp at hx; simp [hx]))
        · intro x hx
          exact beq_eq_false_iff_ne.mpr (hu x (by simpa using hx))
      have hfollowing : (m.drop front.length).takeWhile (·.group == session.group) =
          session :: b := by
        rw [hm, List.drop_left, hback, ← List.cons_append]
        apply takeWhile_run
        · intro x hx
          exact beq_iff_eq.mpr (hv x (by rw [hblock]; exact List.mem_append_right _ hx))
        · intro x hx
          exact beq_eq_false_iff_ne.mpr (hw x hx)
      unfold SessionMembership.block
      rw [if_pos hlt, if_neg hgroup]
      dsimp only
      rw [hpreceding, hfollowing, hfront, hblock]
      simp only [List.length_append, List.length_reverse, List.length_cons, Option.some.injEq,
        Prod.mk.injEq]
      omega

/-! ### Lifting a block out and putting it back -/

/-- No named group has a session on both sides of the cut. -/
def Boundary (front back : SessionMembership K) : Prop :=
  ∀ group, group ≠ "" →
    (∀ x ∈ front.getLast?, x.group ≠ group) ∨ ∀ y ∈ back.head?, y.group ≠ group

/-- A block begins at a boundary. -/
theorem Spans.boundary {m before block after : SessionMembership K}
    {session : WorkspaceSession K} (h : Spans m session before block after)
    (hmem : session ∈ block) : Boundary before (block ++ after) := by
  intro group hgroup
  by_cases hsame : session.group = group
  · left
    intro x hx heq
    have hout := h.outside x (List.mem_append_left _ (List.mem_of_getLast? hx))
    rw [inBlock, if_neg (hsame ▸ hgroup), hsame] at hout
    exact beq_eq_false_iff_ne.mp hout heq
  · right
    intro y hy heq
    by_cases hnone : session.group = ""
    · rw [h.alone hnone, List.singleton_append, List.head?_cons, Option.mem_some_iff] at hy
      exact hsame (hy ▸ heq)
    · cases block with
      | nil => cases hmem
      | cons first block =>
        rw [List.cons_append, List.head?_cons, Option.mem_some_iff] at hy
        have hfirst := h.members first List.mem_cons_self
        rw [inBlock, if_neg hnone, hy] at hfirst
        exact hsame ((beq_iff_eq.mp hfirst).symm.trans heq)

/-- A block put back at a boundary leaves the groups together. -/
theorem Spans.grouped {m before block after : SessionMembership K} {session : WorkspaceSession K}
    (h : Spans m session before block after) (hg : Grouped m)
    (hrest : front ++ back = before ++ after) (hcut : Boundary front back) :
    Grouped (front ++ block ++ back) := by
  intro group hgroup
  by_cases hsame : session.group = group
  · have hin : ∀ x, inBlock session x = (x.group == group) := by
      intro x
      rw [inBlock, if_neg (hsame ▸ hgroup), hsame]
    have hout : ∀ x ∈ front ++ back, x.group ≠ group := by
      intro x hx
      have hx := h.outside x (hrest ▸ hx)
      rw [hin] at hx
      exact beq_eq_false_iff_ne.mp hx
    apply Contiguous.of_run
    · exact fun x hx ↦ hout x (List.mem_append_left _ hx)
    · intro x hx
      have hx := h.members x hx
      rw [hin] at hx
      exact beq_iff_eq.mp hx
    · exact fun x hx ↦ hout x (List.mem_append_right _ hx)
  · apply Contiguous.insert
    · apply (hg group hgroup).sublist
      rw [hrest, h.split]
      exact (List.sublist_append_left before block).append_right after
    · intro x hx heq
      by_cases hnone : session.group = ""
      · rw [h.alone hnone, List.mem_singleton] at hx
        exact hsame (hx ▸ heq)
      · have hx := h.members x hx
        rw [inBlock, if_neg hnone] at hx
        exact hsame ((beq_iff_eq.mp hx).symm.trans heq)
    · exact hcut group hgroup

/-- Where a block is put back: at the block of the anchor, or at the end. -/
theorem exists_insertPoint {m : SessionMembership K} (hg : Grouped m) (hn : m.identities.Nodup)
    (anchor : Option Nat) :
    ∃ front back, m = front ++ back ∧ front.length = (anchor.bind m.blockStart).getD m.length ∧
      Boundary front back := by
  cases hstart : anchor.bind m.blockStart with
  | none =>
    refine ⟨m, [], by simp, rfl, ?_⟩
    intro group _
    right
    simp
  | some start =>
    have ⟨i, _, hblock⟩ := Option.bind_eq_some_iff.mp hstart
    have ⟨session, hat, hfound⟩ := Option.bind_eq_some_iff.mp hblock
    have ⟨front, back, hm, hlength⟩ := exists_split_of_getElem? hat
    have ⟨before, block, after, hspans, hmem, hspan⟩ := exists_spans hg hn hm
    rw [hlength] at hspan
    rw [hspan] at hfound
    refine ⟨before, block ++ after, by rw [hspans.split, List.append_assoc], ?_, ?_⟩
    · exact Option.some.inj hfound
    · exact hspans.boundary hmem

variable {m' : SessionMembership K}

/-- What `move_block` leaves: the block has passed some sessions upwards, or downwards. -/
theorem moveBlock_eq_some {m before block after : SessionMembership K} {group : String}
    {index : Nat} {anchor : Option Nat} (hsplit : m = before ++ block ++ after)
    (hblock : m.block group index = some (before.length, (before ++ block).length))
    (hcut : m = front ++ back) (hfront : front.length = (anchor.bind m.blockStart).getD m.length)
    (h : m.moveBlock group index anchor = some m') :
    (∃ passed, passed ≠ [] ∧ before = front ++ passed ∧ back = passed ++ block ++ after ∧
        m' = front ++ block ++ (passed ++ after)) ∨
      ∃ passed, passed ≠ [] ∧ after = passed ++ back ∧ front = before ++ block ++ passed ∧
        m' = before ++ passed ++ block ++ back := by
  unfold moveBlock at h
  rw [hblock] at h
  dsimp only [Option.bind_some] at h
  rw [← hfront] at h
  have hlift : (m.take (before ++ block).length).drop before.length = block := by
    rw [hsplit, List.take_left, List.drop_left]
  have hrest : m.take before.length ++ m.drop (before ++ block).length = before ++ after := by
    rw [hsplit, List.drop_left, List.append_assoc, List.take_left]
  rw [hlift, hrest] at h
  split at h
  · cases h
  · next hmoves =>
    have hm' := Option.some.inj h
    subst hm'
    have heq : front ++ back = before ++ block ++ after := hcut.symm.trans hsplit
    by_cases hup : front.length < before.length
    · left
      rw [List.append_assoc] at heq
      have ⟨passed, hbefore, hback⟩ := exists_between_cuts heq hup.le
      refine ⟨passed, ?_, hbefore, by rw [hback, List.append_assoc], ?_⟩
      · rintro rfl
        rw [hbefore, List.append_nil] at hup
        exact Nat.lt_irrefl _ hup
      · rw [if_neg (by omega), hbefore, List.append_assoc front passed, List.take_left,
          List.drop_left]
    · right
      have hdown : (before ++ block).length < front.length := by omega
      have ⟨passed, hfronts, hafter⟩ := exists_between_cuts heq.symm hdown.le
      have hlength : front.length - block.length = (before ++ passed).length := by
        rw [hfronts]
        simp only [List.length_append]
        omega
      have hlater : front.length > before.length := by
        rw [List.length_append] at hdown
        omega
      refine ⟨passed, ?_, hafter, hfronts, ?_⟩
      · rintro rfl
        rw [hfronts, List.append_nil] at hdown
        exact Nat.lt_irrefl _ hdown
      · rw [if_pos hlater, hlength, hafter, ← List.append_assoc, List.take_left, List.drop_left]

private theorem swapped_ne {front a b back : SessionMembership K} (ha : a ≠ []) (hb : b ≠ [])
    (hn : (identities (front ++ a ++ (b ++ back))).Nodup) :
    front ++ b ++ (a ++ back) ≠ front ++ a ++ (b ++ back) := by
  intro heq
  rw [List.append_assoc, List.append_assoc, List.append_cancel_left_eq] at heq
  cases a with
  | nil => exact ha rfl
  | cons x a =>
    cases b with
    | nil => exact hb rfl
    | cons y b =>
      simp only [List.cons_append, List.cons.injEq] at heq
      rw [heq.1] at hn
      simp only [identities, List.append_assoc, List.cons_append, List.map_append, List.map_cons,
        List.nodup_middle, List.nodup_cons] at hn
      exact hn.1 (by simp)

/-- A moved block changes the order and leaves the groups together. -/
theorem grouped_moveBlock {m : SessionMembership K} {session : WorkspaceSession K}
    {anchor : Option Nat} (hg : Grouped m) (hn : m.identities.Nodup)
    (hm : m = front ++ session :: back)
    (h : m.moveBlock session.group front.length anchor = some m') : Grouped m' ∧ m' ≠ m := by
  have ⟨before, block, after, hspans, hmem, hblock⟩ := exists_spans hg hn hm
  have ⟨left, right, hcut, hleft, hboundary⟩ := exists_insertPoint hg hn anchor
  have hne : block ≠ [] := List.ne_nil_of_mem hmem
  rcases moveBlock_eq_some hspans.split hblock hcut hleft h with
    ⟨passed, hpassed, hbefore, hright, hm'⟩ | ⟨passed, hpassed, hafter, hfront, hm'⟩
  · subst hm' hbefore
    constructor
    · apply hspans.grouped hg (by simp)
      intro group hgroup
      refine (hboundary group hgroup).imp id ?_
      rw [hright]
      cases passed with
      | nil => exact absurd rfl hpassed
      | cons x passed => simp
    · have hsplit := hspans.split
      rw [List.append_assoc (left ++ passed)] at hsplit
      rw [hsplit] at hn ⊢
      exact swapped_ne hpassed hne hn
  · subst hm' hafter
    constructor
    · apply hspans.grouped hg (by simp)
      intro group hgroup
      refine (hboundary group hgroup).imp ?_ id
      rw [hfront]
      rcases List.eq_nil_or_concat passed with hnil | ⟨init, last, hlast⟩
      · exact absurd hnil hpassed
      · simp [hlast]
    · have hsplit := hspans.split
      rw [hsplit] at hn ⊢
      rw [List.append_assoc (before ++ passed)]
      exact swapped_ne hne hpassed hn

/-! ### Moving inside a group -/

variable {before' after' : SessionMembership K} {s t : WorkspaceSession K}

private theorem exists_split_pair {m before after : SessionMembership K}
    (hs : m = before ++ s :: after) (ht : m = before' ++ t :: after')
    (hne : before.length ≠ before'.length) :
    (∃ mid, before' = before ++ s :: mid ∧ after = mid ++ t :: after') ∨
      ∃ mid, before = before' ++ t :: mid ∧ after' = mid ++ s :: after := by
  rcases Nat.lt_or_gt_of_ne hne with hlt | hlt
  · left
    have ⟨mid, hbefore, hafter⟩ := exists_between_cuts (hs.symm.trans ht) hlt.le
    cases mid with
    | nil => simp [hbefore] at hlt
    | cons x mid =>
      rw [List.cons_append, List.cons.injEq] at hafter
      exact ⟨mid, hafter.1 ▸ hbefore, hafter.2⟩
  · right
    have ⟨mid, hbefore, hafter⟩ := exists_between_cuts (ht.symm.trans hs) hlt.le
    cases mid with
    | nil => simp [hbefore] at hlt
    | cons x mid =>
      rw [List.cons_append, List.cons.injEq] at hafter
      exact ⟨mid, hafter.1 ▸ hbefore, hafter.2⟩

/-- What `move_within_group` leaves: the session stands directly before the anchor. -/
theorem moveWithinGroup_eq_some {m before after : SessionMembership K}
    (hs : m = before ++ s :: after) (ht : m = before' ++ t :: after')
    (h : m.moveWithinGroup before.length (some before'.length) = some m') :
    (∃ mid, mid ≠ [] ∧ m = before ++ s :: mid ++ t :: after' ∧
        m' = before ++ mid ++ s :: t :: after') ∨
      ∃ mid, m = before' ++ t :: mid ++ s :: after ∧
        m' = before' ++ s :: t :: (mid ++ after) := by
  have hat : m[before.length]? = some s := by rw [hs]; simp
  unfold moveWithinGroup at h
  dsimp only [Option.getD_some] at h
  rw [hat, Option.map_some] at h
  have hne : before.length ≠ before'.length := by
    intro heq
    simp [heq] at h
  rcases exists_split_pair hs ht hne with ⟨mid, hbefore, hafter⟩ | ⟨mid, hbefore, hafter⟩
  · left
    have hlength : before'.length = before.length + (mid.length + 1) := by
      rw [hbefore, List.length_append, List.length_cons]
    have hinsert : before'.length - 1 = (before ++ mid).length := by
      rw [List.length_append]
      omega
    have hlater : before'.length > before.length := by omega
    rw [if_pos hlater, hinsert] at h
    refine ⟨mid, ?_, ?_, ?_⟩
    · rintro rfl
      simp at h
    · rw [hs, hafter]
      simp
    · split at h
      · cases h
      · rw [← Option.some.inj h, hs, eraseIdx_split, hafter, ← List.append_assoc,
          insertIdx_split]
  · right
    have hlength : before.length = before'.length + (mid.length + 1) := by
      rw [hbefore, List.length_append, List.length_cons]
    have hearlier : ¬before'.length > before.length := by omega
    rw [if_neg hearlier, if_neg hne.symm] at h
    refine ⟨mid, ?_, ?_⟩
    · rw [hs, hbefore]
    · rw [← Option.some.inj h, hs, eraseIdx_split, hbefore, List.append_assoc, insertIdx_split]
      simp

private theorem grouped_of_run {front run run' back : SessionMembership K} {group : String}
    (hg : Grouped (front ++ run ++ back)) (hrun : ∀ x ∈ run, x.group = group)
    (hrun' : ∀ x ∈ run', x.group = group) (hlength : run'.length = run.length) :
    Grouped (front ++ run' ++ back) := by
  intro other hother
  apply (hg other hother).of_map_eq
  have hmap : run'.map (·.group) = run.map (·.group) := by
    rw [List.map_eq_replicate_iff.mpr hrun, List.map_eq_replicate_iff.mpr hrun', hlength]
  simp only [List.map_append, hmap]

/-- A session moved inside its group changes the order and leaves the groups together. -/
theorem grouped_moveWithinGroup {m before after : SessionMembership K} (hg : Grouped m)
    (hn : m.identities.Nodup) (hgroup : s.group ≠ "") (hsame : t.group = s.group)
    (hs : m = before ++ s :: after) (ht : m = before' ++ t :: after')
    (h : m.moveWithinGroup before.length (some before'.length) = some m') :
    Grouped m' ∧ m' ≠ m := by
  -- What stands between the two is of their group as well.
  rcases moveWithinGroup_eq_some hs ht h with ⟨mid, hmid, hm, hm'⟩ | ⟨mid, hm, hm'⟩
  · have hbetween := (hm ▸ hg s.group hgroup).between rfl hsame
    rw [show before ++ s :: mid ++ t :: after' = before ++ (s :: mid ++ [t]) ++ after' by simp]
      at hm
    rw [show before ++ mid ++ s :: t :: after' = before ++ (mid ++ [s, t]) ++ after' by simp]
      at hm'
    constructor
    · rw [hm']
      apply @grouped_of_run _ _ (s :: mid ++ [t]) _ _ s.group (hm ▸ hg)
      · simpa [hsame, or_imp, forall_and] using hbetween
      · simpa [hsame, or_imp, forall_and] using hbetween
      · simp
    · have hne := @swapped_ne _ before [s] mid (t :: after') (by simp) hmid
        (by rw [hm] at hn; simpa using hn)
      rw [hm, hm']
      simpa using hne
  · have hbetween := (hm ▸ hg s.group hgroup).between hsame rfl
    rw [show before' ++ t :: mid ++ s :: after = before' ++ (t :: mid ++ [s]) ++ after by simp]
      at hm
    rw [show before' ++ s :: t :: (mid ++ after) = before' ++ (s :: t :: mid) ++ after by simp]
      at hm'
    constructor
    · rw [hm']
      apply @grouped_of_run _ _ (t :: mid ++ [s]) _ _ s.group (hm ▸ hg)
      · simpa [hsame, or_imp, forall_and] using hbetween
      · simpa [hsame] using hbetween
      · simp
    · have hne := @swapped_ne _ before' (t :: mid) [s] after (by simp) (by simp)
        (by rw [hm] at hn; simpa using hn)
      rw [hm, hm']
      simpa using hne

/-! ### Claiming and releasing -/

private theorem rposition_eq_some {m : SessionMembership K} {p : WorkspaceSession K → Bool}
    (h : rposition p m = some i) :
    ∃ before last after, m = before ++ last :: after ∧ i = before.length ∧ p last = true ∧
      ∀ x ∈ after, p x = false := by
  have ⟨j, hj, hi⟩ := Option.map_eq_some_iff.mp h
  have ⟨hlt, _, hbefore⟩ := List.findIdx?_eq_some_iff_getElem.mp hj
  have ⟨last, hat, hlast⟩ := getElem?_of_findIdx? hj
  have ⟨after, before, hreverse, hlength⟩ := exists_split_of_getElem? hat
  have hm : m = before.reverse ++ last :: after.reverse := by
    rw [← List.reverse_reverse m, hreverse]
    simp
  refine ⟨before.reverse, last, after.reverse, hm, ?_, hlast, ?_⟩
  · rw [← hi, hm]
    simp only [List.length_append, List.length_cons, List.length_reverse]
    omega
  · intro x hx
    have ⟨k, hk, heq⟩ := List.mem_iff_getElem.mp (List.mem_reverse.mp hx)
    have hearlier := hbefore k (by omega)
    simp only [hreverse, List.getElem_append_left hk, heq] at hearlier
    simpa using hearlier

private theorem claim_eq_some {m : SessionMembership K} {session : WorkspaceSession K}
    (h : m.claim session = some m') :
    (m' = m ++ [session] ∧ (session.group ≠ "" → ∀ x ∈ m, x.group ≠ session.group)) ∨
      session.group ≠ "" ∧ ∃ before last after, m = before ++ last :: after ∧
        last.group = session.group ∧ (∀ x ∈ after, x.group ≠ session.group) ∧
        m' = before ++ [last] ++ [session] ++ after := by
  unfold claim at h
  split at h
  · cases h
  · have hm' := Option.some.inj h
    by_cases hgroup : session.group = ""
    · left
      rw [if_pos hgroup, Option.map_none, Option.getD_none, List.insertIdx_length_self] at hm'
      exact ⟨hm'.symm, fun hne ↦ absurd hgroup hne⟩
    · rw [if_neg hgroup] at hm'
      cases hlast : rposition (fun x ↦ x.group == session.group) m with
      | none =>
        left
        rw [hlast, Option.map_none, Option.getD_none, List.insertIdx_length_self] at hm'
        refine ⟨hm'.symm, ?_⟩
        intro _ x hx
        have hnone := List.findIdx?_eq_none_iff.mp (Option.map_eq_none_iff.mp hlast)
        simpa using hnone x (List.mem_reverse.mpr hx)
      | some i =>
        right
        have ⟨before, last, after, hm, hi, hmember, hafter⟩ := rposition_eq_some hlast
        refine ⟨hgroup, before, last, after, hm, by simpa using hmember, ?_, ?_⟩
        · exact fun x hx ↦ beq_eq_false_iff_ne.mp (hafter x hx)
        · rw [← hm', hlast, hi, hm, List.append_cons]
          have hlength : before.length + 1 = (before ++ [last]).length := by simp
          rw [Option.map_some, Option.getD_some, hlength, insertIdx_split]
          simp

/-- A claimed session joins its group. -/
theorem grouped_claim {m : SessionMembership K} {session : WorkspaceSession K} (hg : Grouped m)
    (h : m.claim session = some m') : Grouped m' := by
  intro group hgroup
  rcases claim_eq_some h with ⟨hm', hfree⟩ | ⟨hnamed, before, last, after, hm, hlast, hafter, hm'⟩
  · rw [hm']
    by_cases hsame : session.group = group
    · have hrun := @Contiguous.of_run _ (·.group = group) m [session] []
        (hsame ▸ hfree (hsame ▸ hgroup)) (by simpa using hsame) (by simp)
      simpa using hrun
    · apply (hg group hgroup).append_right
      simpa using hsame
  · rw [hm']
    by_cases hsame : session.group = group
    · subst hsame
      have ⟨u, v, w, hsplit, hu, hv, hw⟩ := (hg _ hgroup).exists_run
      have ⟨a, b, hbefore, hblock, hback⟩ := exists_split_run (hsplit.symm.trans hm) hu hw hlast
      have hend : after = w := by
        cases b with
        | nil => exact hback
        | cons x b =>
          have hx : x.group = session.group := hv x (by rw [hblock]; simp)
          exact absurd hx (hafter x (by rw [hback]; simp))
      have hrun := @Contiguous.of_run _ (·.group = session.group) u (a ++ [last, session]) w hu
        (by
          intro y hy
          rcases List.mem_append.mp hy with hy | hy
          · exact hv y (by rw [hblock]; exact List.mem_append_left _ hy)
          · simp only [List.mem_cons, List.not_mem_nil, or_false] at hy
            rcases hy with rfl | rfl
            · exact hlast
            · rfl) hw
      rw [hbefore, hend]
      simpa using hrun
    · have hgroups := hg group hgroup
      rw [hm, List.append_cons] at hgroups
      apply hgroups.insert
      · simpa using hsame
      · left
        simpa [hlast] using hsame

/-- A release leaves the groups together. -/
theorem grouped_release {m : SessionMembership K} {session : WorkspaceSession K} (hg : Grouped m)
    (h : m.release identity = some (session, m')) : Grouped m' :=
  fun group hgroup ↦ (hg group hgroup).sublist (release_eq_some h).2.2.1

/-! ### The moves -/

/-- What `move_before` does: inside a shared group, or with the whole block. -/
theorem moveBefore_eq_some {m : SessionMembership K} {source : String} {before : Option String}
    (h : m.moveBefore source before = some m') :
    ∃ front s back, m = front ++ s :: back ∧ s.identity = source ∧
      ((∃ front' t back', before = some t.identity ∧ m = front' ++ t :: back' ∧
          s.group ≠ "" ∧ t.group = s.group ∧
          m.moveWithinGroup front.length (some front'.length) = some m') ∨
        (∃ front' t back', before = some t.identity ∧ m = front' ++ t :: back' ∧
          ¬(s.group ≠ "" ∧ t.group = s.group) ∧
          m.moveBlock s.group front.length (some front'.length) = some m') ∨
        (before = none ∧ m.moveBlock s.group front.length none = some m')) := by
  unfold moveBefore at h
  simp only [Option.bind_eq_bind, Option.bind_eq_some_iff] at h
  have ⟨start, hstart, anchor, hanchor, session, hsession, hmove⟩ := h
  have ⟨front, s, back, hm, hlength, hidentity⟩ := position_eq_some hstart
  subst hlength
  obtain rfl : s = session := by
    rw [hm] at hsession
    simpa using hsession
  refine ⟨front, s, back, hm, hidentity, ?_⟩
  cases before with
  | none =>
    obtain rfl := Option.some.inj hanchor
    right; right
    simpa using hmove
  | some target =>
    have ⟨j, hj, heq⟩ := Option.map_eq_some_iff.mp hanchor
    subst heq
    have ⟨front', t, back', hm', hlength, htarget⟩ := position_eq_some hj
    subst hlength htarget
    have hat : m[front'.length]? = some t := by rw [hm']; simp
    simp only [Option.bind_some, hat, Option.any_some, beq_iff_eq] at hmove
    split at hmove
    · next hcase => exact .inl ⟨front', t, back', rfl, hm', hcase.1, hcase.2, hmove⟩
    · next hcase => exact .inr (.inl ⟨front', t, back', rfl, hm', hcase, hmove⟩)

private theorem grouped_moveBefore {m : SessionMembership K} {source : String}
    {before : Option String}
    (hg : Grouped m) (hn : m.identities.Nodup) (h : m.moveBefore source before = some m') :
    Grouped m' ∧ m' ≠ m := by
  have ⟨front, s, back, hm, _, hcases⟩ := moveBefore_eq_some h
  rcases hcases with ⟨front', t, back', _, hm', hgroup, hsame, hmove⟩ |
    ⟨_, _, _, _, _, _, hmove⟩ | ⟨_, hmove⟩
  · exact grouped_moveWithinGroup hg hn hgroup hsame hm hm' hmove
  · exact grouped_moveBlock hg hn hm hmove
  · exact grouped_moveBlock hg hn hm hmove

private theorem grouped_swap {m : SessionMembership K} {j : Nat} (hg : Grouped m)
    (hn : m.identities.Nodup) (hs : m[i]? = some s) (ht : m[j]? = some t) (hne : i ≠ j)
    (hsame : t.group = s.group) :
    Grouped ((m.set i t).set j s) ∧ (m.set i t).set j s ≠ m := by
  constructor
  · intro group hgroup
    apply (hg group hgroup).of_map_eq
    have hsg : (m.map (·.group))[i]? = some s.group := by rw [List.getElem?_map, hs]; rfl
    have htg : (m.map (·.group))[j]? = some s.group := by
      rw [List.getElem?_map, ht, ← hsame]
      rfl
    rw [List.map_set, List.map_set, hsame]
    have hi := (List.getElem?_eq_some_iff.mp hsg).1
    have hj := (List.getElem?_eq_some_iff.mp htg).1
    ext1 k
    rw [List.getElem?_set, List.getElem?_set]
    by_cases hjk : j = k
    · rw [if_pos hjk, List.length_set, if_pos hj, ← hjk, htg]
    · rw [if_neg hjk]
      by_cases hik : i = k
      · rw [if_pos hik, if_pos hi, ← hik, hsg]
      · rw [if_neg hik]
  · intro heq
    have hat := congrArg (·[i]?) heq
    simp only [List.getElem?_set_ne hne.symm, hs] at hat
    rw [List.getElem?_set_self (List.getElem?_eq_some_iff.mp hs).1] at hat
    exact hne (position_unique hn hs (Option.some.inj hat ▸ ht))

/-- What `move_by` does: change places inside a group, or move the whole block. -/
theorem grouped_moveBy {m : SessionMembership K} {delta : Int} (hg : Grouped m)
    (hn : m.identities.Nodup) (h : m.moveBy identity delta = some m') :
    Grouped m' ∧ m' ≠ m := by
  unfold moveBy at h
  split at h
  · cases h
  · simp only [Option.bind_eq_bind, Option.bind_eq_some_iff] at h
    have ⟨start, hstart, neighbour, hneighbour, s, hs, t, ht, hmove⟩ := h
    have ⟨front, session, back, hm, hlength, _⟩ := position_eq_some hstart
    subst hlength
    obtain rfl : session = s := by
      rw [hm] at hs
      simpa using hs
    have hne : front.length ≠ neighbour := by
      unfold neighbourOf at hneighbour
      split at hneighbour
      · split at hneighbour
        · cases hneighbour
        · have := Option.some.inj hneighbour
          omega
      · split at hneighbour
        · have := Option.some.inj hneighbour
          omega
        · cases hneighbour
    split at hmove
    · next hcase =>
      obtain rfl := Option.some.inj hmove
      exact grouped_swap hg hn hs ht hne hcase.2
    · exact grouped_moveBlock hg hn hm hmove

/-! ### Where a move ends -/

/-- The source directly before the anchor, and the others as they were. -/
theorem moveWithinGroup_placed {m before after : SessionMembership K} (hn : m.identities.Nodup)
    (hs : m = before ++ s :: after) (ht : m = before' ++ t :: after')
    (h : m.moveWithinGroup before.length (some before'.length) = some m') :
    ∃ left right, m' = left ++ s :: t :: right ∧
      left ++ t :: right = m.filter (·.identity != s.identity) := by
  have hothers : m.filter (·.identity != s.identity) = before ++ after := by
    rw [hs] at hn ⊢
    simp only [identities, List.map_append, List.map_cons, List.nodup_middle,
      List.nodup_cons] at hn
    have hne : ∀ x ∈ before ++ after, (x.identity != s.identity) = true := by
      intro x hx
      apply bne_iff_ne.mpr
      intro heq
      exact hn.1 (heq ▸ by simpa using List.mem_map_of_mem hx)
    rw [List.filter_append, List.filter_cons_of_neg (by simp), ← List.filter_append,
      List.filter_eq_self.mpr hne]
  rw [hothers]
  rcases moveWithinGroup_eq_some hs ht h with ⟨mid, _, hm, hm'⟩ | ⟨mid, hm, hm'⟩
  · refine ⟨before ++ mid, after', hm', ?_⟩
    have heq := hs.symm.trans hm
    simp only [List.append_assoc, List.cons_append, List.append_cancel_left_eq,
      List.cons.injEq, true_and] at heq
    rw [heq, List.append_assoc]
  · refine ⟨before', mid ++ after, hm', ?_⟩
    have heq := hs.symm.trans hm
    rw [List.append_cancel_right_eq] at heq
    rw [heq]
    simp

private theorem Spans.disjoint {m before block after block' : SessionMembership K}
    (h : Spans m s before block after) (h' : Spans m t before' block' after') (hne : s ≠ t)
    (hcase : ¬(s.group ≠ "" ∧ t.group = s.group)) : ∀ x ∈ block, x ∉ block' := by
  intro x hx hx'
  have hin := h.members x hx
  have hin' := h'.members x hx'
  by_cases hsg : s.group = ""
  · rw [h.alone hsg, List.mem_singleton] at hx
    by_cases htg : t.group = ""
    · rw [h'.alone htg, List.mem_singleton] at hx'
      exact hne (hx.symm.trans hx')
    · rw [inBlock, if_neg htg, hx, hsg] at hin'
      exact htg (beq_iff_eq.mp hin').symm
  · rw [inBlock, if_neg hsg, beq_iff_eq] at hin
    by_cases htg : t.group = ""
    · rw [h'.alone htg, List.mem_singleton] at hx'
      exact hsg (hin.symm.trans (hx' ▸ htg))
    · rw [inBlock, if_neg htg, beq_iff_eq] at hin'
      exact hcase ⟨hsg, hin'.symm.trans hin⟩

/-- The source's block directly before the anchor's block, and the others as they were. -/
theorem moveBlock_placed {m front' back' : SessionMembership K} (hg : Grouped m)
    (hn : m.identities.Nodup) (hs : m = front ++ s :: back) (ht : m = front' ++ t :: back')
    (hcase : ¬(s.group ≠ "" ∧ t.group = s.group))
    (h : m.moveBlock s.group front.length (some front'.length) = some m') :
    ∃ left right, m' = left ++ m.blockOf s ++ m.blockOf t ++ right ∧
      left ++ m.blockOf t ++ right = m.filter (fun x ↦ !inBlock s x) := by
  have ⟨before, block, after, hspans, hmem, hblock⟩ := exists_spans hg hn hs
  have ⟨before', block', after', hspans', hmem', hblock'⟩ := exists_spans hg hn ht
  rw [hspans.blockOf_eq, hspans'.blockOf_eq, hspans.rest_eq]
  have hat : m[front'.length]? = some t := by rw [ht]; simp
  have hstart : before'.length = ((some front'.length).bind m.blockStart).getD m.length := by
    simp [blockStart, hat, hblock']
  have hcut : m = before' ++ (block' ++ after') := by rw [hspans'.split, List.append_assoc]
  rcases moveBlock_eq_some hspans.split hblock hcut hstart h with
    ⟨passed, hpassed, hbefore, hback, hm'⟩ | ⟨passed, _, hafter, hfront, hm'⟩
  · -- The blocks have no session in common, so the whole of the anchor's block is passed.
    have hne : s ≠ t := by
      intro hsame
      subst hsame
      have hat' : m[front.length]? = some s := by rw [hs]; simp
      rw [position_unique hn hat' hat, hblock', hbefore] at hblock
      simp [hpassed] at hblock
    rw [List.append_assoc] at hback
    have ⟨more, hmore⟩ := exists_append_of_disjoint (List.ne_nil_of_mem hmem)
      (hspans.disjoint hspans' hne hcase) hback.symm
    refine ⟨before', more ++ after, ?_, ?_⟩
    · rw [hm', hmore]
      simp
    · rw [hbefore, hmore]
      simp
  · refine ⟨before ++ passed, after', ?_, ?_⟩
    · rw [hm']
      simp
    · rw [hafter]
      simp

/-- Sidebar order keeps groups together. On a membership with distinct identities and every named
group in one place, a claim, a release and a move keep both; a move only permutes the list and
reports a change exactly when there is one; and a session moved before another one of its named
group stands directly before it, while otherwise its whole block stands directly before the
anchor's whole block, with both blocks and all other sessions in the order they had. -/
theorem Grouped.order_operations {m : SessionMembership K} (hg : Grouped m)
    (hn : m.identities.Nodup) :
    (∀ session m', m.claim session = some m' → m'.identities.Nodup ∧ Grouped m') ∧
    (∀ identity session m', m.release identity = some (session, m') →
      m'.identities.Nodup ∧ Grouped m') ∧
    (∀ source before,
      let moved := m.moveBefore source before
      (moved.getD m).identities.Nodup ∧ Grouped (moved.getD m) ∧ (moved.getD m).Perm m ∧
        (moved.isSome = true ↔ moved.getD m ≠ m)) ∧
    (∀ identity delta,
      let moved := m.moveBy identity delta
      (moved.getD m).identities.Nodup ∧ Grouped (moved.getD m) ∧ (moved.getD m).Perm m ∧
        (moved.isSome = true ↔ moved.getD m ≠ m)) ∧
    ∀ source anchor m', m.moveBefore source (some anchor) = some m' →
      ∃ s ∈ m, ∃ t ∈ m, s.identity = source ∧ t.identity = anchor ∧ ∃ left right,
        if s.group ≠ "" ∧ t.group = s.group then
          m' = left ++ s :: t :: right ∧
            left ++ t :: right = m.filter (·.identity != s.identity)
        else
          m' = left ++ m.blockOf s ++ m.blockOf t ++ right ∧
            left ++ m.blockOf t ++ right = m.filter (fun x ↦ !inBlock s x) := by
  -- Both moves: unchanged when they report no change, and else a permutation that differs.
  have hmove : ∀ moved : Option (SessionMembership K),
      (∀ m', moved = some m' → m'.Perm m ∧ Grouped m' ∧ m' ≠ m) →
      (moved.getD m).identities.Nodup ∧ Grouped (moved.getD m) ∧ (moved.getD m).Perm m ∧
        (moved.isSome = true ↔ moved.getD m ≠ m) := by
    intro moved hmoved
    cases moved with
    | none => simp [hn, hg]
    | some m' =>
      have ⟨hperm, hgrouped, hne⟩ := hmoved m' rfl
      have hids : m'.identities.Perm m.identities := hperm.map _
      exact ⟨hids.nodup_iff.mpr hn, hgrouped, hperm, by simpa using hne⟩
  constructor
  · intro session m' h
    exact ⟨(claims_claim h).nodup hn, grouped_claim hg h⟩
  constructor
  · intro identity session m' h
    have hsub := (release_eq_some h).2.2.1
    exact ⟨(hsub.map _).nodup hn, grouped_release hg h⟩
  constructor
  · intro source before
    exact hmove _ fun m' h ↦ ⟨perm_moveBefore h, grouped_moveBefore hg hn h⟩
  constructor
  · intro identity delta
    exact hmove _ fun m' h ↦ ⟨perm_moveBy h, grouped_moveBy hg hn h⟩
  · intro source anchor m' h
    have ⟨front, s, back, hs, hsource, hcases⟩ := moveBefore_eq_some h
    rcases hcases with ⟨front', t, back', hanchor, ht, hgroup, hsame, hmoved⟩ |
      ⟨front', t, back', hanchor, ht, hother, hmoved⟩ | ⟨hanchor, _⟩
    · have ⟨left, right, hplaced⟩ := moveWithinGroup_placed hn hs ht hmoved
      refine ⟨s, by rw [hs]; simp, t, by rw [ht]; simp, hsource,
        (Option.some.inj hanchor).symm, left, right, ?_⟩
      rw [if_pos ⟨hgroup, hsame⟩]
      exact hplaced
    · have ⟨left, right, hplaced⟩ := moveBlock_placed hg hn hs ht hother hmoved
      refine ⟨s, by rw [hs]; simp, t, by rw [ht]; simp, hsource,
        (Option.some.inj hanchor).symm, left, right, ?_⟩
      rw [if_neg hother]
      exact hplaced
    · cases hanchor

/-- A session of the given label, for a membership of two groups. -/
private def labelled (label : String) : WorkspaceSession Nat :=
  ⟨label, label, "", false, "", {}, none⟩

/-- Moving a session before another group takes its group along. -/
theorem order_operations_two_groups :
    ((moveBefore [labelled "a/x", labelled "a/y", labelled "b/z"] "b/z" (some "a/y")).getD
        []).map (·.label) = ["b/z", "a/x", "a/y"] ∧
      Grouped ((moveBefore [labelled "a/x", labelled "a/y", labelled "b/z"] "b/z"
        (some "a/y")).getD [labelled "a/x", labelled "a/y", labelled "b/z"]) := by
  have hg : Grouped [labelled "a/x", labelled "a/y", labelled "b/z"] := by
    intro group _ x y z hsub hx hz
    have heq := hsub.eq_of_length rfl
    simp only [List.cons.injEq, and_true] at heq
    rw [← hx, heq.1, heq.2.1]
    decide +kernel
  constructor
  · decide +kernel
  · exact (hg.order_operations (by decide +kernel)).2.2.1 "b/z" (some "a/y") |>.2.1

end SessionMembership
end Bootty.Mux
