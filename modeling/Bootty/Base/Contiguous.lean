import Mathlib.Data.List.Basic
import Mathlib.Data.List.Sublists
import Mathlib.Tactic.Common

/-!
# Contiguous members of a list

The members of a list with some property are contiguous when whatever stands between two of them
has it too. They are then one run of the list, and putting a block in or taking one out keeps
them contiguous unless it cuts the run in two.
-/

namespace Bootty.Base

variable {α : Type}

/-- Whatever stands between two members with the property has it. -/
def Contiguous (p : α → Prop) (l : List α) : Prop :=
  ∀ x y z, [x, y, z].Sublist l → p x → p z → p y

variable {x : α}

namespace Contiguous

variable {p : α → Prop} {u v w : List α}

variable {l : List α}

/-- What is left of contiguous parts is contiguous. -/
theorem sublist {l' : List α} (h : Contiguous p l) (hsub : l'.Sublist l) : Contiguous p l' :=
  fun x y z hxyz ↦ h x y z (hxyz.trans hsub)

variable {y : α}

private theorem triple_sublist {z : α} (hx : x ∈ u) (hy : y ∈ v) (hz : z ∈ w) :
    [x, y, z].Sublist (u ++ v ++ w) := by
  have hxy : ([x] ++ [y]).Sublist (u ++ v) :=
    (List.singleton_sublist.mpr hx).append (List.singleton_sublist.mpr hy)
  exact hxy.append (List.singleton_sublist.mpr hz)

/-- A member without the property ends the run on one of its sides. -/
theorem outside (h : Contiguous p (u ++ v ++ w)) (hy : y ∈ v) (hnot : ¬p y) :
    (∀ x ∈ u, ¬p x) ∨ ∀ z ∈ w, ¬p z := by
  by_contra hboth
  push Not at hboth
  have ⟨⟨x, hx, hpx⟩, ⟨z, hz, hpz⟩⟩ := hboth
  exact hnot (h x y z (triple_sublist hx hy hz) hpx hpz)

/-- Everything between two members with the property has it. -/
theorem between {z : α} (h : Contiguous p (u ++ x :: v ++ z :: w)) (hx : p x) (hz : p z) :
    ∀ y ∈ v, p y := by
  intro y hy
  apply h x y z _ hx hz
  have hmiddle : [x, y, z].Sublist ([x] ++ v ++ [z]) :=
    triple_sublist List.mem_cons_self hy List.mem_cons_self
  have hsub : ([x] ++ v ++ [z]).Sublist (u ++ x :: v ++ z :: w) := by
    rw [show u ++ x :: v ++ z :: w = u ++ (([x] ++ v ++ [z]) ++ w) by simp]
    exact (List.sublist_append_left _ _).trans (List.sublist_append_right _ _)
  exact hmiddle.trans hsub

/-- Members without the property before a list do not matter. -/
theorem append_left (h : Contiguous p w) (hu : ∀ x ∈ u, ¬p x) : Contiguous p (u ++ w) := by
  intro x y z hxyz hpx hpz
  have ⟨front, back, heq, hfront, hback⟩ := List.sublist_append_iff.mp hxyz
  cases front with
  | nil =>
    rw [List.nil_append] at heq
    exact h x y z (heq ▸ hback) hpx hpz
  | cons a front =>
    rw [List.cons_append, List.cons.injEq] at heq
    rw [← heq.1] at hfront
    exact absurd hpx (hu x (hfront.subset List.mem_cons_self))

/-- Members without the property after a list do not matter. -/
theorem append_right (h : Contiguous p u) (hw : ∀ z ∈ w, ¬p z) : Contiguous p (u ++ w) := by
  intro x y z hxyz hpx hpz
  have ⟨front, back, heq, hfront, hback⟩ := List.sublist_append_iff.mp hxyz
  rcases List.eq_nil_or_concat back with hnil | ⟨init, last, hlast⟩
  · rw [hnil, List.append_nil] at heq
    exact h x y z (heq ▸ hfront) hpx hpz
  · rw [List.concat_eq_append] at hlast
    have hz : z = last := by
      rw [hlast, ← List.append_assoc] at heq
      have hends := congrArg List.getLast? heq
      rw [List.getLast?_concat] at hends
      exact Option.some.inj hends
    rw [hz] at hpz
    exact absurd hpz (hw last (hback.subset (by rw [hlast]; simp)))

/-- One run between members without the property. -/
theorem of_run (hu : ∀ x ∈ u, ¬p x) (hv : ∀ y ∈ v, p y) (hw : ∀ z ∈ w, ¬p z) :
    Contiguous p (u ++ v ++ w) := by
  apply append_right _ hw
  apply append_left _ hu
  intro x y z hxyz _ _
  exact hv y (hxyz.subset (by simp))

/-- The members with the property are one run. -/
theorem exists_run [DecidablePred p] (h : Contiguous p l) :
    ∃ u v w, l = u ++ v ++ w ∧ (∀ x ∈ u, ¬p x) ∧ (∀ y ∈ v, p y) ∧ ∀ z ∈ w, ¬p z := by
  induction l with
  | nil => exact ⟨[], [], [], rfl, by simp, by simp, by simp⟩
  | cons a l ih =>
    have ⟨u, v, w, hl, hu, hv, hw⟩ := ih (h.sublist (List.sublist_cons_self a l))
    by_cases ha : p a
    · cases v with
      | nil =>
        refine ⟨[], [a], u ++ w, by simp [hl], by simp, by simpa using ha, ?_⟩
        intro z hz
        rcases List.mem_append.mp hz with hz | hz
        · exact hu z hz
        · exact hw z hz
      | cons b v =>
        -- The run begins right after `a`: what stood between them would be in it.
        have hnil : u = [] := by
          cases u with
          | nil => rfl
          | cons c u =>
            have hb : p b := hv b List.mem_cons_self
            have hsub : [a, c, b].Sublist (a :: l) := by
              rw [hl]
              apply List.Sublist.cons_cons
              rw [List.append_assoc, List.cons_append]
              apply List.Sublist.cons_cons
              apply List.singleton_sublist.mpr
              simp
            exact absurd (h a c b hsub ha hb) (hu c List.mem_cons_self)
        subst hnil
        refine ⟨[], a :: b :: v, w, by simp [hl], by simp, ?_, hw⟩
        intro y hy
        rcases List.mem_cons.mp hy with rfl | hy
        · exact ha
        · exact hv y hy
    · refine ⟨a :: u, v, w, by simp [hl], ?_, hv, hw⟩
      intro x hx
      rcases List.mem_cons.mp hx with rfl | hx
      · exact ha
      · exact hu x hx

/-- A block without the property, in place of another one or of a member without it. -/
theorem replace {v' : List α} (h : Contiguous p (u ++ v ++ w)) (hy : y ∈ v) (hnot : ¬p y)
    (hv' : ∀ x ∈ v', ¬p x) : Contiguous p (u ++ v' ++ w) := by
  rcases h.outside hy hnot with hu | hw
  · apply append_left (h.sublist (List.sublist_append_right _ _))
    intro x hx
    rcases List.mem_append.mp hx with hx | hx
    · exact hu x hx
    · exact hv' x hx
  · rw [List.append_assoc] at h
    rw [List.append_assoc]
    apply append_right (h.sublist (List.sublist_append_left _ _))
    intro x hx
    rcases List.mem_append.mp hx with hx | hx
    · exact hv' x hx
    · exact hw x hx

/-- A block without the property, put in where two neighbours are not both of the run. -/
theorem insert {block : List α} (h : Contiguous p (u ++ w)) (hblock : ∀ x ∈ block, ¬p x)
    (hbetween : (∀ x ∈ u.getLast?, ¬p x) ∨ ∀ y ∈ w.head?, ¬p y) :
    Contiguous p (u ++ block ++ w) := by
  rcases hbetween with hlast | hhead
  · rcases List.eq_nil_or_concat u with hnil | ⟨init, last, hu⟩
    · subst hnil
      exact h.append_left hblock
    · rw [List.concat_eq_append] at hu
      subst hu
      have hnot : ¬p last := hlast last (by simp)
      rw [List.append_assoc init]
      apply h.replace List.mem_cons_self hnot
      intro x hx
      rcases List.mem_cons.mp hx with rfl | hx
      · exact hnot
      · exact hblock x hx
  · cases w with
    | nil =>
      rw [List.append_nil] at h ⊢
      exact h.append_right hblock
    | cons y w =>
      have hnot : ¬p y := hhead y (by simp)
      rw [List.append_cons] at h
      rw [List.append_cons, List.append_assoc u]
      apply h.replace List.mem_cons_self hnot
      intro x hx
      rcases List.mem_append.mp hx with hx | hx
      · exact hblock x hx
      · exact List.mem_singleton.mp hx ▸ hnot

/-- Only the sequence of the keys matters where the property is one of a key. -/
theorem of_map_eq {β : Type} {key : α → β} {k : β} {l' : List α}
    (h : Contiguous (fun x ↦ key x = k) l) (hmap : l'.map key = l.map key) :
    Contiguous (fun x ↦ key x = k) l' := by
  intro x y z hxyz hx hz
  have hkeys := hxyz.map key
  rw [hmap] at hkeys
  have ⟨found, hfound, heq⟩ := List.sublist_map_iff.mp hkeys
  have ⟨x', y', z', hthree⟩ := List.length_eq_three.mp
    (show found.length = 3 by rw [← List.length_map key, ← heq]; rfl)
  subst hthree
  simp only [List.map_cons, List.map_nil, List.cons.injEq, and_true] at heq
  exact heq.2.1.trans (h x' y' z' hfound (heq.1.symm.trans hx) (heq.2.2.symm.trans hz))

end Contiguous

/-- A member with the property stands in the run, with a part of it on either side. -/
theorem exists_split_run {p : α → Prop} {u v w front back : List α}
    (h : u ++ v ++ w = front ++ x :: back) (hu : ∀ y ∈ u, ¬p y) (hw : ∀ y ∈ w, ¬p y) (hx : p x) :
    ∃ a b, front = u ++ a ∧ v = a ++ x :: b ∧ back = b ++ w := by
  rw [List.append_assoc, List.append_eq_append_iff] at h
  rcases h with ⟨a, hfront, hrest⟩ | ⟨a, hbefore, hrest⟩
  · rw [List.append_eq_append_iff] at hrest
    rcases hrest with ⟨b, _, hafter⟩ | ⟨c, hv, hback⟩
    · exact absurd hx (hw x (by rw [hafter]; simp))
    · cases c with
      | nil =>
        rw [List.nil_append] at hback
        exact absurd hx (hw x (by rw [← hback]; simp))
      | cons y b =>
        rw [List.cons_append, List.cons.injEq] at hback
        exact ⟨a, b, hfront, hback.1 ▸ hv, hback.2⟩
  · cases a with
    | nil =>
      rw [List.append_nil] at hbefore
      rw [List.nil_append] at hrest
      cases v with
      | nil =>
        rw [List.nil_append] at hrest
        exact absurd hx (hw x (by rw [← hrest]; simp))
      | cons y b =>
        rw [List.cons_append, List.cons.injEq] at hrest
        exact ⟨[], b, by simp [hbefore], by rw [hrest.1]; rfl, hrest.2⟩
    | cons y a =>
      rw [List.cons_append, List.cons.injEq] at hrest
      exact absurd hx (hu x (by rw [hbefore, hrest.1]; simp))

/-- A run that has nothing in common with the front of the list stands behind that front. -/
theorem exists_append_of_disjoint {passed run rest front back : List α} (hrun : run ≠ [])
    (hdisjoint : ∀ x ∈ run, x ∉ front) (h : passed ++ (run ++ rest) = front ++ back) :
    ∃ more, passed = front ++ more := by
  rcases List.append_eq_append_iff.mp h with ⟨left, hfront, hleft⟩ | ⟨more, hmore, _⟩
  · cases left with
    | nil => exact ⟨[], by simpa using hfront.symm⟩
    | cons x left =>
      cases run with
      | nil => exact absurd rfl hrun
      | cons y run =>
        rw [List.cons_append, List.cons_append, List.cons.injEq] at hleft
        exact absurd (show y ∈ front by rw [hfront, hleft.1]; simp)
          (hdisjoint y List.mem_cons_self)
  · exact ⟨more, hmore⟩

/-- `takeWhile` stops at the end of a run. -/
theorem takeWhile_run {p : α → Bool} {run rest : List α} (hrun : ∀ x ∈ run, p x = true)
    (hrest : ∀ x ∈ rest, p x = false) : (run ++ rest).takeWhile p = run := by
  rw [List.takeWhile_append_of_pos hrun]
  cases rest with
  | nil => simp
  | cons x rest => simp [hrest x List.mem_cons_self]

end Bootty.Base
