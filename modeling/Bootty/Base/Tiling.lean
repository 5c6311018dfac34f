import Mathlib.Data.List.Pairwise
import Mathlib.Order.CompletePartialOrder
import Mathlib.Order.Interval.Set.Disjoint
import Mathlib.Order.Interval.Set.LinearOrder

/-!
# Partitions of a set into a list of parts

A list of sets partitions another one when its members are disjoint and make it up. Two such
lists beside one another partition the union, which is the rule a recursive subdivision is read
with. Intervals that keep one of their two ends can be cut at any point between them.
-/

namespace Bootty.Base

variable {α : Type*}

/-- The parts are disjoint and together they are the whole. -/
structure Partitions (parts : List (Set α)) (whole : Set α) : Prop where
  disjoint : parts.Pairwise Disjoint
  covers : ∀ x, x ∈ whole ↔ ∃ part ∈ parts, x ∈ part

namespace Partitions

/-- A whole is a partition of itself. -/
theorem singleton (whole : Set α) : Partitions [whole] whole := by
  constructor
  · exact List.pairwise_singleton _ _
  · simp

/-- The parts lie in the whole. -/
theorem subset {parts : List (Set α)} {whole part : Set α} (h : Partitions parts whole)
    (hpart : part ∈ parts) : part ⊆ whole :=
  fun x hx ↦ (h.covers x).mpr ⟨part, hpart, hx⟩

/-- Partitions of two disjoint sets, one after the other. -/
theorem append {ps qs : List (Set α)} {a b whole : Set α} (ha : Partitions ps a)
    (hb : Partitions qs b) (hdisjoint : Disjoint a b) (hunion : a ∪ b = whole) :
    Partitions (ps ++ qs) whole := by
  constructor
  · apply List.pairwise_append.mpr
    constructor
    · exact ha.disjoint
    constructor
    · exact hb.disjoint
    · intro p hp q hq
      exact hdisjoint.mono (ha.subset hp) (hb.subset hq)
  · intro x
    rw [← hunion, Set.mem_union, ha.covers, hb.covers]
    simp only [List.mem_append, or_and_right, exists_or]

end Partitions

/-! ### Intervals with one end -/

section Interval

variable [LinearOrder α]

/-- The points between two ends, with the lower one or with the upper one. -/
def halfOpen (lower : Bool) (lo hi : α) : Set α :=
  if lower then Set.Ico lo hi else Set.Ioc lo hi

/-- Two intervals side by side make one. -/
theorem halfOpen_union (lower : Bool) {lo mid hi : α} (hlo : lo ≤ mid) (hhi : mid ≤ hi) :
    halfOpen lower lo mid ∪ halfOpen lower mid hi = halfOpen lower lo hi := by
  cases lower
  · exact Set.Ioc_union_Ioc_eq_Ioc hlo hhi
  · exact Set.Ico_union_Ico_eq_Ico hlo hhi

/-- They have nothing in common. -/
theorem halfOpen_disjoint (lower : Bool) (lo mid hi : α) :
    Disjoint (halfOpen lower lo mid) (halfOpen lower mid hi) := by
  cases lower
  · exact Set.Ioc_disjoint_Ioc_of_le le_rfl
  · exact Set.Ico_disjoint_Ico_same

theorem Ioo_subset_halfOpen (lower : Bool) (lo hi : α) :
    Set.Ioo lo hi ⊆ halfOpen lower lo hi := by
  cases lower
  · exact Set.Ioo_subset_Ioc_self
  · exact Set.Ioo_subset_Ico_self

end Interval
end Bootty.Base
