import Mathlib.Data.List.Range
import Mathlib.Tactic.Common

/-!
# Consecutively numbered lists

The items of a bounded queue carry the numbers they got when they were queued. As long as
items are added at the end and taken off the front, the numbers in the queue are consecutive.
-/

namespace Bootty.Base

section Numbered

variable {α : Type} {num : α → Nat} {first cursor : Nat} {xs ys : List α} {x : α}

/-- The numbers of the items are `first`, `first + 1` and so on. -/
def Numbered (num : α → Nat) (first : Nat) (xs : List α) : Prop :=
  xs.map num = List.range' first xs.length

@[simp] theorem numbered_nil : Numbered num first [] := rfl

theorem numbered_cons :
    Numbered num first (x :: xs) ↔ num x = first ∧ Numbered num (first + 1) xs := by
  simp [Numbered, List.range'_succ]

/-- Numbers that go on in a second list. -/
theorem numbered_append :
    Numbered num first (xs ++ ys) ↔
      Numbered num first xs ∧ Numbered num (first + xs.length) ys := by
  induction xs generalizing first with
  | nil => simp
  | cons x xs ih =>
    rw [List.cons_append, numbered_cons, numbered_cons, ih, List.length_cons, and_assoc,
      Nat.add_assoc, Nat.add_comm 1]

theorem numbered_concat :
    Numbered num first (xs ++ [x]) ↔ Numbered num first xs ∧ num x = first + xs.length := by
  simp [numbered_append, numbered_cons]

/-- The numbers behind the first ones. -/
theorem Numbered.drop (h : Numbered num first xs) {n : Nat} (hn : n ≤ xs.length) :
    Numbered num (first + n) (xs.drop n) := by
  rw [← List.take_append_drop n xs, numbered_append, List.length_take, Nat.min_eq_left hn] at h
  exact h.2

/-- The range of the numbers. -/
theorem Numbered.mem (h : Numbered num first xs) (hx : x ∈ xs) :
    first ≤ num x ∧ num x < first + xs.length := by
  have hnum : num x ∈ xs.map num := List.mem_map_of_mem hx
  rw [h, List.mem_range'_1] at hnum
  exact hnum

/-- The last item has the highest number. -/
theorem Numbered.getLast (h : Numbered num first xs) (hlast : xs.getLast? = some x) :
    num x + 1 = first + xs.length := by
  obtain ⟨init, rfl⟩ := List.getLast?_eq_some_iff.mp hlast
  rw [numbered_concat] at h
  rw [h.2, List.length_append, List.length_singleton]
  omega

/-- Later items have higher numbers. -/
theorem Numbered.pairwise (h : Numbered num first xs) : xs.Pairwise (num · < num ·) := by
  have hrange : (xs.map num).Pairwise (· < ·) := by
    rw [h]
    exact List.pairwise_lt_range'
  exact List.pairwise_map.mp hrange

/-- The items above a number are what is left behind it. -/
theorem Numbered.filter_lt (h : Numbered num first xs) :
    xs.filter (fun x ↦ decide (cursor < num x)) = xs.drop (cursor + 1 - first) := by
  induction xs generalizing first with
  | nil => simp
  | cons x xs ih =>
    obtain ⟨hx, hxs⟩ := numbered_cons.mp h
    rw [List.filter_cons, ih hxs, hx]
    by_cases hlt : cursor < first
    · have hzero : cursor + 1 - first = 0 := by omega
      have hzero' : cursor + 1 - (first + 1) = 0 := by omega
      simp [hlt, hzero, hzero']
    · have hsucc : cursor + 1 - first = cursor + 1 - (first + 1) + 1 := by omega
      simp [hlt, hsucc]

end Numbered
end Bootty.Base
