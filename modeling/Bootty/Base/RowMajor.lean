import Mathlib.Algebra.Order.Ring.Nat
import Mathlib.Tactic.Ring

/-!
# Surfaces in row major order

The bytes of a surface lie row by row, `depth` bytes a pixel. What lies at which index, and the
lists of equally long rows that such a surface is.
-/

namespace Bootty.Base

section RowMajor

variable {width depth x y c : ℕ}

/-- The index of byte `c` of the pixel at `x`, `y`. -/
def byteIndex (width depth x y c : ℕ) : ℕ := (y * width + x) * depth + c

/-- A byte lies before the end of the rows up to its own. -/
theorem byteIndex_lt {height : ℕ} (hx : x < width) (hy : y < height) (hc : c < depth) :
    byteIndex width depth x y c < width * height * depth := by
  have hrow : y * width + x + 1 ≤ width * height := by
    calc y * width + x + 1 ≤ y * width + width := by omega
      _ = width * (y + 1) := by ring
      _ ≤ width * height := Nat.mul_le_mul_left _ hy
  calc byteIndex width depth x y c < (y * width + x + 1) * depth := by
        rw [byteIndex, Nat.add_mul _ 1, Nat.one_mul]
        omega
    _ ≤ width * height * depth := Nat.mul_le_mul_right _ hrow

/-- Every index before the end is that of a byte of a pixel. -/
theorem exists_byteIndex {height i : ℕ} (hi : i < width * height * depth) :
    ∃ x y c, x < width ∧ y < height ∧ c < depth ∧ byteIndex width depth x y c = i := by
  have hdepth : 0 < depth := Nat.pos_of_ne_zero fun h ↦ by simp [h] at hi
  have hwidth : 0 < width := Nat.pos_of_ne_zero fun h ↦ by simp [h] at hi
  have hpixel : i / depth < width * height := by
    rw [Nat.div_lt_iff_lt_mul hdepth]
    exact hi
  refine ⟨i / depth % width, i / depth / width, i % depth, Nat.mod_lt _ hwidth, ?_,
    Nat.mod_lt _ hdepth, ?_⟩
  · rwa [Nat.div_lt_iff_lt_mul hwidth, Nat.mul_comm height]
  · rw [byteIndex, Nat.div_add_mod', Nat.div_add_mod']

/-- A byte lies before a pixel exactly when its own pixel does. -/
theorem mul_add_lt_mul_iff {a b : ℕ} (hc : c < depth) :
    a * depth + c < b * depth ↔ a < b := by
  constructor
  · intro h
    by_contra hle
    have hge : b * depth ≤ a * depth := Nat.mul_le_mul_right _ (by omega)
    omega
  · intro h
    have hle : (a + 1) * depth ≤ b * depth := Nat.mul_le_mul_right _ h
    rw [Nat.add_mul a 1, Nat.one_mul] at hle
    omega

/-- A byte lies among those of a run of pixels exactly when its pixel is one of them. -/
theorem byteIndex_mem_iff {start len : ℕ} (hc : c < depth) :
    start * depth ≤ byteIndex width depth x y c ∧
        byteIndex width depth x y c < start * depth + len * depth ↔
      start ≤ y * width + x ∧ y * width + x < start + len := by
  have hlow : start * depth ≤ (y * width + x) * depth + c ↔ start ≤ y * width + x := by
    rw [← not_lt, mul_add_lt_mul_iff hc, not_lt]
  rw [byteIndex, ← Nat.add_mul, hlow, mul_add_lt_mul_iff hc]

/-- A run of pixels within one row is hit by that row only. -/
theorem mem_rowRun_iff {row column len : ℕ} (hx : x < width) (hrun : column + len ≤ width) :
    row * width + column ≤ y * width + x ∧ y * width + x < row * width + column + len ↔
      y = row ∧ column ≤ x ∧ x < column + len := by
  constructor
  · rintro ⟨hlow, hhigh⟩
    have hrow : y = row := by
      rcases Nat.lt_trichotomy y row with hlt | heq | hgt
      · have hle : (y + 1) * width ≤ row * width := Nat.mul_le_mul_right _ hlt
        rw [Nat.add_mul, Nat.one_mul] at hle
        omega
      · exact heq
      · have hle : (row + 1) * width ≤ y * width := Nat.mul_le_mul_right _ hgt
        rw [Nat.add_mul, Nat.one_mul] at hle
        omega
    subst hrow
    exact ⟨rfl, by omega, by omega⟩
  · rintro ⟨rfl, hlow, hhigh⟩
    exact ⟨by omega, by omega⟩

end RowMajor

section Rows

variable {α : Type} {size : ℕ}

theorem length_flatten_rows {rows : List (List α)} (h : ∀ row ∈ rows, row.length = size) :
    rows.flatten.length = rows.length * size := by
  induction rows with
  | nil => simp
  | cons row rest ih =>
    rw [List.flatten_cons, List.length_append, h row List.mem_cons_self,
      ih fun row' hrow ↦ h row' (List.mem_cons_of_mem _ hrow), List.length_cons, Nat.add_mul,
      Nat.one_mul, Nat.add_comm]

/-- Position `k` of row `y` of equally long rows. -/
theorem getElem?_flatten_rows {rows : List (List α)} (h : ∀ row ∈ rows, row.length = size)
    {y k : ℕ} (hk : k < size) :
    rows.flatten[y * size + k]? = rows[y]?.bind fun row ↦ row[k]? := by
  induction rows generalizing y with
  | nil => simp
  | cons row rest ih =>
    have hrow := h row List.mem_cons_self
    rw [List.flatten_cons]
    cases y with
    | zero =>
      rw [Nat.zero_mul, Nat.zero_add, List.getElem?_append_left (by omega),
        List.getElem?_cons_zero, Option.bind_some]
    | succ y =>
      rw [List.getElem?_append_right (by rw [Nat.add_mul, Nat.one_mul]; omega), hrow,
        List.getElem?_cons_succ, ← ih fun row' hrow' ↦ h row' (List.mem_cons_of_mem _ hrow')]
      congr 1
      rw [Nat.add_mul, Nat.one_mul]
      omega

end Rows
end Bootty.Base
