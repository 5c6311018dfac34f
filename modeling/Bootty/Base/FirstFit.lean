import Mathlib.Data.Nat.Find
import Mathlib.Data.Set.Prod
import Mathlib.Order.Interval.Set.Basic
import Mathlib.Tactic.Common

/-!
# First fit of a rectangle among rectangles

The first position in reading order (the least row, and in it the least column) where a rectangle
fits inside a region and meets none of the rectangles that are there. Such a position is flush: it
cannot be moved left or up, so its column is the region's or the right edge of a rectangle, and its
row the region's or a bottom edge. A scan of the flush positions therefore finds it.
-/

namespace Bootty.Base

/-- A rectangle of cells, from its top left one. -/
structure Rect where
  x : ℕ
  y : ℕ
  width : ℕ
  height : ℕ
  deriving DecidableEq

namespace Rect

/-- The first column behind the rectangle. -/
def right (r : Rect) : ℕ := r.x + r.width

/-- The first row below the rectangle. -/
def bottom (r : Rect) : ℕ := r.y + r.height

/-- The cells of the rectangle. -/
def cells (r : Rect) : Set (ℕ × ℕ) := Set.Ico r.x r.right ×ˢ Set.Ico r.y r.bottom

/-- The rectangles meet in both directions. -/
def Overlaps (a b : Rect) : Prop :=
  a.x < b.right ∧ b.x < a.right ∧ a.y < b.bottom ∧ b.y < a.bottom

/-- The cells by their bounds. -/
theorem mem_cells {r : Rect} {x y : ℕ} :
    (x, y) ∈ r.cells ↔ (r.x ≤ x ∧ x < r.right) ∧ r.y ≤ y ∧ y < r.bottom := by
  simp [cells, Set.mem_prod, Set.mem_Ico]

/-- Rectangles that share a cell overlap. -/
theorem overlaps_of_mem_cells {a b : Rect} {cell : ℕ × ℕ} (ha : cell ∈ a.cells)
    (hb : cell ∈ b.cells) : a.Overlaps b := by
  have ⟨⟨hax, hax'⟩, hay, hay'⟩ := mem_cells.mp ha
  have ⟨⟨hbx, hbx'⟩, hby, hby'⟩ := mem_cells.mp hb
  exact ⟨by omega, by omega, by omega, by omega⟩

end Rect

/-- The cells from `left`, `top` up to but not at `right`, `bottom`. -/
structure Region where
  left : ℕ
  top : ℕ
  right : ℕ
  bottom : ℕ

/-- A rectangle of the size at the position lies in the region and meets nothing there. -/
structure FreeAt (region : Region) (used : List Rect) (width height x y : ℕ) : Prop where
  left : region.left ≤ x
  top : region.top ≤ y
  right : x + width ≤ region.right
  bottom : y + height ≤ region.bottom
  clear : ∀ rect ∈ used, ¬ rect.Overlaps ⟨x, y, width, height⟩

/-- The first position in reading order that has a property. -/
def IsFirst (p : ℕ → ℕ → Prop) (x y : ℕ) : Prop :=
  p x y ∧ ∀ x' y', p x' y' → y < y' ∨ y = y' ∧ x ≤ x'

section IsFirst

variable {p q : ℕ → ℕ → Prop} {x y x' y' : ℕ}

/-- What holds somewhere holds at a first place. -/
theorem exists_isFirst (h : p x y) : ∃ x y, IsFirst p x y := by
  classical
  have hrow : ∃ y, ∃ x, p x y := ⟨y, x, h⟩
  have hcolumn := Nat.find_spec hrow
  refine ⟨Nat.find hcolumn, Nat.find hrow, Nat.find_spec hcolumn, ?_⟩
  intro x' y' h'
  rcases Nat.lt_or_eq_of_le (Nat.find_min' hrow ⟨x', h'⟩) with hlt | heq
  · exact .inl hlt
  · right
    refine ⟨heq, Nat.find_min' hcolumn ?_⟩
    rwa [heq]

/-- There is one first place. -/
theorem IsFirst.unique (h : IsFirst p x y) (h' : IsFirst p x' y') : x = x' ∧ y = y' := by
  have hle := h.2 x' y' h'.1
  have hge := h'.2 x y h.1
  omega

/-- The first position is also the first among fewer. -/
theorem IsFirst.restrict (h : IsFirst p x y) (hq : q x y) (hqp : ∀ x y, q x y → p x y) :
    IsFirst q x y :=
  ⟨hq, fun x' y' h' ↦ h.2 x' y' (hqp x' y' h')⟩

end IsFirst

section FreeAt

variable {region : Region} {used : List Rect} {width height x y : ℕ}

/-- What is free for a size is free for a smaller one. -/
theorem FreeAt.shrink {width' height' : ℕ} (h : FreeAt region used width height x y)
    (hwidth : width' ≤ width) (hheight : height' ≤ height) :
    FreeAt region used width' height' x y where
  left := h.left
  top := h.top
  right := Nat.le_trans (Nat.add_le_add_left hwidth x) h.right
  bottom := Nat.le_trans (Nat.add_le_add_left hheight y) h.bottom
  clear rect hrect hoverlap := by
    apply h.clear rect hrect
    have ⟨hx, hx', hy, hy'⟩ := hoverlap
    exact ⟨Nat.lt_of_lt_of_le hx (Nat.add_le_add_left hwidth x), hx',
      Nat.lt_of_lt_of_le hy (Nat.add_le_add_left hheight y), hy'⟩

/-- What is free is free with fewer rectangles in a larger region. -/
theorem FreeAt.mono {region' : Region} {used' : List Rect}
    (h : FreeAt region used width height x y) (hleft : region'.left ≤ region.left)
    (htop : region'.top ≤ region.top) (hright : region.right ≤ region'.right)
    (hbottom : region.bottom ≤ region'.bottom) (hused : ∀ rect ∈ used', rect ∈ used) :
    FreeAt region' used' width height x y where
  left := Nat.le_trans hleft h.left
  top := Nat.le_trans htop h.top
  right := Nat.le_trans h.right hright
  bottom := Nat.le_trans h.bottom hbottom
  clear rect hrect := h.clear rect (hused rect hrect)

/-- A rectangle that cannot be moved left touches the region or a right edge. -/
theorem IsFirst.flush_left (h : IsFirst (FreeAt region used width height) x y) :
    x = region.left ∨ ∃ rect ∈ used, x = rect.right := by
  rcases Nat.lt_or_eq_of_le h.1.left with hlt | heq
  · right
    have hnot : ¬ FreeAt region used width height (x - 1) y := by
      intro hfree
      have hle := h.2 _ _ hfree
      omega
    by_contra hedge
    apply hnot
    have ⟨⟨hleft, htop, hright, hbottom, hclear⟩, _⟩ := h
    refine ⟨by omega, htop, by omega, hbottom, ?_⟩
    intro rect hrect hoverlap
    apply hclear rect hrect
    have hright' : x ≠ rect.right := fun heq ↦ hedge ⟨rect, hrect, heq⟩
    have ⟨hx, hx', hy, hy'⟩ := hoverlap
    simp only [Rect.right] at hx hx' hright'
    refine ⟨?_, ?_, hy, hy'⟩ <;> simp only [Rect.right] <;> omega
  · exact .inl heq.symm

/-- A rectangle that cannot be moved up touches the region or a bottom edge. -/
theorem IsFirst.flush_top (h : IsFirst (FreeAt region used width height) x y) :
    y = region.top ∨ ∃ rect ∈ used, y = rect.bottom := by
  rcases Nat.lt_or_eq_of_le h.1.top with hlt | heq
  · right
    have hnot : ¬ FreeAt region used width height x (y - 1) := by
      intro hfree
      have hle := h.2 _ _ hfree
      omega
    by_contra hedge
    apply hnot
    have ⟨⟨hleft, htop, hright, hbottom, hclear⟩, _⟩ := h
    refine ⟨hleft, by omega, hright, by omega, ?_⟩
    intro rect hrect hoverlap
    apply hclear rect hrect
    have hbottom' : y ≠ rect.bottom := fun heq ↦ hedge ⟨rect, hrect, heq⟩
    have ⟨hx, hx', hy, hy'⟩ := hoverlap
    simp only [Rect.bottom] at hy hy' hbottom'
    refine ⟨hx, hx', ?_, ?_⟩ <;> simp only [Rect.bottom] <;> omega
  · exact .inl heq.symm

end FreeAt

section Scan

variable {β : Type} {p : ℕ → ℕ → Bool} {make : ℕ → ℕ → β} {rows columns : List ℕ}

/-- The first of the given rows and columns that pass, in their order. -/
def scan (rows columns : List ℕ) (p : ℕ → ℕ → Bool) (make : ℕ → ℕ → β) : Option β :=
  rows.findSome? fun y ↦ columns.findSome? fun x ↦ if p x y then some (make x y) else none

private theorem exists_least_of_findSome? {f : ℕ → Option β} {l : List ℕ} {b : β}
    (hsorted : l.Pairwise (· ≤ ·)) (h : l.findSome? f = some b) :
    ∃ a ∈ l, f a = some b ∧ ∀ a' ∈ l, (f a').isSome = true → a ≤ a' := by
  have ⟨before, a, after, hl, ha, hbefore⟩ := List.findSome?_eq_some_iff.mp h
  rw [hl] at hsorted
  have hafter := (List.pairwise_append.mp hsorted).2.1
  refine ⟨a, by simp [hl], ha, ?_⟩
  intro a' ha' hsome
  rw [hl, List.mem_append, List.mem_cons] at ha'
  rcases ha' with hin | rfl | hin
  · rw [hbefore a' hin] at hsome
    cases hsome
  · exact Nat.le_refl _
  · exact List.rel_of_pairwise_cons hafter hin

/-- A scan of ascending rows and columns finds the first position among them. -/
theorem isFirst_of_scan {b : β} (hrows : rows.Pairwise (· ≤ ·))
    (hcolumns : columns.Pairwise (· ≤ ·)) (h : scan rows columns p make = some b) :
    ∃ x y, IsFirst (fun x y ↦ x ∈ columns ∧ y ∈ rows ∧ p x y = true) x y ∧ make x y = b := by
  have ⟨y, hy, hrow, hleast⟩ := exists_least_of_findSome? hrows h
  have ⟨x, hx, hcell, hleast'⟩ := exists_least_of_findSome? hcolumns hrow
  have ⟨hpass, hmake⟩ := Option.ite_none_right_eq_some.mp hcell
  refine ⟨x, y, ⟨⟨hx, hy, hpass⟩, ?_⟩, Option.some.inj hmake⟩
  intro x' y' ⟨hx', hy', hpass'⟩
  have hrow' : y ≤ y' := by
    apply hleast y' hy'
    rw [List.isSome_findSome?, List.any_eq_true]
    exact ⟨x', hx', by simp [hpass']⟩
  rcases Nat.lt_or_eq_of_le hrow' with hlt | rfl
  · exact .inl hlt
  · exact .inr ⟨rfl, hleast' x' hx' (by simp [hpass'])⟩

/-- A scan that finds nothing has seen nothing. -/
theorem scan_eq_none_iff :
    scan rows columns p make = none ↔ ∀ x ∈ columns, ∀ y ∈ rows, p x y = false := by
  simp only [scan, List.findSome?_eq_none_iff, ite_eq_right_iff, reduceCtorEq, imp_false,
    Bool.not_eq_true]
  exact ⟨fun h x hx y hy ↦ h y hy x hx, fun h y hy x hx ↦ h x hx y hy⟩

end Scan
end Bootty.Base
