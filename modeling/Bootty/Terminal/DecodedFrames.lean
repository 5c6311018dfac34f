import Bootty.Terminal.FrameRows

/-!
# Decoded frames

What the loop over the rows of `crates/bootty-terminal/src/frame_wire.rs:427–455` accepts, of any
rows, and the frame it makes of them: its cells are in row order and inside of it, their text is
all of its text, and its rows are the rows that were accepted.
-/

namespace Bootty.Terminal

open Bootty.Base

variable [vt : VtLibrary]

/-- What is accepted as a row: cells in row coordinates, whose text is the text of the row. -/
structure WireRow.Valid (cols : Nat) (row : WireRow) : Prop where
  inside : ∀ cell ∈ row.cells, cell.y = 0 ∧ cell.x < cols
  contiguous : Contiguous 0 row.cells row.text.length

/-- A cell of a row at its place in the frame. -/
def absolute (y base : Nat) (cell : RenderCell) : RenderCell :=
  { cell with y, textStart := cell.textStart + base }

/-- The cells of rows that begin at row `y` and at `base` in the text. -/
def absoluteRows : Nat → Nat → List WireRow → List RenderCell
  | _, _, [] => []
  | y, base, row :: rows =>
    row.cells.map (absolute y base) ++ absoluteRows (y + 1) (base + row.text.length) rows

/-- The text of some rows. -/
def rowsText (rows : List WireRow) : List Char := rows.flatMap (·.text)

/-! ### What is accepted -/

variable {cols y base stop : Nat} {cells : List RenderCell}

private theorem placeCells_eq_ok {length : Nat} {placed : List RenderCell}
    (h : placeCells cols y base length stop cells = .ok placed) :
    placed = cells.map (absolute y base) ∧ (∀ cell ∈ cells, cell.y = 0 ∧ cell.x < cols) ∧
      Contiguous stop cells length := by
  induction cells generalizing stop placed with
  | nil =>
    unfold placeCells at h
    split at h
    · cases h
    · next hend =>
      obtain rfl := Except.ok.inj h
      exact ⟨rfl, by simp, not_not.mp hend⟩
  | cons cell cells ih =>
    unfold placeCells at h
    split at h
    · cases h
    · next hcell =>
      split at h
      · cases h
      · split at h
        · cases h
        · split at h
          · cases h
          · rw [bind_eq_ok] at h
            obtain ⟨rest, hrest, heq⟩ := h
            obtain rfl := pure_eq_ok.mp heq
            obtain ⟨hplaced, hinside, hcontiguous⟩ := ih hrest
            refine ⟨?_, List.forall_mem_cons.mpr ⟨by omega, hinside⟩, by omega, hcontiguous⟩
            rw [List.map_cons, hplaced]
            rfl

/-- Rows that are placed are valid, and placed one below the other. -/
theorem placeRows_eq_ok {text text' : List Char} {rows : List WireRow}
    (h : placeRows cols y text rows = .ok (cells, text')) :
    cells = absoluteRows y text.length rows ∧ text' = text ++ rowsText rows ∧
      ∀ row ∈ rows, row.Valid cols := by
  induction rows generalizing y text cells with
  | nil =>
    obtain ⟨rfl, rfl⟩ := Prod.mk.inj (Except.ok.inj h)
    simp [absoluteRows, rowsText]
  | cons row rows ih =>
    simp only [placeRows, bind_eq_ok, pure_eq_ok, Prod.mk.injEq] at h
    obtain ⟨placed, hplaced, ⟨rest, final⟩, hrest, hcells, htext⟩ := h
    subst hcells htext
    obtain ⟨hrow, hinside, hcontiguous⟩ := placeCells_eq_ok hplaced
    obtain ⟨hbelow, hfinal, hvalid⟩ := ih hrest
    refine ⟨?_, ?_, List.forall_mem_cons.mpr ⟨⟨hinside, hcontiguous⟩, hvalid⟩⟩
    · rw [absoluteRows, hrow, hbelow, List.length_append]
    · rw [hfinal, rowsText, rowsText, List.flatMap_cons, List.append_assoc]

/-! ### The cells of accepted rows -/

private theorem Contiguous.join {start middle : Nat} {xs ys : List RenderCell}
    (hxs : Contiguous start xs middle) (hys : Contiguous middle ys stop) :
    Contiguous start (xs ++ ys) stop := by
  induction xs generalizing start with
  | nil =>
    obtain rfl : start = middle := hxs
    exact hys
  | cons x xs ih => exact ⟨hxs.1, ih hxs.2⟩

private theorem Contiguous.absolute {start : Nat} (y base : Nat) (h : Contiguous start cells stop) :
    Contiguous (start + base) (cells.map (absolute y base)) (stop + base) := by
  induction cells generalizing start with
  | nil =>
    obtain rfl : start = stop := h
    rfl
  | cons cell cells ih =>
    refine ⟨by rw [Terminal.absolute, h.1], ?_⟩
    have hrest := ih h.2
    rw [Nat.add_right_comm] at hrest
    exact hrest

/-- Where the cells of rows are. -/
theorem mem_absoluteRows {rows : List WireRow} {cell : RenderCell}
    (h : cell ∈ absoluteRows y base rows) :
    y ≤ cell.y ∧ cell.y < y + rows.length ∧
      ∃ row ∈ rows, ∃ origin ∈ row.cells, cell.x = origin.x := by
  induction rows generalizing y base with
  | nil => cases h
  | cons row rows ih =>
    rcases List.mem_append.mp h with hrow | hrest
    · have ⟨origin, horigin, hcell⟩ := List.mem_map.mp hrow
      subst hcell
      refine ⟨Nat.le_refl y, ?_, row, List.mem_cons_self, origin, horigin, rfl⟩
      show y < y + (rows.length + 1)
      omega
    · have ⟨hlow, hhigh, below, hbelow, horigin⟩ := ih hrest
      rw [List.length_cons]
      exact ⟨by omega, by omega, below, List.mem_cons_of_mem _ hbelow, horigin⟩

theorem absoluteRows_rowMajor (y base : Nat) (rows : List WireRow) :
    (absoluteRows y base rows).Pairwise fun a b ↦ a.y ≤ b.y := by
  induction rows generalizing y base with
  | nil => exact List.Pairwise.nil
  | cons row rows ih =>
    refine List.pairwise_append.mpr ⟨?_, ih _ _, ?_⟩
    · rw [List.pairwise_map]
      exact List.pairwise_of_forall fun _ _ ↦ Nat.le_refl y
    · intro a ha b hb
      have ⟨origin, _, hcell⟩ := List.mem_map.mp ha
      have hlow := (mem_absoluteRows hb).1
      rw [← hcell]
      show y ≤ b.y
      omega

/-- The texts of rows follow each other. -/
theorem absoluteRows_contiguous {cols y base : Nat} {rows : List WireRow}
    (h : ∀ row ∈ rows, row.Valid cols) :
    Contiguous base (absoluteRows y base rows) (base + (rowsText rows).length) := by
  induction rows generalizing y base with
  | nil => rfl
  | cons row rows ih =>
    have ⟨hrow, hrows⟩ := List.forall_mem_cons.mp h
    have hfirst := hrow.contiguous.absolute y base
    have hrest := @ih (y + 1) (base + row.text.length) hrows
    rw [Nat.zero_add, Nat.add_comm row.text.length] at hfirst
    rw [rowsText, List.flatMap_cons, List.length_append, ← Nat.add_assoc]
    exact hfirst.join hrest

/-! ### The rows of the frame -/

private theorem relative_absolute (y : Nat) (h : ∀ cell ∈ cells, cell.y = 0) :
    (cells.map (absolute y base)).map (relative base) = cells := by
  rw [List.map_map]
  conv_rhs => rw [← List.map_id cells]
  apply List.map_congr_left
  intro cell hcell
  have hy := h cell hcell
  simp only [Function.comp_apply, relative, absolute, Nat.add_sub_cancel, id_eq]
  rw [← hy]

/-- The rows that a frame is made of are read back from it. -/
theorem foldl_pushCell_absoluteRows {frame : RenderFrame} (hfits : frame.text.length ≤ usizeMax)
    {front : List Char} {rows : List WireRow} (hvalid : ∀ row ∈ rows, row.Valid cols)
    (htext : frame.text = front ++ rowsText rows) :
    ((List.range' y rows.length).map fun n ↦
      ((absoluteRows y front.length rows).filter (·.y == n)).foldl (pushCell frame) {}) =
        rows := by
  induction rows generalizing y front with
  | nil => rfl
  | cons row rows ih =>
    have ⟨hrow, hrows⟩ := List.forall_mem_cons.mp hvalid
    rw [rowsText, List.flatMap_cons, ← List.append_assoc] at htext
    have hlength : (front ++ row.text).length = front.length + row.text.length :=
      List.length_append
    rw [List.length_cons, List.range'_succ, List.map_cons, List.cons.injEq]
    constructor
    · -- The cells of the first row, and none of the rows below.
      have hcells : (absoluteRows y front.length (row :: rows)).filter (·.y == y) =
          row.cells.map (absolute y front.length) := by
        rw [absoluteRows, List.filter_append, List.filter_eq_self.mpr, List.filter_eq_nil_iff.mpr,
          List.append_nil]
        · intro cell hcell
          have hbelow := (mem_absoluteRows hcell).1
          simp only [beq_iff_eq]
          omega
        · intro cell hcell
          have ⟨origin, _, heq⟩ := List.mem_map.mp hcell
          rw [← heq]
          exact beq_self_eq_true y
      have hcontiguous := hrow.contiguous.absolute y front.length
      rw [Nat.zero_add] at hcontiguous
      have hinside : row.text.length + front.length ≤ frame.text.length := by
        rw [htext, List.length_append, hlength]
        omega
      have hstretch : (frame.text.take (row.text.length + front.length)).drop front.length =
          row.text := by
        rw [htext, Nat.add_comm, ← hlength, List.take_left, List.drop_left]
      rw [hcells, foldl_pushCell hfits front.length {} hcontiguous hinside (Nat.zero_add _),
        hstretch, relative_absolute y fun cell hcell ↦ (hrow.inside cell hcell).1]
      rfl
    · -- The rows below do not see the cells of the first one.
      have hrest := ih hrows htext (y := y + 1)
      rw [hlength] at hrest
      conv_rhs => rw [← hrest]
      apply List.map_congr_left
      intro n hn
      rw [List.mem_range'_1] at hn
      have hnone : (row.cells.map (absolute y front.length)).filter (·.y == n) = [] := by
        apply List.filter_eq_nil_iff.mpr
        intro cell hcell
        have ⟨origin, _, heq⟩ := List.mem_map.mp hcell
        have hy : cell.y = y := heq ▸ rfl
        simp only [beq_iff_eq]
        omega
      rw [absoluteRows, List.filter_append, hnone, List.nil_append]

/-- The rows of a frame with the cells and the text of accepted rows are these rows. -/
theorem rows_of_placeRows {frame : RenderFrame} {accepted : List WireRow}
    (hplaced : placeRows frame.cols 0 [] accepted = .ok (frame.cells, frame.text))
    (hlength : accepted.length = frame.rows) (hfits : frame.text.length ≤ usizeMax) :
    rows frame = accepted := by
  have ⟨hcells, htext, hvalid⟩ := placeRows_eq_ok hplaced
  rw [rows_eq, ← hlength, List.range_eq_range']
  simp only [rowCells, hcells]
  exact foldl_pushCell_absoluteRows hfits hvalid htext

end Bootty.Terminal
