import Bootty.Base.ListEdits
import Bootty.Terminal.FrameWire
import Mathlib.Data.List.Range

/-!
# Rows of a frame

Cutting a well-formed frame into rows and placing the rows again gives the frame's cells and
text back. The cells of a row are a stretch of the frame's cells, and their text is a stretch
of its text.
-/

namespace Bootty.Terminal

open Bootty.Base

variable [vt : VtLibrary]

/-- The text ranges of the cells follow each other from `start` to `stop`. -/
def Contiguous : Nat → List RenderCell → Nat → Prop
  | start, [], stop => start = stop
  | start, cell :: cells, stop => cell.textStart = start ∧ Contiguous (start + cell.textLen) cells stop

/-- What extraction promises of a frame; the length of a vector is a `usize`. -/
structure RenderFrame.WellFormed (frame : RenderFrame) : Prop where
  rowMajor : frame.cells.Pairwise fun a b ↦ a.y ≤ b.y
  inside : ∀ cell ∈ frame.cells, cell.x < frame.cols ∧ cell.y < frame.rows
  contiguous : Contiguous 0 frame.cells frame.text.length
  textFits : frame.text.length ≤ usizeMax
  rowWraps : frame.rowWraps.length = frame.rows
  sharedData : ∀ p ∈ frame.images.placements, ∀ q ∈ frame.images.placements,
    p.imageId = q.imageId → p.data = q.data

variable {start stop : Nat} {cells : List RenderCell}

namespace Contiguous

private theorem le (h : Contiguous start cells stop) :
    start ≤ stop := by
  induction cells generalizing start with
  | nil => exact Nat.le_of_eq h
  | cons cell cells ih =>
    have hrest := ih h.2
    omega

private theorem append {xs ys : List RenderCell} (h : Contiguous start (xs ++ ys) stop) :
    ∃ middle, Contiguous start xs middle ∧ Contiguous middle ys stop := by
  induction xs generalizing start with
  | nil => exact ⟨start, rfl, h⟩
  | cons x xs ih =>
    obtain ⟨middle, hxs, hys⟩ := ih h.2
    exact ⟨middle, ⟨h.1, hxs⟩, hys⟩

/-- A cell's text ends before the row's does. -/
theorem le_of_mem (h : Contiguous start cells stop) {cell : RenderCell} (hcell : cell ∈ cells) :
    cell.textStart + cell.textLen ≤ stop := by
  induction cells generalizing start with
  | nil => cases hcell
  | cons first cells ih =>
    cases List.mem_cons.mp hcell with
    | inl hfirst =>
      rw [hfirst, h.1]
      exact h.2.le
    | inr hrest => exact ih h.2 hrest

end Contiguous

/-! ### The cells by rows -/

/-- The cells of one row. -/
def rowCells (frame : RenderFrame) (y : Nat) : List RenderCell := frame.cells.filter (·.y == y)

/-- Each row collects its own cells. -/
theorem rows_eq (frame : RenderFrame) :
    rows frame = (List.range frame.rows).map fun y ↦ (rowCells frame y).foldl (pushCell frame) {} := by
  rw [rows, foldl_modify]
  apply List.ext_getElem
  · simp
  · intro y hy _
    simp [rowCells]

/-- A frame has its number of rows. -/
theorem length_rows (frame : RenderFrame) : (rows frame).length = frame.rows := by
  rw [rows_eq, List.length_map, List.length_range]

/-- Only the size, the cells and the text of a frame matter to its rows. -/
theorem rows_congr {a b : RenderFrame} (hrows : a.rows = b.rows) (hcells : a.cells = b.cells)
    (htext : a.text = b.text) : rows a = rows b := by
  have hpush : pushCell a = pushCell b := by
    funext row cell
    simp only [pushCell, RenderFrame.cellText, htext]
  unfold rows
  rw [hrows, hcells, hpush]

private theorem filter_lt_succ (h : cells.Pairwise fun a b ↦ a.y ≤ b.y) (n : Nat) :
    cells.filter (fun cell ↦ decide (cell.y < n + 1)) =
      cells.filter (fun cell ↦ decide (cell.y < n)) ++ cells.filter (·.y == n) := by
  induction cells with
  | nil => rfl
  | cons cell cells ih =>
    obtain ⟨hhead, htail⟩ := List.pairwise_cons.mp h
    rcases Nat.lt_trichotomy cell.y n with hlt | heq | hgt
    · rw [List.filter_cons_of_pos (by simp; omega), List.filter_cons_of_pos (by simpa using hlt),
        List.filter_cons_of_neg (by simp; omega), ih htail, List.cons_append]
    · have habove : cells.filter (fun cell ↦ decide (cell.y < n)) = [] := by
        rw [List.filter_eq_nil_iff]
        intro other hother
        have := hhead other hother
        simp only [decide_eq_true_eq]
        omega
      rw [List.filter_cons_of_pos (by simp; omega), List.filter_cons_of_neg (by simp; omega),
        List.filter_cons_of_pos (by simpa using heq), ih htail, habove]
      rfl
    · have hnone : ∀ p : RenderCell → Bool, (∀ c : RenderCell, p c = true → c.y ≤ n) →
          (cell :: cells).filter p = [] := by
        intro p hp
        rw [List.filter_eq_nil_iff]
        intro other hother hpos
        have hle := hp other hpos
        rcases List.mem_cons.mp hother with rfl | hmem
        · omega
        · have := hhead other hmem
          omega
      rw [hnone _ (by intro c hc; simp at hc; omega), hnone _ (by intro c hc; simp at hc; omega),
        hnone _ (by intro c hc; simp at hc; omega)]
      rfl

variable {frame : RenderFrame}

/-- Cells in row-major order are the concatenation of the rows. -/
theorem flatMap_rowCells_of_rowMajor (hrowMajor : frame.cells.Pairwise fun a b ↦ a.y ≤ b.y)
    (hinside : ∀ cell ∈ frame.cells, cell.y < frame.rows) :
    (List.range frame.rows).flatMap (rowCells frame) = frame.cells := by
  have hinitial : ∀ n, (List.range n).flatMap (rowCells frame) =
      frame.cells.filter fun cell ↦ decide (cell.y < n) := by
    intro n
    induction n with
    | zero => simp
    | succ n ih =>
      rw [List.range_succ, List.flatMap_append, ih, filter_lt_succ hrowMajor]
      simp [rowCells]
  rw [hinitial, List.filter_eq_self]
  intro cell hcell
  simpa using hinside cell hcell

/-- A frame in row-major order is the concatenation of its rows. -/
theorem flatMap_rowCells (h : frame.WellFormed) :
    (List.range frame.rows).flatMap (rowCells frame) = frame.cells :=
  flatMap_rowCells_of_rowMajor h.rowMajor fun cell hcell ↦ (h.inside cell hcell).2

/-! ### One row -/

/-- A cell relative to the start of its row's text. -/
def relative (base : Nat) (cell : RenderCell) : RenderCell :=
  { cell with textStart := cell.textStart - base, y := 0 }

/-- A cell inside of the text reads its own stretch of it. -/
theorem cellText_eq (hfits : frame.text.length ≤ usizeMax) (cell : RenderCell)
    (h : cell.textStart + cell.textLen ≤ frame.text.length) :
    frame.cellText cell = (frame.text.take (cell.textStart + cell.textLen)).drop cell.textStart := by
  have hstop : min (cell.textStart + cell.textLen) usizeMax = cell.textStart + cell.textLen := by
    omega
  simp only [RenderFrame.cellText, hstop]
  rw [if_pos ⟨by omega, h⟩]

theorem foldl_pushCell (hfits : frame.text.length ≤ usizeMax) (base : Nat) (row : WireRow)
    (h : Contiguous start cells stop) (hstop : stop ≤ frame.text.length)
    (hrow : row.text.length + base = start) :
    cells.foldl (pushCell frame) row =
      { cells := row.cells ++ cells.map (relative base)
        text := row.text ++ (frame.text.take stop).drop start } := by
  induction cells generalizing start row with
  | nil =>
    obtain rfl : start = stop := h
    simp
  | cons cell cells ih =>
    obtain ⟨hcell, hrest⟩ := h
    have hle := hrest.le
    have htext := cellText_eq hfits cell (by omega)
    rw [hcell] at htext
    have hlength : (frame.cellText cell).length = cell.textLen := by
      rw [htext, List.length_drop, List.length_take]
      omega
    rw [List.foldl_cons, ih _ hrest]
    · have hjoin : frame.cellText cell ++ (frame.text.take stop).drop (start + cell.textLen) =
          (frame.text.take stop).drop start := by
        have hsplit : frame.text.take (start + cell.textLen) =
            (frame.text.take stop).take (start + cell.textLen) := by
          rw [List.take_take, Nat.min_eq_left hle]
        rw [htext, hsplit, List.drop_take, Nat.add_sub_cancel_left, ← List.drop_drop]
        exact List.take_append_drop _ _
      have hrelative : ({ cell with textStart := row.text.length, y := 0 } : RenderCell) =
          relative base cell := by
        rw [relative, hcell, ← hrow, Nat.add_sub_cancel]
      simp only [pushCell, List.map_cons, List.append_assoc, List.singleton_append, hjoin,
        hrelative]
    · simp only [pushCell, List.length_append, hlength]
      omega

private theorem placeCells_relative (cols y base : Nat) (h : Contiguous start cells stop)
    (hbase : base ≤ start) (hstop : stop ≤ usizeMax)
    (hin : ∀ cell ∈ cells, cell.x < cols ∧ cell.y = y) :
    placeCells cols y base (stop - base) (start - base) (cells.map (relative base)) = .ok cells := by
  induction cells generalizing start with
  | nil =>
    obtain rfl : start = stop := h
    simp [placeCells]
  | cons cell cells ih =>
    obtain ⟨hcell, hrest⟩ := h
    obtain ⟨hx, hy⟩ := hin cell List.mem_cons_self
    have hle := hrest.le
    have hnext : start - base + cell.textLen = start + cell.textLen - base := by omega
    have htail := ih hrest (by omega) fun c hc ↦ hin c (List.mem_cons_of_mem _ hc)
    rw [List.map_cons, placeCells, if_neg, if_neg, if_neg, if_neg]
    · change (placeCells cols y base (stop - base) (start - base + cell.textLen) _ >>= _) = _
      rw [hnext, htail, ok_bind]
      have hback : ({ relative base cell with
          y := y, textStart := (relative base cell).textStart + base } : RenderCell) = cell := by
        have hstart : cell.textStart - base + base = cell.textStart := by omega
        simp only [relative, hstart, ← hy]
      rw [hback]
      rfl
    · simp only [relative]
      omega
    · simp only [relative]
      omega
    · simp only [relative]
      omega
    · simp only [relative]
      omega

/-! ### All rows -/

private theorem placeRows_rowCells (hfits : frame.text.length ≤ usizeMax)
    (hin : ∀ cell ∈ frame.cells, cell.x < frame.cols) {y count : Nat}
    (h : Contiguous start ((List.range' y count).flatMap (rowCells frame)) stop)
    (hstop : stop ≤ frame.text.length) :
    placeRows frame.cols y (frame.text.take start)
        ((List.range' y count).map fun y ↦ (rowCells frame y).foldl (pushCell frame) {}) =
      .ok ((List.range' y count).flatMap (rowCells frame), frame.text.take stop) := by
  induction count generalizing y start with
  | zero =>
    obtain rfl : start = stop := h
    rfl
  | succ count ih =>
    rw [List.range'_succ, List.flatMap_cons] at h
    obtain ⟨middle, hrow, hrest⟩ := h.append
    have hmiddle := hrest.le
    have hstart := hrow.le
    have hcut := foldl_pushCell hfits start {} hrow (by omega) (by simp)
    have hlength : (frame.text.take start).length = start := by
      rw [List.length_take]
      omega
    have hrowLength : ((frame.text.take middle).drop start).length = middle - start := by
      rw [List.length_drop, List.length_take]
      omega
    have hplaced := placeCells_relative frame.cols y start hrow
      (Nat.le_refl _) (by omega) (by
        intro cell hcell
        obtain ⟨hmem, hy⟩ := List.mem_filter.mp hcell
        exact ⟨hin cell hmem, by simpa using hy⟩)
    rw [Nat.sub_self] at hplaced
    have hjoin : frame.text.take start ++ (frame.text.take middle).drop start =
        frame.text.take middle := by
      have hsplit : frame.text.take start = (frame.text.take middle).take start := by
        rw [List.take_take, Nat.min_eq_left hstart]
      rw [hsplit]
      exact List.take_append_drop _ _
    rw [List.range'_succ, List.map_cons, List.flatMap_cons, placeRows, hcut]
    simp only [List.nil_append, hlength, hrowLength, hplaced, ok_bind, hjoin, ih hrest]
    rfl

/-- Placing the rows of a well-formed frame gives its cells and its text back. -/
theorem placeRows_rows (h : frame.WellFormed) :
    placeRows frame.cols 0 [] (rows frame) = .ok (frame.cells, frame.text) := by
  have hcells := flatMap_rowCells h
  rw [List.range_eq_range'] at hcells
  have hcontiguous := h.contiguous
  rw [← hcells] at hcontiguous
  have hplaced := placeRows_rowCells h.textFits (fun cell hcell ↦ (h.inside cell hcell).1)
    hcontiguous (Nat.le_refl _)
  rw [hcells, List.take_zero, List.take_length] at hplaced
  rw [rows_eq, List.range_eq_range']
  exact hplaced

/-! ### Changed rows -/

private theorem applyChanges_from {previous current : List WireRow}
    (hlength : previous.length = current.length) {y count : Nat} (hy : y + count = current.length)
    (seen : List Nat) (hseen : ∀ i ∈ seen, i < y) :
    applyChanges (current.take y ++ previous.drop y) seen
        (((List.range' y count).zip (current.drop y)).filter fun entry ↦
          previous[entry.1]? != some entry.2) = .ok current := by
  induction count generalizing y seen with
  | zero =>
    have hend : current.length ≤ y := by omega
    rw [List.take_of_length_le hend, List.drop_eq_nil_of_le (by omega)]
    simp [applyChanges]
  | succ count ih =>
    have hlt : y < current.length := by omega
    have hlt' : y < previous.length := by omega
    have hnext : current.take y ++ current[y] :: previous.drop (y + 1) =
        current.take (y + 1) ++ previous.drop (y + 1) := by
      rw [← List.take_concat_get' current y hlt, List.append_assoc, List.singleton_append]
    rw [List.range'_succ, List.drop_eq_getElem_cons hlt, List.zip_cons_cons]
    by_cases hsame : previous[y]? = some current[y]
    · have hold : previous.drop y = current[y] :: previous.drop (y + 1) := by
        rw [List.drop_eq_getElem_cons hlt']
        rw [List.getElem?_eq_getElem hlt', Option.some.injEq] at hsame
        rw [hsame]
      rw [List.filter_cons_of_neg (by simpa using hsame), hold, hnext]
      apply ih (by omega)
      intro i hi
      have := hseen i hi
      omega
    · have hset : (current.take y ++ previous.drop y).set y current[y] =
          current.take y ++ current[y] :: previous.drop (y + 1) := by
        have htake : (current.take y).length = y := by
          rw [List.length_take]
          omega
        rw [List.set_append_right _ _ (by omega), htake, Nat.sub_self,
          List.drop_eq_getElem_cons hlt', List.set_cons_zero]
      rw [List.filter_cons_of_pos (by simpa using hsame), applyChanges, if_neg, hset, hnext]
      · apply ih (by omega)
        intro i hi
        rcases List.mem_cons.mp hi with rfl | hi
        · omega
        · have := hseen i hi
          omega
      · rintro (hle | hmem)
        · rw [List.length_append, List.length_take, List.length_drop] at hle
          omega
        · exact absurd (hseen y hmem) (Nat.lt_irrefl y)

/-- Applying the rows that differ to the old rows gives the current rows. -/
theorem applyChanges_eq_ok {previous current : List WireRow}
    (hlength : previous.length = current.length) :
    applyChanges previous [] (((List.range current.length).zip current).filter fun entry ↦
      previous[entry.1]? != some entry.2) = .ok current := by
  have h := applyChanges_from hlength (y := 0) (Nat.zero_add _) [] (by simp)
  rwa [List.take_zero, List.nil_append, List.drop_zero, List.drop_zero, ← List.range_eq_range'] at h

end Bootty.Terminal
