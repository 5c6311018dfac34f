import Bootty.Ui.RowPaint

/-!
# Painting a frame

The rows of a decoded frame as the planner finds them in its flat list of cells,
`crates/bootty-ui/src/paint_plan.rs:715–723`: what is planned for a row is a function of the wire
row, and the plan of the frame is that of its rows, one behind the other.
-/

namespace Bootty.Ui

open Bootty.Base
open Bootty.Terminal (RenderCell RenderFrame TerminalSurface WireRow absolute absoluteRows rowsText)

variable [lib : PaintLibrary]

/-! ### The cells of a row -/

private theorem absoluteRows_append (y base : ℕ) (front back : List WireRow) :
    absoluteRows y base (front ++ back) = absoluteRows y base front ++
      absoluteRows (y + front.length) (base + (rowsText front).length) back := by
  induction front generalizing y base with
  | nil => rfl
  | cons row front ih =>
    rw [List.cons_append, absoluteRows, absoluteRows, ih, List.append_assoc, List.length_cons,
      rowsText, rowsText, List.flatMap_cons, List.length_append, Nat.add_assoc, Nat.add_assoc,
      Nat.add_comm 1]

/-- The cells of a frame in front of a row, in the row, and behind it. -/
structure RowSplit (frame : RenderFrame) (y : ℕ) (row : WireRow) (base : ℕ)
    (before after : List RenderCell) : Prop where
  cells : frame.cells = before ++ (row.cells.map (absolute y base) ++ after)
  before : ∀ cell ∈ before, cell.y < y
  after : ∀ cell ∈ after, y < cell.y
  text : ∀ cell ∈ row.cells, frame.cellText (absolute y base cell) =
    (row.text.take (cell.textStart + cell.textLen)).drop cell.textStart

variable {y : ℕ}

private theorem exists_rowSplit {frame : RenderFrame} {accepted : List WireRow}
    (h : frame.MadeOf accepted)
    {row : WireRow} (hrow : accepted[y]? = some row) :
    ∃ base before after, RowSplit frame y row base before after := by
  have ⟨hcells, htext, hvalid⟩ := Terminal.placeRows_eq_ok h.placed
  have ⟨hy, hget⟩ := List.getElem?_eq_some_iff.mp hrow
  have hsplit : accepted = accepted.take y ++ row :: accepted.drop (y + 1) := by
    rw [← hget, ← List.drop_eq_getElem_cons hy, List.take_append_drop]
  have hlength : (accepted.take y).length = y := by
    rw [List.length_take]
    omega
  generalize accepted.take y = front at hsplit hlength
  generalize accepted.drop (y + 1) = back at hsplit
  have hcontiguous := (hvalid row (by simp [hsplit])).contiguous
  rw [List.length_nil, hsplit, absoluteRows_append, hlength, Nat.zero_add, Nat.zero_add,
    absoluteRows] at hcells
  rw [List.nil_append, hsplit, rowsText, List.flatMap_append, List.flatMap_cons] at htext
  refine ⟨(rowsText front).length, _, _, hcells, ?_, ?_, ?_⟩
  · intro cell hcell
    have hbound := (Terminal.mem_absoluteRows hcell).2.1
    omega
  · intro cell hcell
    have hbound := (Terminal.mem_absoluteRows hcell).1
    omega
  · intro cell hcell
    have hinside := hcontiguous.le_of_mem hcell
    have hfront : (front.flatMap (·.text)).length = (rowsText front).length := rfl
    have hfits : (absolute y (rowsText front).length cell).textStart +
        (absolute y (rowsText front).length cell).textLen ≤ frame.text.length := by
      rw [htext, List.length_append, List.length_append, hfront]
      show cell.textStart + (rowsText front).length + cell.textLen ≤ _
      omega
    rw [Terminal.cellText_eq h.fits _ hfits, htext]
    show ((front.flatMap (·.text) ++ (row.text ++ back.flatMap (·.text))).take
      (cell.textStart + (rowsText front).length + cell.textLen)).drop
        (cell.textStart + (rowsText front).length) = _
    have hstop : cell.textStart + (rowsText front).length + cell.textLen =
        (front.flatMap (·.text)).length + (cell.textStart + cell.textLen) := by omega
    have hstart : cell.textStart + (rowsText front).length =
        (front.flatMap (·.text)).length + cell.textStart := by omega
    rw [hstop, hstart, List.take_length_add_append, List.drop_length_add_append,
      List.take_append_of_le_length hinside]

private theorem RowSplit.rowCells_eq {frame : RenderFrame} {row : WireRow} {base : ℕ}
    {before after : List RenderCell} (h : RowSplit frame y row base before after) :
    rowCells frame (some y) = row.cells.map (absolute y base) := by
  have hinside : ∀ cell ∈ row.cells.map (absolute y base), cell.y = y := by
    intro cell hcell
    have ⟨origin, _, heq⟩ := List.mem_map.mp hcell
    rw [← heq]
    rfl
  have hstart : partitionPoint (fun cell : RenderCell ↦ decide (cell.y < y)) frame.cells =
      before.length := by
    rw [h.cells]
    apply partitionPoint_append
    · intro cell hcell
      simpa using h.before cell hcell
    · intro cell hcell
      have hle : y ≤ cell.y := by
        cases List.mem_append.mp hcell with
        | inl hmem => exact Nat.le_of_eq (hinside cell hmem).symm
        | inr hmem => exact Nat.le_of_lt (h.after cell hmem)
      simpa using hle
  have hstop : partitionPoint (fun cell : RenderCell ↦ decide (cell.y ≤ y)) frame.cells =
      (before ++ row.cells.map (absolute y base)).length := by
    rw [h.cells, ← List.append_assoc]
    apply partitionPoint_append
    · intro cell hcell
      have hle : cell.y ≤ y := by
        cases List.mem_append.mp hcell with
        | inl hmem => exact Nat.le_of_lt (h.before cell hmem)
        | inr hmem => exact Nat.le_of_eq (hinside cell hmem)
      simpa using hle
    · intro cell hcell
      simpa using h.after cell hcell
  rw [rowCells, hstart, hstop, h.cells, ← List.append_assoc, List.take_left, List.drop_left]

private theorem mem_rowCells {frame : RenderFrame} {accepted : List WireRow}
    (h : frame.MadeOf accepted)
    (hy : y < frame.rows) : ∀ cell ∈ rowCells frame (some y), cell.y = y := by
  rw [← h.length] at hy
  have ⟨base, before, after, hsplit⟩ := exists_rowSplit h (List.getElem?_eq_getElem hy)
  rw [hsplit.rowCells_eq]
  intro cell hcell
  have ⟨origin, _, heq⟩ := List.mem_map.mp hcell
  rw [← heq]
  rfl

/-- The rows of a frame, one behind the other, are its cells. -/
theorem flatMap_rowCells {frame : RenderFrame} {accepted : List WireRow}
    (h : frame.MadeOf accepted) :
    (List.range frame.rows).flatMap (fun y ↦ rowCells frame (some y)) = frame.cells := by
  have ⟨hcells, _, _⟩ := Terminal.placeRows_eq_ok h.placed
  have hrow : ∀ y ∈ List.range frame.rows,
      rowCells frame (some y) = Terminal.rowCells frame y := by
    intro y hy
    rw [List.mem_range, ← h.length] at hy
    have ⟨base, before, after, hsplit⟩ := exists_rowSplit h (List.getElem?_eq_getElem hy)
    have hbefore : before.filter (·.y == y) = [] := by
      rw [List.filter_eq_nil_iff]
      intro cell hcell
      have hlt := hsplit.before cell hcell
      simp only [beq_iff_eq]
      omega
    have hafter : after.filter (·.y == y) = [] := by
      rw [List.filter_eq_nil_iff]
      intro cell hcell
      have hlt := hsplit.after cell hcell
      simp only [beq_iff_eq]
      omega
    have hinside : (accepted[y].cells.map (absolute y base)).filter (·.y == y) =
        accepted[y].cells.map (absolute y base) := by
      rw [List.filter_eq_self]
      intro cell hcell
      have ⟨origin, _, heq⟩ := List.mem_map.mp hcell
      rw [← heq]
      exact beq_self_eq_true y
    rw [hsplit.rowCells_eq, Terminal.rowCells, hsplit.cells, List.filter_append,
      List.filter_append, hbefore, hafter, hinside]
    simp
  rw [List.flatMap_congr hrow]
  apply Terminal.flatMap_rowCells_of_rowMajor
  · rw [hcells]
    exact Terminal.absoluteRows_rowMajor ..
  · intro cell hcell
    rw [hcells] at hcell
    have hbound := (Terminal.mem_absoluteRows hcell).2.1
    rw [h.length] at hbound
    omega

/-- Rows with the same wire row have the same ink. -/
theorem inked_rowCells {frame frame' : RenderFrame} {accepted accepted' : List WireRow}
    (h : frame.MadeOf accepted) (h' : frame'.MadeOf accepted') (hy : y < frame.rows)
    (hsame : accepted[y]? = accepted'[y]?) :
    List.Forall₂ (Inked frame frame') (rowCells frame (some y)) (rowCells frame' (some y)) := by
  rw [← h.length] at hy
  have hrow := List.getElem?_eq_getElem hy
  have ⟨base, _, _, hsplit⟩ := exists_rowSplit h hrow
  have ⟨base', _, _, hsplit'⟩ := exists_rowSplit h' (hsame.symm.trans hrow)
  rw [hsplit.rowCells_eq, hsplit'.rowCells_eq, List.forall₂_map_left_iff,
    List.forall₂_map_right_iff, List.forall₂_same]
  intro cell hcell
  exact ⟨rfl, rfl, rfl, rfl, rfl, by rw [hsplit.text cell hcell, hsplit'.text cell hcell]⟩

/-! ### The fragment of a row -/

variable {K : Type} [FloatOps K]

variable {surface : TerminalSurface K}

/-- The fragment of a row is a function of its wire row. -/
theorem alike_planRowFragment [LawfulFloatOps K] [DecidableEq K] {frame frame' : RenderFrame}
    {accepted accepted' : List WireRow} (h : frame.MadeOf accepted) (h' : frame'.MadeOf accepted')
    (hy : y < frame.rows) (hsame : accepted[y]? = accepted'[y]?) {surface' : TerminalSurface K}
    (hsurface : surface.Alike surface') {context : TextPlanContext K}
    (hmask : context.overlayMask = []) :
    (planRowFragment surface frame y context).Alike
      (planRowFragment surface' frame' y context) := by
  have hinked := inked_rowCells h h' hy hsame
  have ⟨htext, hlines⟩ := alike_planTextRunsFrom hsurface hmask hinked
  constructor
  · exact alike_foldl_pushCellBackground hinked (mem_rowCells h hy) hsurface _ _ .nil
      (by simp [InRow]) (by simp [InRow])
  · exact htext
  · exact hlines

/-! ### All rows -/

variable {below : List RenderCell}

/-- A run ends where its row does. -/
theorem extendRun_append {frame : RenderFrame} {context : TextPlanContext K} {attrs : TextAttrs}
    {startY : ℕ} (hbelow : ∀ cell ∈ below, cell.y ≠ startY) (endX : ℕ) (runText : List Char)
    (cells : List RenderCell) :
    extendRun frame context attrs startY endX runText (cells ++ below) =
      ((extendRun frame context attrs startY endX runText cells).1,
        (extendRun frame context attrs startY endX runText cells).2.1,
        (extendRun frame context attrs startY endX runText cells).2.2 ++ below) := by
  induction cells generalizing endX runText with
  | nil =>
    cases below with
    | nil => rfl
    | cons next rest =>
      have hstop : extendRun frame context attrs startY endX runText (next :: rest) =
          (endX, runText, next :: rest) := by
        rw [extendRun, if_pos (Or.inl (hbelow next List.mem_cons_self))]
      exact hstop
  | cons next rest ih =>
    rw [List.cons_append, extendRun, extendRun]
    split
    · rfl
    · exact ih _ _

private theorem textRun_append {frame : RenderFrame} {context : TextPlanContext K}
    {first : RenderCell}
    (hbelow : ∀ cell ∈ below, cell.y ≠ first.y) (rest : List RenderCell) :
    textRun surface frame context first (rest ++ below) =
      ((textRun surface frame context first rest).1,
        (textRun surface frame context first rest).2 ++ below) := by
  rw [textRun, textRun]
  dsimp only
  split
  · rfl
  · rw [extendRun_append hbelow]

/-- The text of a row does not depend on the rows below. -/
theorem planTextRunsFrom_append {frame : RenderFrame} {context : TextPlanContext K}
    {cells : List RenderCell} (hcells : ∀ cell ∈ cells, cell.y = y)
    (hbelow : ∀ cell ∈ below, cell.y ≠ y) :
    planTextRunsFrom surface frame context (cells ++ below) =
      ((planTextRunsFrom surface frame context cells).1 ++
          (planTextRunsFrom surface frame context below).1,
        (planTextRunsFrom surface frame context cells).2 ++
          (planTextRunsFrom surface frame context below).2) := by
  generalize hlength : cells.length = n
  induction n using Nat.strong_induction_on generalizing cells with
  | _ n ih =>
    cases cells with
    | nil => simp [planTextRunsFrom]
    | cons first rest =>
      obtain ⟨hfirst, hrest⟩ := List.forall_mem_cons.mp hcells
      rw [List.cons_append, planTextRunsFrom, planTextRunsFrom]
      split
      · exact ih rest.length (by rw [← hlength]; exact Nat.lt_succ_self _) hrest rfl
      · have hsuffix := suffix_textRun surface frame context first rest
        have hbehind := ih _ (by rw [← hlength]; exact Nat.lt_succ_of_le hsuffix.length_le)
          (fun cell hcell ↦ hrest cell (hsuffix.subset hcell)) rfl
        rw [textRun_append (by rw [hfirst]; exact hbelow)]
        dsimp only
        rw [hbehind]
        simp

private theorem planTextRunsFrom_flatMap (surface : TerminalSurface K) (frame : RenderFrame)
    (context : TextPlanContext K) {rows : List ℕ} {cellsOf : ℕ → List RenderCell}
    (hcells : ∀ y ∈ rows, ∀ cell ∈ cellsOf y, cell.y = y) (hrows : rows.Nodup) :
    planTextRunsFrom surface frame context (rows.flatMap cellsOf) =
      (rows.flatMap fun y ↦ (planTextRunsFrom surface frame context (cellsOf y)).1,
        rows.flatMap fun y ↦ (planTextRunsFrom surface frame context (cellsOf y)).2) := by
  induction rows with
  | nil => simp [planTextRunsFrom]
  | cons y rows ih =>
    obtain ⟨hy, hrest⟩ := List.forall_mem_cons.mp hcells
    obtain ⟨hfresh, hnodup⟩ := List.nodup_cons.mp hrows
    have hbelow : ∀ cell ∈ rows.flatMap cellsOf, cell.y ≠ y := by
      intro cell hcell heq
      obtain ⟨y', hy', hmem⟩ := List.mem_flatMap.mp hcell
      rw [← heq, hrest y' hy' cell hmem] at hfresh
      exact hfresh hy'
    rw [List.flatMap_cons, planTextRunsFrom_append hy hbelow, ih hrest hnodup]
    rfl

section Tops

variable [DecidableEq K]

/-- The rows of a surface have different tops. -/
def DistinctTops (surface : TerminalSurface K) (rows : ℕ) : Prop :=
  ∀ y < rows, ∀ y' < rows, y ≠ y' → surface.rowTop y ≠ surface.rowTop y'

private theorem foldl_flatMap_rows {rows : List ℕ} {cellsOf : ℕ → List RenderCell}
    (hcells : ∀ y ∈ rows, ∀ cell ∈ cellsOf y, cell.y = y)
    (hrows : rows.Pairwise fun y y' ↦ surface.rowTop y ≠ surface.rowTop y') (fg bg : PlanColor)
    {front : List (BackgroundRect K)}
    (hfront : ∀ y ∈ rows, ∀ background ∈ front, background.rect.minY ≠ surface.rowTop y) :
    (rows.flatMap cellsOf).foldl (pushCellBackground surface fg bg) front =
      front ++ rows.flatMap fun y ↦ (cellsOf y).foldl (pushCellBackground surface fg bg) [] := by
  induction rows generalizing front with
  | nil => simp
  | cons y rows ih =>
    have ⟨hy, hrest⟩ := List.forall_mem_cons.mp hcells
    have ⟨htop, hpairwise⟩ := List.pairwise_cons.mp hrows
    have ⟨hfrontRow, hfrontRest⟩ := List.forall_mem_cons.mp hfront
    have hrow : InRow surface y ((cellsOf y).foldl (pushCellBackground surface fg bg) []) :=
      inRow_foldl hy fg bg (by simp [InRow])
    rw [List.flatMap_cons, List.foldl_append, foldl_pushCellBackground hy fg bg hfrontRow,
      ih hrest hpairwise, List.flatMap_cons, List.append_assoc]
    intro y' hy' background hbackground
    cases List.mem_append.mp hbackground with
    | inl hmem => exact hfrontRest y' hy' background hmem
    | inr hmem =>
      rw [(hrow background hmem).1]
      exact htop y' hy'

variable {frame : RenderFrame} {accepted : List WireRow}

/-- The backgrounds of a frame are those of its rows. -/
theorem planBackgrounds_eq (h : frame.MadeOf accepted) (htops : DistinctTops surface frame.rows)
    (fg bg : PlanColor) :
    planBackgrounds [] surface frame fg bg none =
      (List.range frame.rows).flatMap fun y ↦
        planBackgrounds [] surface frame fg bg (some y) := by
  have hcells : ∀ y ∈ List.range frame.rows, ∀ cell ∈ rowCells frame (some y), cell.y = y :=
    fun y hy ↦ mem_rowCells h (List.mem_range.mp hy)
  have hrows : (List.range frame.rows).Pairwise
      fun y y' ↦ surface.rowTop y ≠ surface.rowTop y' := by
    apply List.Pairwise.imp_of_mem _ List.nodup_range
    intro y y' hy hy' hne
    exact htops y (List.mem_range.mp hy) y' (List.mem_range.mp hy') hne
  have hfront : ∀ y ∈ List.range frame.rows, ∀ background ∈ ([] : List (BackgroundRect K)),
      background.rect.minY ≠ surface.rowTop y := by simp
  have hfold := foldl_flatMap_rows hcells hrows fg bg hfront
  rw [flatMap_rowCells h, List.nil_append] at hfold
  exact hfold

end Tops

/-- The text of a frame is that of its rows. -/
theorem planTextRuns_eq {frame : RenderFrame} {accepted : List WireRow}
    (h : frame.MadeOf accepted) (surface : TerminalSurface K) (context : TextPlanContext K) :
    planTextRuns surface frame context none =
      ((List.range frame.rows).flatMap fun y ↦
          (planTextRuns surface frame context (some y)).1,
        (List.range frame.rows).flatMap fun y ↦
          (planTextRuns surface frame context (some y)).2) := by
  have hcells : ∀ y ∈ List.range frame.rows, ∀ cell ∈ rowCells frame (some y), cell.y = y :=
    fun y hy ↦ mem_rowCells h (List.mem_range.mp hy)
  have htext := planTextRunsFrom_flatMap surface frame context hcells List.nodup_range
  rw [flatMap_rowCells h] at htext
  exact htext

end Bootty.Ui
