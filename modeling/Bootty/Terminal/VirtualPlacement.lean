import Mathlib.Data.List.Basic
import Bootty.Base.Fallible
import Bootty.Terminal.Frame

/-!
# Runs of image placeholders

Model of the placeholder cells of `extract_render_row` (`crates/bootty-terminal/src/
terminal_engine.rs:338–405, 2032–2038`) and of the runs that `IncompletePlacement` forms of them
(`terminal_image/virtual_placement.rs:103–171, 288–364, 528–545`), without the rendering of a
finished run. A run stands for the cells of a row from its column on. These are placeholders, each
with the attributes that are written on it or inherited from its left neighbour, unless a run goes
on past cells that are none: `append` does not compare the columns.
-/

namespace Bootty.Terminal

open Bootty.Base

/-- A colour of a cell, of `libghostty_vt`. -/
inductive StyleColor where
  | none
  | palette (index : UInt8)
  | rgb (color : RgbColor)
  deriving DecidableEq

/-- What is read of a cell for images; a cell without styling has no style. -/
structure VtCell where
  grapheme : List Char
  style : Option (StyleColor × StyleColor) := none
  deriving DecidableEq

/-- `KittyVirtualCell`. -/
structure KittyVirtualCell where
  x : Nat
  y : Nat
  grapheme : List Char
  foreground : StyleColor
  underlineColor : StyleColor
  deriving DecidableEq

/-- `virtual_placement.rs:13`. -/
def placeholder : Char := Char.ofNat 0x10EEEE

/-- The foreground of the cell's style. -/
def VtCell.foreground (cell : VtCell) : StyleColor := (cell.style.map Prod.fst).getD .none

/-- The underline colour of the cell's style. -/
def VtCell.underlineColor (cell : VtCell) : StyleColor := (cell.style.map Prod.snd).getD .none

/-- `is_virtual_placeholder`. -/
def VtCell.isVirtualPlaceholder (cell : VtCell) : Bool := cell.grapheme.head? == some placeholder

/-- The placeholders of a row from a column on, `terminal_engine.rs:338–405`. -/
def extractRenderRow (rowIndex : Nat) : Nat → List VtCell → Except String (List KittyVirtualCell)
  | _, [] => .ok []
  | colIndex, cell :: cells => do
    let virtualCells := if cell.isVirtualPlaceholder then
      [⟨colIndex, rowIndex, cell.grapheme, cell.foreground, cell.underlineColor⟩] else []
    ensure (colIndex + 1 < 2 ^ 16) "terminal row exceeds column limit"
    let rest ← extractRenderRow rowIndex (colIndex + 1) cells
    return virtualCells ++ rest

/-- The placeholders of all rows from a row on, `terminal_engine.rs:2032–2038`. -/
def extractRenderRows : Nat → List (List VtCell) → Except String (List KittyVirtualCell)
  | _, [] => .ok []
  | rowIndex, row :: rows => do
    let virtualCells ← extractRenderRow rowIndex 0 row
    let rest ← extractRenderRows (rowIndex + 1) rows
    return virtualCells ++ rest

/-- `virtual_placement.rs:14–101`: the first and the last character of a range, and the number of
the first. -/
def diacriticRanges : List (Nat × Nat × Nat) :=
  [(0x305, 0x305, 0), (0x30D, 0x30E, 1), (0x310, 0x310, 3), (0x312, 0x312, 4), (0x33D, 0x33F, 5),
    (0x346, 0x346, 8), (0x34A, 0x34C, 9), (0x350, 0x352, 12), (0x357, 0x357, 15),
    (0x35B, 0x35B, 16), (0x363, 0x36F, 17), (0x483, 0x487, 30), (0x592, 0x595, 35),
    (0x597, 0x599, 39), (0x59C, 0x5A1, 42), (0x5A8, 0x5A9, 48), (0x5AB, 0x5AC, 50),
    (0x5AF, 0x5AF, 52), (0x5C4, 0x5C4, 53), (0x610, 0x617, 54), (0x657, 0x65B, 62),
    (0x65D, 0x65E, 67), (0x6D6, 0x6DC, 69), (0x6DF, 0x6E2, 76), (0x6E4, 0x6E4, 80),
    (0x6E7, 0x6E8, 81), (0x6EB, 0x6EC, 83), (0x730, 0x730, 85), (0x732, 0x733, 86),
    (0x735, 0x736, 88), (0x73A, 0x73A, 90), (0x73D, 0x73D, 91), (0x73F, 0x741, 92),
    (0x743, 0x743, 95), (0x745, 0x745, 96), (0x747, 0x747, 97), (0x749, 0x74A, 98),
    (0x7EB, 0x7F1, 100), (0x7F3, 0x7F3, 107), (0x816, 0x819, 108), (0x81B, 0x823, 112),
    (0x825, 0x827, 121), (0x829, 0x82D, 124), (0x951, 0x951, 129), (0x953, 0x954, 130),
    (0xF82, 0xF83, 132), (0xF86, 0xF87, 134), (0x135D, 0x135F, 136), (0x17DD, 0x17DD, 139),
    (0x193A, 0x193A, 140), (0x1A17, 0x1A17, 141), (0x1A75, 0x1A7C, 142), (0x1B6B, 0x1B6B, 150),
    (0x1B6D, 0x1B73, 151), (0x1CD0, 0x1CD2, 158), (0x1CDA, 0x1CDB, 161), (0x1CE0, 0x1CE0, 163),
    (0x1DC0, 0x1DC1, 164), (0x1DC3, 0x1DC9, 166), (0x1DCB, 0x1DCC, 173), (0x1DD1, 0x1DE6, 175),
    (0x1DFE, 0x1DFE, 197), (0x20D0, 0x20D1, 198), (0x20D4, 0x20D7, 200), (0x20DB, 0x20DC, 204),
    (0x20E1, 0x20E1, 206), (0x20E7, 0x20E7, 207), (0x20E9, 0x20E9, 208), (0x20F0, 0x20F0, 209),
    (0x2CEF, 0x2CF1, 210), (0x2DE0, 0x2DFF, 213), (0xA66F, 0xA66F, 245), (0xA67C, 0xA67D, 246),
    (0xA6F0, 0xA6F1, 248), (0xA8E0, 0xA8F1, 250), (0xAAB0, 0xAAB0, 268), (0xAAB2, 0xAAB3, 269),
    (0xAAB7, 0xAAB8, 271), (0xAABE, 0xAABF, 273), (0xAAC1, 0xAAC1, 275), (0xFE20, 0xFE26, 276),
    (0x10A0F, 0x10A0F, 283), (0x10A38, 0x10A38, 284), (0x1D185, 0x1D189, 285),
    (0x1D1AA, 0x1D1AD, 290), (0x1D242, 0x1D244, 294)]

/-- `virtual_placement.rs:538–545`. -/
def diacriticIndex (ch : Char) : Option Nat :=
  match (diacriticRanges.dropWhile fun (_, stop, _) ↦ stop < ch.toNat).head? with
  | none => none
  | some (start, stop, base) =>
    if start ≤ ch.toNat ∧ ch.toNat ≤ stop then some (base + (ch.toNat - start)) else none

/-- The ranges are in order, so that the binary search of the source finds the same one. -/
example : (diacriticRanges.zip diacriticRanges.tail).all fun ((_, stop, _), (next, _, _)) ↦
    stop < next := by decide

/-- `virtual_placement.rs:528–536`. -/
def colorToId : StyleColor → Nat
  | .none => 0
  | .palette index => index.toNat
  | .rgb color => color.r.toNat <<< 16 ||| color.g.toNat <<< 8 ||| color.b.toNat

/-- `virtual_placement.rs:288–298`. -/
structure IncompletePlacement where
  x : Nat
  y : Nat
  imageIdLow : Nat
  imageIdHigh : Option Nat
  placementId : Option Nat
  row : Option Nat
  col : Option Nat
  width : Nat
  deriving DecidableEq

/-- `virtual_placement.rs:366–375`. -/
structure CellPlacement where
  x : Nat
  y : Nat
  imageId : Nat
  placementId : Nat
  col : Nat
  row : Nat
  width : Nat
  deriving DecidableEq

/-- `u32::checked_add`. -/
def checkedAddU32 (a b : Nat) : Option Nat := if a + b < 2 ^ 32 then some (a + b) else none

namespace IncompletePlacement

/-- `virtual_placement.rs:301–324`. -/
def fromCell (cell : KittyVirtualCell) : Option IncompletePlacement :=
  if cell.grapheme.head? = some placeholder then
    some {
      x := cell.x
      y := cell.y
      imageIdLow := colorToId cell.foreground
      imageIdHigh := (cell.grapheme[3]?.bind diacriticIndex).filter (· < 2 ^ 8)
      placementId := (some (colorToId cell.underlineColor)).filter (· != 0)
      row := cell.grapheme[1]?.bind diacriticIndex
      col := cell.grapheme[2]?.bind diacriticIndex
      width := 1 }
  else none

/-- `virtual_placement.rs:326–330`. -/
def withDefaultOrigin (run : IncompletePlacement) : IncompletePlacement :=
  { run with row := some (run.row.getD 0), col := some (run.col.getD 0) }

/-- The run that another one makes longer, `virtual_placement.rs:332–351`. -/
def append (run other : IncompletePlacement) : Option IncompletePlacement :=
  if run.y ≠ other.y ∨ run.imageIdLow ≠ other.imageIdLow ∨ run.placementId ≠ other.placementId ∨
      other.row.any (fun row ↦ some row != run.row) ∨
      other.col.any (fun col ↦ some col != run.col.bind fun start ↦ checkedAddU32 start run.width) ∨
      other.imageIdHigh.any (fun high ↦ some high != run.imageIdHigh) then
    none
  else (checkedAddU32 run.width 1).map fun width ↦ { run with width := width }

/-- `virtual_placement.rs:353–363`. -/
def complete (run : IncompletePlacement) : CellPlacement where
  x := run.x
  y := run.y
  imageId := run.imageIdLow ||| run.imageIdHigh.getD 0 <<< 24
  placementId := run.placementId.getD 0
  col := run.col.getD 0
  row := run.row.getD 0
  width := run.width

/-- The runs that are finished from a cell on, `virtual_placement.rs:144–167`. -/
def finishedRuns : Option IncompletePlacement → List KittyVirtualCell → List IncompletePlacement
  | run, [] => run.toList
  | run, cell :: cells =>
    match fromCell cell with
    | none => run.toList ++ finishedRuns none cells
    | some current =>
      match run.bind fun previous ↦ previous.append current with
      | some longer => finishedRuns (some longer) cells
      | none => run.toList ++ finishedRuns (some current.withDefaultOrigin) cells

end IncompletePlacement

/-- The runs of the placeholders of a frame. -/
def placementRuns (cells : List KittyVirtualCell) : List IncompletePlacement :=
  IncompletePlacement.finishedRuns none cells

/-! ### What a placeholder stands for -/

/-- What is written on a placeholder. -/
structure PlaceholderMarks where
  imageIdLow : Nat
  imageIdHigh : Option Nat
  placementId : Option Nat
  row : Option Nat
  col : Option Nat
  deriving DecidableEq

/-- What a placeholder stands for. -/
structure PlaceholderAttributes where
  imageIdLow : Nat
  imageIdHigh : Option Nat
  placementId : Option Nat
  row : Nat
  col : Nat
  deriving DecidableEq

/-- The id of the image. -/
def PlaceholderAttributes.imageId (attributes : PlaceholderAttributes) : Nat :=
  attributes.imageIdLow ||| attributes.imageIdHigh.getD 0 <<< 24

/-- The marks of a placeholder. -/
def VtCell.marks (cell : VtCell) : Option PlaceholderMarks :=
  if cell.isVirtualPlaceholder then
    some {
      imageIdLow := colorToId cell.foreground
      imageIdHigh := (cell.grapheme[3]?.bind diacriticIndex).filter (· < 2 ^ 8)
      placementId := (some (colorToId cell.underlineColor)).filter (· != 0)
      row := cell.grapheme[1]?.bind diacriticIndex
      col := cell.grapheme[2]?.bind diacriticIndex }
  else none

/-- A placeholder continues another one that has its colours if nothing is written on it that says
otherwise. -/
def PlaceholderMarks.Continues (marks : PlaceholderMarks) (left : PlaceholderAttributes) : Prop :=
  marks.imageIdLow = left.imageIdLow ∧ marks.placementId = left.placementId ∧
    (∀ row, marks.row = some row → row = left.row) ∧
    (∀ col, marks.col = some col → col = left.col + 1) ∧
    ∀ high, marks.imageIdHigh = some high → left.imageIdHigh = some high

/-- Whether marks continue others is decidable. -/
instance (marks : PlaceholderMarks) (left : PlaceholderAttributes) :
    Decidable (marks.Continues left) :=
  decidable_of_iff
    (marks.imageIdLow = left.imageIdLow ∧ marks.placementId = left.placementId ∧
      (∀ row ∈ marks.row, row = left.row) ∧ (∀ col ∈ marks.col, col = left.col + 1) ∧
      ∀ high ∈ marks.imageIdHigh, left.imageIdHigh = some high)
    Iff.rfl

/-- What a placeholder stands for where something is to its left: what is written on it, and what
is not is that of the placeholder that it continues, one column on. -/
def PlaceholderMarks.attributes (marks : PlaceholderMarks) (left : Option PlaceholderAttributes) :
    PlaceholderAttributes :=
  match left with
  | some left =>
    if marks.Continues left then { left with col := left.col + 1 } else
      ⟨marks.imageIdLow, marks.imageIdHigh, marks.placementId, marks.row.getD 0, marks.col.getD 0⟩
  | none =>
    ⟨marks.imageIdLow, marks.imageIdHigh, marks.placementId, marks.row.getD 0, marks.col.getD 0⟩

/-- What is written on the placeholder of a row at a column. -/
def marksAt (row : List VtCell) (column : Nat) : Option PlaceholderMarks :=
  row[column]?.bind VtCell.marks

/-- What the placeholder of a row at a column stands for. -/
def attributesAt (row : List VtCell) : Nat → Option PlaceholderAttributes
  | 0 => (marksAt row 0).map (·.attributes none)
  | column + 1 => (marksAt row (column + 1)).map (·.attributes (attributesAt row column))

/-- No placeholder continues one from which other cells part it. -/
def NoPartedContinuation (row : List VtCell) : Prop :=
  ∀ left right attributes marks, left + 1 < right →
    (∀ between, left < between → between < right → marksAt row between = none) →
    attributesAt row left = some attributes → marksAt row right = some marks →
      ¬marks.Continues attributes

/-- A placeholder has the colours of another one: it is of the same image and placement. -/
def PlaceholderMarks.SameColours (marks : PlaceholderMarks) (left : PlaceholderAttributes) : Prop :=
  marks.imageIdLow = left.imageIdLow ∧ marks.placementId = left.placementId

/-- Whether colours are the same is decidable. -/
instance (marks : PlaceholderMarks) (left : PlaceholderAttributes) :
    Decidable (marks.SameColours left) :=
  inferInstanceAs (Decidable (_ ∧ _))

/-- What is written on a placeholder; what is not is that of the placeholder to its left if that has
its colours, one column on. -/
def PlaceholderMarks.inherited (marks : PlaceholderMarks) (left : Option PlaceholderAttributes) :
    PlaceholderAttributes :=
  match left with
  | some left =>
    if marks.SameColours left then
      ⟨marks.imageIdLow, marks.imageIdHigh.or left.imageIdHigh, marks.placementId,
        marks.row.getD left.row, marks.col.getD (left.col + 1)⟩
    else
      ⟨marks.imageIdLow, marks.imageIdHigh, marks.placementId, marks.row.getD 0, marks.col.getD 0⟩
  | none =>
    ⟨marks.imageIdLow, marks.imageIdHigh, marks.placementId, marks.row.getD 0, marks.col.getD 0⟩

/-- What the placeholder of a row at a column has written on it or inherits. -/
def inheritedAt (row : List VtCell) : Nat → Option PlaceholderAttributes
  | 0 => (marksAt row 0).map (·.inherited none)
  | column + 1 => (marksAt row (column + 1)).map (·.inherited (inheritedAt row column))

/-- A placeholder that does not continue its left neighbour, though it has its colours, would
inherit nothing: the column is written on it, and the row and the high byte are written on it or are
those of the start of an image. -/
def NoLostInheritance (row : List VtCell) : Prop :=
  ∀ column left marks, attributesAt row column = some left →
    marksAt row (column + 1) = some marks → marks.SameColours left → ¬marks.Continues left →
      (marks.row = none → left.row = 0) ∧ marks.col ≠ none ∧
        (marks.imageIdHigh = none → left.imageIdHigh.getD 0 = 0)

variable {row : List VtCell} {column : Nat} {marks : PlaceholderMarks}

private theorem marksAt_lt (h : marksAt row column = some marks) : column < row.length := by
  have ⟨_, hcell, _⟩ := Option.bind_eq_some_iff.mp h
  exact (List.getElem?_eq_some_iff.mp hcell).1

/-- It is decidable. -/
instance (row : List VtCell) : Decidable (NoPartedContinuation row) :=
  decidable_of_iff
    (∀ right < row.length, ∀ left < right, left + 1 < right →
      (∀ between < right, left < between → (marksAt row between).isNone) →
      (attributesAt row left).all fun attributes ↦ (marksAt row right).all fun marks ↦
        !decide (marks.Continues attributes))
    ⟨fun h left right attributes marks hlt hbetween hleft hright ↦ by
      have hall := h right (marksAt_lt hright) left (by omega) hlt
        fun between hright hleft ↦ by simp [hbetween between hleft hright]
      simpa [hleft, hright] using hall,
    fun h right _ left _ hlt hbetween ↦ by
      simp only [Option.all_eq_true, Bool.not_eq_eq_eq_not, Bool.not_true, decide_eq_false_iff_not]
      exact fun attributes hleft marks hright ↦ h left right attributes marks hlt
        (fun between hleft hright ↦ by simpa using hbetween between hright hleft) hleft hright⟩

/-- It is decidable. -/
instance (row : List VtCell) : Decidable (NoLostInheritance row) :=
  decidable_of_iff
    (∀ column < row.length, (attributesAt row column).all fun left ↦
      (marksAt row (column + 1)).all fun marks ↦
        decide (marks.SameColours left → ¬marks.Continues left →
          (marks.row = none → left.row = 0) ∧ marks.col ≠ none ∧
            (marks.imageIdHigh = none → left.imageIdHigh.getD 0 = 0)))
    ⟨fun h column left marks hleft hright ↦ by
      have hall := h column (by have := marksAt_lt hright; omega)
      rw [hleft, hright, Option.all_some, Option.all_some] at hall
      exact of_decide_eq_true hall,
    fun h column _ ↦ by
      simp only [Option.all_eq_true, decide_eq_true_eq]
      exact fun left hleft marks hright ↦ h column left marks hleft hright⟩

/-- A run covers placeholders of a row, and says what each of them stands for. -/
def IncompletePlacement.CoversCells (run : IncompletePlacement)
    (standsFor : Nat → Option PlaceholderAttributes) : Prop :=
  ∀ i < run.width, ∃ attributes, standsFor (run.x + i) = some attributes ∧
    run.complete.imageId = attributes.imageId ∧
    run.complete.placementId = attributes.placementId.getD 0 ∧
    run.complete.row = attributes.row ∧ run.complete.col + i = attributes.col

/-- The columns of a run. -/
def IncompletePlacement.columns (run : IncompletePlacement) : List Nat :=
  List.range' run.x run.width

/-- The runs of a row part its placeholders among them. -/
structure CoversRow (standsFor : Nat → Option PlaceholderAttributes) (row : List VtCell)
    (rowIndex : Nat) (runs : List IncompletePlacement) : Prop where
  columns : runs.flatMap (·.columns) =
    (List.range row.length).filter fun column ↦ (marksAt row column).isSome
  sameRow : ∀ run ∈ runs, run.y = rowIndex
  cells : ∀ run ∈ runs, run.CoversCells standsFor

/-! ### One cell -/

/-- The number of a diacritic is small. -/
theorem diacriticIndex_lt {ch : Char} {index : Nat} (h : diacriticIndex ch = some index) :
    index < 297 := by
  unfold diacriticIndex at h
  cases hhead : (diacriticRanges.dropWhile fun (_, stop, _) ↦ stop < ch.toNat).head? with
  | none => simp [hhead] at h
  | some range =>
    have ⟨start, stop, base⟩ := range
    have hmem : (start, stop, base) ∈ diacriticRanges :=
      (List.dropWhile_sublist _).subset (List.mem_of_head? hhead)
    have hbound : ∀ range ∈ diacriticRanges, range.2.2 + (range.2.1 - range.1) < 297 := by decide
    have hrange := hbound _ hmem
    simp only [hhead] at h
    split at h
    · injection h with h
      simp only at hrange
      omega
    · simp at h

/-- The marks of a cell as the beginning of a run. -/
def PlaceholderMarks.toIncomplete (marks : PlaceholderMarks) (x y : Nat) : IncompletePlacement where
  x := x
  y := y
  imageIdLow := marks.imageIdLow
  imageIdHigh := marks.imageIdHigh
  placementId := marks.placementId
  row := marks.row
  col := marks.col
  width := 1

variable {cell : VtCell}

private theorem marks_eq_none : cell.marks = none ↔ cell.isVirtualPlaceholder = false := by
  cases h : cell.isVirtualPlaceholder <;> simp [VtCell.marks, h]

/-- What is read of a placeholder is what is written on it. -/
theorem fromCell_virtual (h : cell.marks = some marks) (x y : Nat) :
    IncompletePlacement.fromCell ⟨x, y, cell.grapheme, cell.foreground, cell.underlineColor⟩ =
      some (marks.toIncomplete x y) := by
  unfold VtCell.marks at h
  cases hplaceholder : cell.isVirtualPlaceholder with
  | false => simp [hplaceholder] at h
  | true =>
    simp only [hplaceholder, if_true, Option.some.injEq] at h
    have hhead : cell.grapheme.head? = some placeholder := by
      simpa [VtCell.isVirtualPlaceholder] using hplaceholder
    simp [IncompletePlacement.fromCell, hhead, ← h, PlaceholderMarks.toIncomplete]

private theorem marks_col_lt (h : cell.marks = some marks) :
    marks.col.getD 0 < 297 := by
  unfold VtCell.marks at h
  split at h
  · injection h with h
    rw [← h]
    cases hcol : cell.grapheme[2]?.bind diacriticIndex with
    | none => simp
    | some col =>
      have ⟨_, _, hindex⟩ := Option.bind_eq_some_iff.mp hcol
      exact diacriticIndex_lt hindex
  · simp at h

/-- The attributes of what is to the left of a column. -/
def attributesLeft (row : List VtCell) : Nat → Option PlaceholderAttributes
  | 0 => none
  | column + 1 => attributesAt row column

private theorem attributesAt_eq (row : List VtCell) (column : Nat) :
    attributesAt row column =
      (marksAt row column).map (·.attributes (attributesLeft row column)) := by
  cases column <;> rfl

private theorem attributesAt_of_marks (h : marksAt row column = some marks) :
    attributesAt row column = some (marks.attributes (attributesLeft row column)) := by
  rw [attributesAt_eq, h, Option.map_some]

private theorem attributesLeft_of_none (h : ∀ left, left + 1 = column → marksAt row left = none) :
    attributesLeft row column = none := by
  cases column with
  | zero => rfl
  | succ left => rw [attributesLeft, attributesAt_eq, h left rfl, Option.map_none]

private theorem PlaceholderMarks.attributes_of_not_continues {left : Option PlaceholderAttributes}
    (h : ∀ attributes ∈ left, ¬marks.Continues attributes) :
    marks.attributes left = ⟨marks.imageIdLow, marks.imageIdHigh, marks.placementId,
      marks.row.getD 0, marks.col.getD 0⟩ := by
  cases left with
  | none => rfl
  | some left => simp [PlaceholderMarks.attributes, h left rfl]

private theorem PlaceholderMarks.attributes_of_continues {left : PlaceholderAttributes}
    (h : marks.Continues left) :
    marks.attributes (some left) = { left with col := left.col + 1 } := by
  simp [PlaceholderMarks.attributes, h]

variable {rowIndex : Nat}

namespace IncompletePlacement

/-- What each cell of a run stands for, read off the run. -/
def attributesOf (run : IncompletePlacement) (i : Nat) : PlaceholderAttributes :=
  ⟨run.imageIdLow, run.imageIdHigh, run.placementId, run.row.getD 0, run.col.getD 0 + i⟩

/-- A run of a row before a column: its cells have its attributes, and no placeholder is between
it and the column. -/
structure IsOpen (run : IncompletePlacement) (row : List VtCell) (rowIndex column : Nat) :
    Prop where
  sameRow : run.y = rowIndex
  width_pos : 0 < run.width
  row_isSome : run.row.isSome
  col_isSome : run.col.isSome
  col_lt : run.col.getD 0 < 297
  before : run.x + run.width ≤ column
  parted : ∀ between, run.x + run.width ≤ between → between < column → marksAt row between = none
  cells : ∀ i < run.width, attributesAt row (run.x + i) = some (run.attributesOf i)

private theorem IsOpen.coversCells {run : IncompletePlacement}
    (h : run.IsOpen row rowIndex column) :
    run.CoversCells (attributesAt row) :=
  fun i hi ↦ ⟨_, h.cells i hi, rfl, rfl, rfl, rfl⟩

/-- A cell that is no placeholder leaves a run as it is. -/
theorem IsOpen.succ {run : IncompletePlacement} (h : run.IsOpen row rowIndex column)
    (hnone : marksAt row column = none) :
    run.IsOpen row rowIndex (column + 1) where
  sameRow := h.sameRow
  width_pos := h.width_pos
  row_isSome := h.row_isSome
  col_isSome := h.col_isSome
  col_lt := h.col_lt
  before := Nat.le_succ_of_le h.before
  parted between hle hlt := by
    rcases Nat.lt_succ_iff_lt_or_eq.mp hlt with hlt | rfl
    · exact h.parted between hle hlt
    · exact hnone
  cells := h.cells

/-- A placeholder that continues nothing begins a run. -/
theorem isOpen_start (hmarks : marksAt row column = some marks)
    (hleft : ∀ attributes ∈ attributesLeft row column, ¬marks.Continues attributes) :
    (marks.toIncomplete column rowIndex).withDefaultOrigin.IsOpen row rowIndex (column + 1) where
  sameRow := rfl
  width_pos := Nat.one_pos
  row_isSome := rfl
  col_isSome := rfl
  col_lt := by
    have ⟨_, _, hcell⟩ := Option.bind_eq_some_iff.mp hmarks
    exact marks_col_lt hcell
  before := Nat.le_refl _
  parted between hle hlt := absurd hlt (Nat.not_lt.mpr hle)
  cells i hi := by
    have hzero : i = 0 := Nat.lt_one_iff.mp hi
    subst hzero
    rw [Nat.add_zero]
    exact (attributesAt_of_marks hmarks).trans
      (congrArg some (PlaceholderMarks.attributes_of_not_continues hleft))

/-- A run is made longer exactly by what continues its last cell. -/
theorem append_toIncomplete {run : IncompletePlacement} {x : Nat}
    (h : run.IsOpen row rowIndex column) (hcolumn : column < 2 ^ 16) (marks : PlaceholderMarks) :
    run.append (marks.toIncomplete x rowIndex) =
      if marks.Continues (run.attributesOf (run.width - 1)) then
        some { run with width := run.width + 1 } else none := by
  have hwidth : run.width < 2 ^ 16 := by have := h.before; omega
  have ⟨start, hcol⟩ := Option.isSome_iff_exists.mp h.col_isSome
  have ⟨runRow, hrow⟩ := Option.isSome_iff_exists.mp h.row_isSome
  have hstart : start < 297 := by simpa [hcol] using h.col_lt
  have hnext : checkedAddU32 start run.width = some (start + run.width) :=
    if_pos (by omega)
  have hlonger : checkedAddU32 run.width 1 = some (run.width + 1) := if_pos (by omega)
  have hlast : start + (run.width - 1) + 1 = start + run.width := by have := h.width_pos; omega
  unfold append
  rw [hlonger, hcol, hrow, Option.bind_some, hnext, Option.map_some]
  by_cases hcontinues : marks.Continues (run.attributesOf (run.width - 1))
  · rw [if_pos hcontinues, if_neg]
    have ⟨hlow, hid, hmrow, hmcol, hhigh⟩ := hcontinues
    simp only [attributesOf, hcol, hrow, Option.getD_some, hlast] at hlow hid hmrow hmcol hhigh
    have hrowNot : marks.row.any (fun row ↦ some row != some runRow) = false := by
      cases hm : marks.row with
      | none => rfl
      | some row => simp [hmrow row hm]
    have hcolNot : marks.col.any (fun col ↦ some col != some (start + run.width)) = false := by
      cases hm : marks.col with
      | none => rfl
      | some col => simp [hmcol col hm]
    have hhighNot : marks.imageIdHigh.any (fun high ↦ some high != run.imageIdHigh) = false := by
      cases hm : marks.imageIdHigh with
      | none => rfl
      | some high => simp [hhigh high hm]
    simp only [PlaceholderMarks.toIncomplete, h.sameRow, ← hlow, ← hid, hrowNot, hcolNot, hhighNot]
    simp
  · rw [if_neg hcontinues, if_pos]
    by_contra hsame
    simp only [not_or, PlaceholderMarks.toIncomplete, ne_eq, not_not] at hsame
    have ⟨_, hlow, hid, hmrow, hmcol, hhigh⟩ := hsame
    refine hcontinues ⟨hlow.symm, hid.symm, fun row hm ↦ ?_, fun col hm ↦ ?_, fun high hm ↦ ?_⟩
    · simpa [hm, hrow, attributesOf] using hmrow
    · simpa [hm, attributesOf, hcol, hlast] using hmcol
    · have hsame : some high = run.imageIdHigh := by simpa [hm] using hhigh
      exact hsame.symm

/-- The last cell of a run. -/
theorem IsOpen.last {run : IncompletePlacement} {row : List VtCell} {rowIndex column : Nat}
    (h : run.IsOpen row rowIndex column) :
    attributesAt row (run.x + run.width - 1) = some (run.attributesOf (run.width - 1)) := by
  have hpos := h.width_pos
  rw [Nat.add_sub_assoc hpos]
  exact h.cells _ (by omega)

/-- To the left of a column is the run that reaches it. -/
theorem IsOpen.left {run : IncompletePlacement} (h : run.IsOpen row rowIndex column)
    (hcolumn : run.x + run.width = column) :
    attributesLeft row column = some (run.attributesOf (run.width - 1)) := by
  have hpos := h.width_pos
  cases column with
  | zero => omega
  | succ left =>
    have hleft : run.x + run.width - 1 = left := by omega
    exact hleft ▸ h.last

/-- To the left of a column that no run reaches is no placeholder. -/
theorem IsOpen.left_of_parted {run : IncompletePlacement} (h : run.IsOpen row rowIndex column)
    (hcolumn : run.x + run.width ≠ column) : attributesLeft row column = none := by
  refine attributesLeft_of_none fun left hleft ↦ h.parted left ?_ (by omega)
  have := h.before
  omega

/-- What continues a run is next to it. -/
theorem IsOpen.adjacent {run : IncompletePlacement} (h : run.IsOpen row rowIndex column)
    (hparted : NoPartedContinuation row) (hmarks : marksAt row column = some marks)
    (hcontinues : marks.Continues (run.attributesOf (run.width - 1))) :
    run.x + run.width = column := by
  have hpos := h.width_pos
  by_contra hne
  have hbefore := h.before
  refine hparted (run.x + run.width - 1) column _ marks (by omega) ?_ h.last hmarks hcontinues
  intro between hlt hlt'
  exact h.parted between (by omega) hlt'

/-- A run with the placeholder after it that continues it. -/
theorem IsOpen.longer {run : IncompletePlacement} (h : run.IsOpen row rowIndex column)
    (hcolumn : run.x + run.width = column) (hmarks : marksAt row column = some marks)
    (hcontinues : marks.Continues (run.attributesOf (run.width - 1))) :
    IsOpen { run with width := run.width + 1 } row rowIndex (column + 1) where
  sameRow := h.sameRow
  width_pos := Nat.succ_pos _
  row_isSome := h.row_isSome
  col_isSome := h.col_isSome
  col_lt := h.col_lt
  before := by simp only; omega
  parted between hle hlt := by simp only at hle; omega
  cells i hi := by
    rcases Nat.lt_succ_iff_lt_or_eq.mp hi with hi | rfl
    · exact h.cells i hi
    · have hpos := h.width_pos
      have hnext : run.col.getD 0 + (run.width - 1) + 1 = run.col.getD 0 + run.width := by omega
      simp only [hcolumn]
      rw [attributesAt_of_marks hmarks, h.left hcolumn,
        PlaceholderMarks.attributes_of_continues hcontinues]
      simp [attributesOf, hnext]

end IncompletePlacement

/-! ### A row -/

/-- The placeholders of a row from a column on. -/
def virtualCells (rowIndex : Nat) : Nat → List VtCell → List KittyVirtualCell
  | _, [] => []
  | colIndex, cell :: cells =>
    (if cell.isVirtualPlaceholder then
      [⟨colIndex, rowIndex, cell.grapheme, cell.foreground, cell.underlineColor⟩] else []) ++
      virtualCells rowIndex (colIndex + 1) cells

variable {colIndex : Nat}

private theorem extractRenderRow_eq_ok {cells : List VtCell} {extracted : List KittyVirtualCell}
    (hcol : colIndex < 2 ^ 16) (h : extractRenderRow rowIndex colIndex cells = .ok extracted) :
    extracted = virtualCells rowIndex colIndex cells ∧ colIndex + cells.length < 2 ^ 16 := by
  induction cells generalizing colIndex extracted with
  | nil =>
    injection h with h
    exact ⟨h.symm, hcol⟩
  | cons cell cells ih =>
    simp only [extractRenderRow, bind_eq_ok, ensure_eq_ok, pure_eq_ok, decide_eq_true_eq] at h
    obtain ⟨_, hnext, rest, hrest, hextracted⟩ := h
    obtain ⟨heq, hlength⟩ := ih hnext hrest
    refine ⟨?_, by simp only [List.length_cons]; omega⟩
    rw [← hextracted, heq]
    rfl

private theorem virtualCells_row {cells : List VtCell} :
    ∀ cell ∈ virtualCells rowIndex colIndex cells, cell.y = rowIndex := by
  induction cells generalizing colIndex with
  | nil => simp [virtualCells]
  | cons cell cells ih =>
    intro virtual hmem
    rcases List.mem_append.mp hmem with hhere | hrest
    · by_cases hplaceholder : cell.isVirtualPlaceholder = true
      · rw [if_pos hplaceholder] at hhere
        rw [List.mem_singleton.mp hhere]
      · simp [hplaceholder] at hhere
    · exact ih virtual hrest

private theorem virtualCells_cons_of_none {cells : List VtCell} (h : cell.marks = none) :
    virtualCells rowIndex colIndex (cell :: cells) =
      virtualCells rowIndex (colIndex + 1) cells := by
  simp [virtualCells, marks_eq_none.mp h]

namespace IncompletePlacement

/-- A placeholder makes the run before it longer, or begins one. -/
theorem finishedRuns_cons {cells : List VtCell} (h : cell.marks = some marks)
    (run : Option IncompletePlacement) :
    finishedRuns run (virtualCells rowIndex colIndex (cell :: cells)) =
      match run.bind fun previous ↦ previous.append (marks.toIncomplete colIndex rowIndex) with
      | some longer => finishedRuns (some longer) (virtualCells rowIndex (colIndex + 1) cells)
      | none => run.toList ++
          finishedRuns (some (marks.toIncomplete colIndex rowIndex).withDefaultOrigin)
            (virtualCells rowIndex (colIndex + 1) cells) := by
  have hplaceholder : cell.isVirtualPlaceholder = true := by
    cases hp : cell.isVirtualPlaceholder with
    | true => rfl
    | false => simp [marks_eq_none.mpr hp] at h
  rw [virtualCells, if_pos hplaceholder, List.singleton_append, finishedRuns,
    fromCell_virtual h colIndex rowIndex]

end IncompletePlacement

/-- The columns of the placeholders among some columns. -/
def placeholderColumns (row : List VtCell) (columns : List Nat) : List Nat :=
  columns.filter fun column ↦ (marksAt row column).isSome

private theorem placeholderColumns_of_none (h : marksAt row column = none) (columns : List Nat) :
    placeholderColumns row (column :: columns) = placeholderColumns row columns := by
  simp [placeholderColumns, h]

private theorem placeholderColumns_of_some (h : marksAt row column = some marks)
    (columns : List Nat) :
    placeholderColumns row (column :: columns) = column :: placeholderColumns row columns := by
  simp [placeholderColumns, h]

/-- What does not continue a run does not continue what is to its left. -/
theorem IncompletePlacement.IsOpen.left_not_continues {run : IncompletePlacement}
    (h : run.IsOpen row rowIndex column)
    (hcontinues : ¬marks.Continues (run.attributesOf (run.width - 1))) :
    ∀ attributes ∈ attributesLeft row column, ¬marks.Continues attributes := by
  by_cases hadjacent : run.x + run.width = column
  · simpa [h.left hadjacent] using hcontinues
  · simp [h.left_of_parted hadjacent]

open IncompletePlacement in
/-- The runs from a column on cover the placeholders from there on. -/
theorem finishedRuns_covers {row : List VtCell} {rowIndex : Nat}
    (hparted : NoPartedContinuation row) (hlength : row.length < 2 ^ 16) {front cells : List VtCell}
    (hrow : row = front ++ cells) {run : Option IncompletePlacement}
    (hopen : ∀ previous ∈ run, previous.IsOpen row rowIndex front.length)
    (hfirst : run = none → ∀ column < front.length, marksAt row column = none) :
    (finishedRuns run (virtualCells rowIndex front.length cells)).flatMap (·.columns) =
        run.toList.flatMap (·.columns) ++
          placeholderColumns row (List.range' front.length cells.length) ∧
      ∀ finished ∈ finishedRuns run (virtualCells rowIndex front.length cells),
        finished.y = rowIndex ∧ finished.CoversCells (attributesAt row) := by
  induction cells generalizing front run with
  | nil =>
    refine ⟨by simp [virtualCells, finishedRuns, placeholderColumns], fun finished hmem ↦ ?_⟩
    have hrun : finished ∈ run := by simpa [virtualCells, finishedRuns] using hmem
    exact ⟨(hopen _ hrun).sameRow, (hopen _ hrun).coversCells⟩
  | cons cell cells ih =>
    have hmarksAt : marksAt row front.length = cell.marks := by simp [marksAt, hrow]
    have hrow' : row = (front ++ [cell]) ++ cells := by simp [hrow]
    have hfront : (front ++ [cell]).length = front.length + 1 := by simp
    have hcolumn : front.length < 2 ^ 16 := by
      rw [hrow] at hlength
      simp only [List.length_append] at hlength
      omega
    have hih := @ih (front ++ [cell]) hrow'
    rw [hfront] at hih
    rw [List.length_cons, List.range'_succ]
    cases hmarks : cell.marks with
    | none =>
      rw [hmarks] at hmarksAt
      rw [virtualCells_cons_of_none hmarks, placeholderColumns_of_none hmarksAt]
      refine hih (fun previous hmem ↦ (hopen previous hmem).succ hmarksAt) fun hnone column hlt ↦ ?_
      rcases Nat.lt_succ_iff_lt_or_eq.mp hlt with hlt | rfl
      · exact hfirst hnone column hlt
      · exact hmarksAt
    | some marks =>
      rw [hmarks] at hmarksAt
      rw [finishedRuns_cons hmarks, placeholderColumns_of_some hmarksAt]
      -- where the placeholder begins a run
      have hbegin (hleft : ∀ attributes ∈ attributesLeft row front.length,
          ¬marks.Continues attributes) :=
        @hih (some (marks.toIncomplete front.length rowIndex).withDefaultOrigin)
          (fun previous hmem ↦ by
            rw [← Option.some.inj hmem]
            exact isOpen_start hmarksAt hleft) (fun hnone ↦ nomatch hnone)
      have hone : (marks.toIncomplete front.length rowIndex).withDefaultOrigin.columns =
          [front.length] := rfl
      cases run with
      | none =>
        have hleft : attributesLeft row front.length = none :=
          attributesLeft_of_none fun left hleft ↦ hfirst rfl left (by omega)
        have ⟨hflat, hcells⟩ := hbegin (by simp [hleft])
        simp only [Option.bind_none, Option.toList_none, List.nil_append, List.flatMap_nil]
        exact ⟨by simpa [hone] using hflat, hcells⟩
      | some previous =>
        have hprevious := hopen previous rfl
        rw [Option.bind_some, append_toIncomplete hprevious hcolumn]
        by_cases hcontinues : marks.Continues (previous.attributesOf (previous.width - 1))
        · rw [if_pos hcontinues]
          have hadjacent := hprevious.adjacent hparted hmarksAt hcontinues
          have ⟨hflat, hcells⟩ := @hih (some { previous with width := previous.width + 1 })
            (fun longer hmem ↦ by
              rw [← Option.some.inj hmem]
              exact hprevious.longer hadjacent hmarksAt hcontinues) (fun hnone ↦ nomatch hnone)
          refine ⟨?_, hcells⟩
          rw [hflat]
          simp [IncompletePlacement.columns, List.range'_concat, hadjacent]
        · rw [if_neg hcontinues]
          have ⟨hflat, hcells⟩ := hbegin (hprevious.left_not_continues hcontinues)
          simp only [Option.toList_some, List.singleton_append, List.flatMap_cons,
            List.forall_mem_cons]
          refine ⟨?_, ⟨hprevious.sameRow, hprevious.coversCells⟩, hcells⟩
          rw [hflat]
          simp [hone]

variable {cells : List KittyVirtualCell}

/-- The runs of a row cover its placeholders. -/
theorem placementRuns_row (hparted : NoPartedContinuation row)
    (h : extractRenderRow rowIndex 0 row = .ok cells) :
    CoversRow (attributesAt row) row rowIndex (placementRuns cells) := by
  have ⟨hcells, hlength⟩ := extractRenderRow_eq_ok (by decide) h
  have ⟨hcolumns, hruns⟩ := @finishedRuns_covers row rowIndex hparted
    (by rwa [Nat.zero_add] at hlength) [] row (List.nil_append row).symm none
    (fun _ hmem ↦ nomatch hmem) fun _ _ hlt ↦ absurd hlt (Nat.not_lt_zero _)
  rw [hcells]
  refine ⟨?_, fun run hmem ↦ (hruns run hmem).1, fun run hmem ↦ (hruns run hmem).2⟩
  simpa [List.range_eq_range', placeholderColumns, placementRuns] using hcolumns

/-! ### Rows whose runs do not cover their cells -/

namespace IncompletePlacement

private theorem append_width {run other longer : IncompletePlacement}
    (h : run.append other = some longer) :
    longer.x = run.x ∧ longer.width = run.width + 1 := by
  unfold append at h
  split at h
  · cases h
  · obtain ⟨width, hwidth, rfl⟩ := Option.map_eq_some_iff.mp h
    obtain ⟨-, hsum⟩ := Option.ite_none_right_eq_some.mp hwidth
    exact ⟨rfl, (Option.some.inj hsum).symm⟩

/-- A run is finished no shorter than it is. -/
theorem exists_finished (run : IncompletePlacement) (cells : List KittyVirtualCell) :
    ∃ finished ∈ finishedRuns (some run) cells,
      finished.x = run.x ∧ run.width ≤ finished.width := by
  induction cells generalizing run with
  | nil => exact ⟨run, by simp [finishedRuns], rfl, Nat.le_refl _⟩
  | cons cell cells ih =>
    simp only [finishedRuns, Option.bind_some]
    cases fromCell cell with
    | none => exact ⟨run, by simp, rfl, Nat.le_refl _⟩
    | some current =>
      simp only
      cases hlonger : run.append current with
      | none => exact ⟨run, by simp, rfl, Nat.le_refl _⟩
      | some longer =>
        obtain ⟨finished, hmem, hx, hwidth⟩ := ih longer
        obtain ⟨hlongerX, hlongerWidth⟩ := append_width hlonger
        exact ⟨finished, hmem, hx.trans hlongerX, by omega⟩

/-- A placeholder before a column, with none between, is the last cell of the run before it. -/
theorem IsOpen.eq_last {run : IncompletePlacement} {left : Nat} (h : run.IsOpen row rowIndex column)
    (hlt : left < column)
    (hbetween : ∀ between, left < between → between < column → marksAt row between = none)
    (hleft : marksAt row left ≠ none) : left = run.x + run.width - 1 := by
  have hpos := h.width_pos
  have hbefore := h.before
  have hless : left < run.x + run.width := by
    by_contra hge
    exact hleft (h.parted left (by omega) hlt)
  by_contra hne
  have hnone := hbetween (run.x + run.width - 1) (by omega) (by omega)
  have hlast := h.last
  rw [attributesAt_eq, hnone] at hlast
  cases hlast

end IncompletePlacement

variable {attributes : PlaceholderAttributes}

private theorem marksAt_ne_none (h : attributesAt row column = some attributes) :
    marksAt row column ≠ none := by
  intro hnone
  rw [attributesAt_eq, hnone] at h
  cases h

open IncompletePlacement in
/-- If the runs from a column on cover nothing but placeholders, then no placeholder from there on
continues one from which other cells part it. -/
theorem not_continues_of_covers {row : List VtCell} {rowIndex : Nat} (hlength : row.length < 2 ^ 16)
    {front cells : List VtCell} (hrow : row = front ++ cells) {run : Option IncompletePlacement}
    (hopen : ∀ previous ∈ run, previous.IsOpen row rowIndex front.length)
    (hfirst : run = none → ∀ column < front.length, marksAt row column = none)
    (hcovers : ∀ finished ∈ finishedRuns run (virtualCells rowIndex front.length cells),
      ∀ column ∈ finished.columns, marksAt row column ≠ none)
    {left right : Nat} {attributes : PlaceholderAttributes} {marks : PlaceholderMarks}
    (hfrom : front.length ≤ right) (hlt : left + 1 < right)
    (hbetween : ∀ between, left < between → between < right → marksAt row between = none)
    (hleft : attributesAt row left = some attributes) (hright : marksAt row right = some marks) :
    ¬marks.Continues attributes := by
  induction cells generalizing front run with
  | nil =>
    have hend := marksAt_lt hright
    rw [hrow, List.append_nil] at hend
    omega
  | cons cell cells ih =>
    have hmarksAt : marksAt row front.length = cell.marks := by simp [marksAt, hrow]
    have hrow' : row = (front ++ [cell]) ++ cells := by simp [hrow]
    have hfront : (front ++ [cell]).length = front.length + 1 := by simp
    have hcolumn : front.length < 2 ^ 16 := by
      rw [hrow, List.length_append, List.length_cons] at hlength
      omega
    have hih := @ih (front ++ [cell]) hrow'
    rw [hfront] at hih
    have hhere : front.length ≤ right → ¬front.length + 1 ≤ right → front.length = right := by omega
    cases hmarks : cell.marks with
    | none =>
      rw [hmarks] at hmarksAt
      rw [virtualCells_cons_of_none hmarks] at hcovers
      refine hih (fun previous hmem ↦ (hopen previous hmem).succ hmarksAt)
        (fun hnone column hlt ↦ ?_) hcovers ?_
      · rcases Nat.lt_succ_iff_lt_or_eq.mp hlt with hlt | rfl
        · exact hfirst hnone column hlt
        · exact hmarksAt
      · by_contra hnot
        rw [← hhere hfrom hnot, hmarksAt] at hright
        cases hright
    | some here =>
      rw [hmarks] at hmarksAt
      rw [finishedRuns_cons hmarks] at hcovers
      -- a later placeholder is left to the induction, with the run that is open then
      have hopened {next : IncompletePlacement}
          (hnext : next.IsOpen row rowIndex (front.length + 1))
          (hlater : ∀ finished ∈
            finishedRuns (some next) (virtualCells rowIndex (front.length + 1) cells),
            ∀ column ∈ finished.columns, marksAt row column ≠ none)
          (hnow : front.length = right → ¬marks.Continues attributes) :
          ¬marks.Continues attributes := by
        by_cases hfrom' : front.length + 1 ≤ right
        · refine @hih (some next) (fun previous hmem ↦ ?_) (fun hnone ↦ ?_) hlater hfrom'
          · rw [← Option.some.inj hmem]
            exact hnext
          · exact absurd hnone (Option.some_ne_none next)
        · exact hnow (hhere hfrom hfrom')
      cases run with
      | none =>
        have hnone : attributesLeft row front.length = none :=
          attributesLeft_of_none fun left hleft ↦ hfirst rfl left (by omega)
        refine hopened (isOpen_start hmarksAt (by simp [hnone])) hcovers fun hsame ↦ ?_
        exact absurd (hfirst rfl left (by omega)) (marksAt_ne_none hleft)
      | some previous =>
        have hprevious := hopen previous rfl
        have hlast (hsame : front.length = right) : left = previous.x + previous.width - 1 :=
          hprevious.eq_last (by omega) (hsame ▸ hbetween) (marksAt_ne_none hleft)
        rw [Option.bind_some, append_toIncomplete hprevious hcolumn] at hcovers
        by_cases hcontinues : here.Continues (previous.attributesOf (previous.width - 1))
        · rw [if_pos hcontinues] at hcovers
          have hadjacent : previous.x + previous.width = front.length := by
            by_contra hne
            have hbefore := hprevious.before
            obtain ⟨finished, hmem, hx, hwidth⟩ := exists_finished
              { previous with width := previous.width + 1 }
              (virtualCells rowIndex (front.length + 1) cells)
            refine hcovers finished hmem (previous.x + previous.width) ?_
              (hprevious.parted _ (Nat.le_refl _) (by omega))
            rw [IncompletePlacement.columns, List.mem_range'_1]
            simp only at hx hwidth
            omega
          refine hopened (hprevious.longer hadjacent hmarksAt hcontinues) hcovers fun hsame ↦ ?_
          have hleft := hlast hsame
          omega
        · rw [if_neg hcontinues] at hcovers
          obtain ⟨-, hlater⟩ := List.forall_mem_cons.mp hcovers
          refine hopened (isOpen_start hmarksAt (hprevious.left_not_continues hcontinues)) hlater
            fun hsame ↦ ?_
          have hattributes := hprevious.last
          rw [← hlast hsame, hleft] at hattributes
          rw [← hsame, hmarksAt] at hright
          rw [← Option.some.inj hright, Option.some.inj hattributes]
          exact hcontinues

/-- A row whose runs cover no cell that is not a placeholder has no parted continuation. -/
theorem noPartedContinuation_of_columns (h : extractRenderRow rowIndex 0 row = .ok cells)
    (hcovers : ∀ run ∈ placementRuns cells, ∀ column ∈ run.columns, marksAt row column ≠ none) :
    NoPartedContinuation row := by
  obtain ⟨hcells, hlength⟩ := extractRenderRow_eq_ok (by decide) h
  rw [Nat.zero_add] at hlength
  rw [hcells] at hcovers
  intro left right attributes marks hlt hbetween hleft hright
  refine @not_continues_of_covers row rowIndex hlength [] row rfl none (fun _ hmem ↦ ?_)
    (fun _ column hcolumn ↦ absurd hcolumn (Nat.not_lt_zero column)) hcovers left right attributes
    marks (Nat.zero_le right) hlt hbetween hleft hright
  cases hmem

/-! ### What is inherited -/

/-- Two placeholders stand for the same. -/
structure PlaceholderAttributes.Agrees (a b : PlaceholderAttributes) : Prop where
  imageIdLow : a.imageIdLow = b.imageIdLow
  imageIdHigh : a.imageIdHigh.getD 0 = b.imageIdHigh.getD 0
  placementId : a.placementId = b.placementId
  row : a.row = b.row
  col : a.col = b.col

private theorem PlaceholderAttributes.Agrees.imageId {a b : PlaceholderAttributes}
    (h : a.Agrees b) :
    a.imageId = b.imageId := by
  rw [PlaceholderAttributes.imageId, PlaceholderAttributes.imageId, h.imageIdLow, h.imageIdHigh]

private theorem marksAt_eq_none_of_attributesAt (h : attributesAt row column = none) :
    marksAt row column = none := by
  rw [attributesAt_eq] at h
  exact Option.map_eq_none_iff.mp h

private theorem inheritedAt_of_none (h : marksAt row column = none) :
    inheritedAt row column = none := by
  cases column <;> rw [inheritedAt, h, Option.map_none]

/-- One placeholder stands for what it inherits, if its left neighbours do and its attributes are
not lost. -/
theorem attributes_agrees_inherited {left left' : PlaceholderAttributes} (hleft : left.Agrees left')
    (hlost : marks.SameColours left → ¬marks.Continues left →
      (marks.row = none → left.row = 0) ∧ marks.col ≠ none ∧
        (marks.imageIdHigh = none → left.imageIdHigh.getD 0 = 0)) :
    (marks.attributes (some left)).Agrees (marks.inherited (some left')) := by
  have hcolours : marks.SameColours left' ↔ marks.SameColours left := by
    rw [PlaceholderMarks.SameColours, PlaceholderMarks.SameColours, hleft.imageIdLow,
      hleft.placementId]
  by_cases hsame : marks.SameColours left
  · have hinherited : marks.inherited (some left') = ⟨marks.imageIdLow,
        marks.imageIdHigh.or left'.imageIdHigh, marks.placementId, marks.row.getD left'.row,
        marks.col.getD (left'.col + 1)⟩ := if_pos (hcolours.mpr hsame)
    rw [hinherited]
    by_cases hcontinues : marks.Continues left
    · rw [PlaceholderMarks.attributes_of_continues hcontinues]
      obtain ⟨hlow, hplacement, hrow, hcol, hhigh⟩ := hcontinues
      constructor
      · exact hlow.symm
      · cases hm : marks.imageIdHigh with
        | none => exact hleft.imageIdHigh
        | some high =>
          rw [hhigh high hm]
          rfl
      · exact hplacement.symm
      · cases hm : marks.row with
        | none => exact hleft.row
        | some row => exact (hrow row hm).symm
      · cases hm : marks.col with
        | none => exact congrArg (· + 1) hleft.col
        | some col => exact (hcol col hm).symm
    · obtain ⟨hrow, hcol, hhigh⟩ := hlost hsame hcontinues
      rw [PlaceholderMarks.attributes_of_not_continues fun attributes hmem ↦
        Option.some.inj hmem ▸ hcontinues]
      constructor
      · rfl
      · cases hm : marks.imageIdHigh with
        | none => exact ((hhigh hm).symm.trans hleft.imageIdHigh)
        | some high => rfl
      · rfl
      · cases hm : marks.row with
        | none => exact ((hrow hm).symm.trans hleft.row)
        | some row => rfl
      · cases hm : marks.col with
        | none => exact absurd hm hcol
        | some col => rfl
  · have hinherited : marks.inherited (some left') = ⟨marks.imageIdLow, marks.imageIdHigh,
        marks.placementId, marks.row.getD 0, marks.col.getD 0⟩ := if_neg (hcolours.not.mpr hsame)
    have hnot : ¬marks.Continues left := fun hcontinues ↦ hsame ⟨hcontinues.1, hcontinues.2.1⟩
    rw [hinherited, PlaceholderMarks.attributes_of_not_continues fun attributes hmem ↦
      Option.some.inj hmem ▸ hnot]
    exact ⟨rfl, rfl, rfl, rfl, rfl⟩

/-- Where no inheritance is lost, each placeholder stands for what is written on it or inherited. -/
theorem exists_inheritedAt (hinherits : NoLostInheritance row)
    (h : attributesAt row column = some attributes) :
    ∃ inherited, inheritedAt row column = some inherited ∧ attributes.Agrees inherited := by
  induction column generalizing attributes with
  | zero =>
    obtain ⟨marks, hmarks, rfl⟩ := Option.map_eq_some_iff.mp h
    rw [inheritedAt, hmarks, Option.map_some]
    exact ⟨_, rfl, rfl, rfl, rfl, rfl, rfl⟩
  | succ column ih =>
    obtain ⟨marks, hmarks, rfl⟩ := Option.map_eq_some_iff.mp h
    rw [inheritedAt, hmarks, Option.map_some]
    refine ⟨_, rfl, ?_⟩
    cases hleft : attributesAt row column with
    | none =>
      rw [inheritedAt_of_none (marksAt_eq_none_of_attributesAt hleft)]
      exact ⟨rfl, rfl, rfl, rfl, rfl⟩
    | some left =>
      obtain ⟨left', hleft', hagrees⟩ := ih hleft
      rw [hleft']
      exact attributes_agrees_inherited hagrees (hinherits column left marks hleft hmarks)

variable {runs : List IncompletePlacement}

/-- The runs cover what is written or inherited too, where no inheritance is lost. -/
theorem CoversRow.inherited (h : CoversRow (attributesAt row) row rowIndex runs)
    (hinherits : NoLostInheritance row) :
    CoversRow (inheritedAt row) row rowIndex runs where
  columns := h.columns
  sameRow := h.sameRow
  cells run hmem i hi := by
    obtain ⟨attributes, hattributes, himage, hplacement, hrow, hcol⟩ := h.cells run hmem i hi
    obtain ⟨inherited, hinherited, hagrees⟩ := exists_inheritedAt hinherits hattributes
    exact ⟨inherited, hinherited, himage.trans hagrees.imageId,
      hplacement.trans (congrArg (·.getD 0) hagrees.placementId), hrow.trans hagrees.row,
      hcol.trans hagrees.col⟩

/-- The number of a colour has 24 bits. -/
theorem colorToId_lt (color : StyleColor) : colorToId color < 2 ^ 24 := by
  cases color with
  | none => exact Nat.two_pow_pos 24
  | palette index => exact Nat.lt_trans index.toNat_lt (by decide)
  | rgb color =>
    refine Nat.or_lt_two_pow (Nat.or_lt_two_pow ?_ ?_) (Nat.lt_trans color.b.toNat_lt (by decide))
    · have hred := color.r.toNat_lt
      rw [Nat.shiftLeft_eq]
      omega
    · have hgreen := color.g.toNat_lt
      rw [Nat.shiftLeft_eq]
      omega

private theorem marksAt_imageIdLow_lt (h : marksAt row column = some marks) :
    marks.imageIdLow < 2 ^ 24 := by
  obtain ⟨cell, -, hcell⟩ := Option.bind_eq_some_iff.mp h
  obtain ⟨-, heq⟩ := Option.ite_none_right_eq_some.mp hcell
  rw [← Option.some.inj heq]
  exact colorToId_lt _

/-- A placeholder has the colours that are written on it. -/
theorem attributesAt_colours (h : attributesAt row column = some attributes) :
    ∃ marks, marksAt row column = some marks ∧ marks.SameColours attributes := by
  rw [attributesAt_eq] at h
  obtain ⟨marks, hmarks, rfl⟩ := Option.map_eq_some_iff.mp h
  refine ⟨marks, hmarks, ?_⟩
  cases attributesLeft row column with
  | none => exact ⟨rfl, rfl⟩
  | some left =>
    by_cases hcontinues : marks.Continues left
    · rw [PlaceholderMarks.attributes_of_continues hcontinues]
      exact ⟨hcontinues.1, hcontinues.2.1⟩
    · rw [PlaceholderMarks.attributes_of_not_continues fun attributes hmem ↦
        Option.some.inj hmem ▸ hcontinues]
      exact ⟨rfl, rfl⟩

private theorem inherited_colours (marks : PlaceholderMarks) (left : Option PlaceholderAttributes) :
    marks.SameColours (marks.inherited left) := by
  cases left with
  | none => exact ⟨rfl, rfl⟩
  | some left =>
    simp only [PlaceholderMarks.inherited]
    split <;> exact ⟨rfl, rfl⟩

private theorem inheritedAt_colours {inherited : PlaceholderAttributes}
    (h : inheritedAt row column = some inherited) :
    ∃ marks, marksAt row column = some marks ∧ marks.SameColours inherited := by
  cases column with
  | zero =>
    obtain ⟨marks, hmarks, rfl⟩ := Option.map_eq_some_iff.mp h
    exact ⟨marks, hmarks, inherited_colours marks _⟩
  | succ column =>
    obtain ⟨marks, hmarks, rfl⟩ := Option.map_eq_some_iff.mp h
    exact ⟨marks, hmarks, inherited_colours marks _⟩

/-- The number of an image gives back its high byte. -/
theorem imageIdHigh_eq {low high high' : Nat} (hlow : low < 2 ^ 24)
    (h : low ||| high <<< 24 = low ||| high' <<< 24) : high = high' := by
  rw [Nat.or_comm, Nat.or_comm low, ← Nat.shiftLeft_add_eq_or_of_lt hlow,
    ← Nat.shiftLeft_add_eq_or_of_lt hlow, Nat.shiftLeft_eq, Nat.shiftLeft_eq] at h
  omega

/-- Where the same runs cover both, what a placeholder stands for is what it inherits. -/
theorem agrees_of_covers (h : CoversRow (attributesAt row) row rowIndex runs)
    (hinherited : CoversRow (inheritedAt row) row rowIndex runs)
    (hcolumn : attributesAt row column = some attributes) :
    ∃ inherited, inheritedAt row column = some inherited ∧ attributes.Agrees inherited := by
  obtain ⟨marks, hmarks, hlow, hplacement⟩ := attributesAt_colours hcolumn
  have hmem : column ∈ runs.flatMap (·.columns) := by
    rw [h.columns, List.mem_filter, List.mem_range]
    exact ⟨marksAt_lt hmarks, by rw [hmarks]; rfl⟩
  obtain ⟨run, hrun, hcovered⟩ := List.mem_flatMap.mp hmem
  obtain ⟨hfrom, hto⟩ := List.mem_range'_1.mp hcovered
  obtain ⟨i, rfl⟩ := Nat.exists_eq_add_of_le hfrom
  have hi : i < run.width := by omega
  obtain ⟨found, hfound, himage, -, hrow, hcol⟩ := h.cells run hrun i hi
  obtain rfl : attributes = found := Option.some.inj (hcolumn.symm.trans hfound)
  obtain ⟨inherited, hthere, himage', -, hrow', hcol'⟩ := hinherited.cells run hrun i hi
  obtain ⟨marks', hmarks', hlow', hplacement'⟩ := inheritedAt_colours hthere
  obtain rfl : marks = marks' := Option.some.inj (hmarks.symm.trans hmarks')
  refine ⟨inherited, hthere, hlow.symm.trans hlow', ?_, hplacement.symm.trans hplacement',
    hrow.symm.trans hrow', hcol.symm.trans hcol'⟩
  have hsame : attributes.imageId = inherited.imageId := himage.symm.trans himage'
  rw [PlaceholderAttributes.imageId, PlaceholderAttributes.imageId, ← hlow, ← hlow'] at hsame
  exact imageIdHigh_eq (marksAt_imageIdLow_lt hmarks) hsame

/-- A row whose runs cover what is written or inherited loses no inheritance. -/
theorem noLostInheritance_of_covers (h : CoversRow (attributesAt row) row rowIndex runs)
    (hinherited : CoversRow (inheritedAt row) row rowIndex runs) : NoLostInheritance row := by
  intro column left marks hleft hmarks hsame hnot
  have hnext : attributesAt row (column + 1) = some (marks.attributes (some left)) := by
    rw [attributesAt, hmarks, hleft, Option.map_some]
  obtain ⟨left', hleft', hagrees⟩ := agrees_of_covers h hinherited hleft
  obtain ⟨inherited, hthere, hagreesNext⟩ := agrees_of_covers h hinherited hnext
  rw [inheritedAt, hmarks, hleft', Option.map_some] at hthere
  have hsame' : marks.SameColours left' :=
    ⟨hsame.1.trans hagrees.imageIdLow, hsame.2.trans hagrees.placementId⟩
  have hread : marks.inherited (some left') = ⟨marks.imageIdLow,
      marks.imageIdHigh.or left'.imageIdHigh, marks.placementId, marks.row.getD left'.row,
      marks.col.getD (left'.col + 1)⟩ := if_pos hsame'
  rw [← Option.some.inj hthere, hread,
    PlaceholderMarks.attributes_of_not_continues fun attributes hmem ↦
      Option.some.inj hmem ▸ hnot] at hagreesNext
  refine ⟨fun hrow ↦ ?_, fun hcol ↦ ?_, fun hhigh ↦ ?_⟩
  · have heq := hagreesNext.row
    rw [hrow] at heq
    exact hagrees.row.trans heq.symm
  · have heq := hagreesNext.col
    rw [hcol] at heq
    exact absurd heq (Nat.succ_ne_zero _).symm
  · have heq := hagreesNext.imageIdHigh
    rw [hhigh] at heq
    exact hagrees.imageIdHigh.trans heq.symm

/-- The runs of a row cover what is written on its placeholders or inherited exactly if no
placeholder continues one from which it is parted and none loses what it would inherit. -/
theorem coversRow_iff (h : extractRenderRow rowIndex 0 row = .ok cells) :
    CoversRow (inheritedAt row) row rowIndex (placementRuns cells) ↔
      NoPartedContinuation row ∧ NoLostInheritance row := by
  constructor
  · intro hcovers
    have hparted : NoPartedContinuation row := by
      refine noPartedContinuation_of_columns h fun run hrun column hcolumn ↦ ?_
      have hmem := List.mem_flatMap.mpr ⟨run, hrun, hcolumn⟩
      rw [hcovers.columns, List.mem_filter] at hmem
      exact Option.isSome_iff_ne_none.mp hmem.2
    exact ⟨hparted, noLostInheritance_of_covers (placementRuns_row hparted h) hcovers⟩
  · rintro ⟨hparted, hinherits⟩
    exact (placementRuns_row hparted h).inherited hinherits

/-! ### A frame -/

namespace IncompletePlacement

private theorem append_row {run other longer : IncompletePlacement}
    (h : run.append other = some longer) :
    run.y = other.y ∧ longer.y = run.y := by
  unfold append at h
  split at h
  · simp at h
  next hsame =>
    have ⟨width, _, hlonger⟩ := Option.map_eq_some_iff.mp h
    simp only [not_or, ne_eq, not_not] at hsame
    exact ⟨hsame.1, hlonger ▸ rfl⟩

private theorem fromCell_row {cell : KittyVirtualCell} {current : IncompletePlacement}
    (h : fromCell cell = some current) : current.y = cell.y := by
  unfold fromCell at h
  split at h
  · injection h with h
    rw [← h]
  · simp at h

/-- No run goes on in another row. -/
theorem finishedRuns_append {rowIndex : Nat} {cells rest : List KittyVirtualCell}
    (hcells : ∀ cell ∈ cells, cell.y = rowIndex) (hrest : ∀ cell ∈ rest, cell.y ≠ rowIndex)
    {run : Option IncompletePlacement} (hrun : ∀ previous ∈ run, previous.y = rowIndex) :
    finishedRuns run (cells ++ rest) = finishedRuns run cells ++ finishedRuns none rest := by
  induction cells generalizing run with
  | nil =>
    cases rest with
    | nil => simp [finishedRuns]
    | cons cell rest =>
      simp only [List.nil_append, finishedRuns]
      cases hcurrent : fromCell cell with
      | none => simp
      | some current =>
        have hno : (run.bind fun previous ↦ previous.append current) = none := by
          cases run with
          | none => rfl
          | some previous =>
            rw [Option.bind_some]
            by_contra hsome
            have ⟨longer, hlonger⟩ := Option.ne_none_iff_exists'.mp hsome
            refine hrest cell List.mem_cons_self ?_
            rw [← fromCell_row hcurrent, ← (append_row hlonger).1, hrun previous rfl]
        simp [hno]
  | cons cell cells ih =>
    have ⟨hcell, hcells⟩ := List.forall_mem_cons.mp hcells
    simp only [List.cons_append, finishedRuns]
    cases hcurrent : fromCell cell with
    | none =>
      have hnone := @ih hcells none fun _ hmem ↦ nomatch hmem
      simp only [hnone, List.append_assoc]
    | some current =>
      simp only
      cases hlonger : run.bind fun previous ↦ previous.append current with
      | none =>
        simp only [List.append_assoc]
        rw [ih hcells fun previous hmem ↦ by
          rw [← Option.some.inj hmem, ← hcell, ← fromCell_row hcurrent]
          rfl]
      | some longer =>
        have ⟨previous, hprevious, happend⟩ := Option.bind_eq_some_iff.mp hlonger
        exact ih hcells fun next hmem ↦ by
          rw [← Option.some.inj hmem, (append_row happend).2, hrun previous hprevious]

end IncompletePlacement

private theorem extractRenderRows_row {rows : List (List VtCell)}
    (h : extractRenderRows rowIndex rows = .ok cells) :
    ∀ cell ∈ cells, rowIndex ≤ cell.y := by
  induction rows generalizing rowIndex cells with
  | nil =>
    injection h with h
    simp [← h]
  | cons row rows ih =>
    simp only [extractRenderRows, bind_eq_ok, pure_eq_ok] at h
    obtain ⟨here, hhere, rest, hrest, hcells⟩ := h
    intro cell hmem
    rw [← hcells] at hmem
    rcases List.mem_append.mp hmem with hmem | hmem
    · rw [(extractRenderRow_eq_ok (by decide) hhere).1] at hmem
      exact Nat.le_of_eq (virtualCells_row cell hmem).symm
    · exact Nat.le_of_succ_le (ih hrest cell hmem)

private theorem finishedRuns_sameRow (hcells : ∀ cell ∈ cells, cell.y = rowIndex)
    {run : Option IncompletePlacement} (hrun : ∀ previous ∈ run, previous.y = rowIndex) :
    ∀ finished ∈ IncompletePlacement.finishedRuns run cells, finished.y = rowIndex := by
  induction cells generalizing run with
  | nil => exact fun finished hmem ↦ hrun finished (Option.mem_toList.mp hmem)
  | cons cell cells ih =>
    obtain ⟨hcell, hcells⟩ := List.forall_mem_cons.mp hcells
    simp only [IncompletePlacement.finishedRuns]
    cases hcurrent : IncompletePlacement.fromCell cell with
    | none =>
      exact List.forall_mem_append.mpr
        ⟨fun finished hmem ↦ hrun finished (by simpa using hmem), ih hcells (by simp)⟩
    | some current =>
      simp only
      cases hlonger : run.bind fun previous ↦ previous.append current with
      | none =>
        refine List.forall_mem_append.mpr
          ⟨fun finished hmem ↦ hrun finished (by simpa using hmem), ih hcells fun next hmem ↦ ?_⟩
        rw [← Option.some.inj hmem, ← hcell, ← IncompletePlacement.fromCell_row hcurrent]
        rfl
      | some longer =>
        obtain ⟨previous, hprevious, happend⟩ := Option.bind_eq_some_iff.mp hlonger
        refine ih hcells fun next hmem ↦ ?_
        rw [← Option.some.inj hmem, (IncompletePlacement.append_row happend).2,
          hrun previous hprevious]

private theorem placementRuns_sameRow (h : extractRenderRow rowIndex 0 row = .ok cells) :
    ∀ run ∈ placementRuns cells, run.y = rowIndex := by
  rw [(extractRenderRow_eq_ok (by decide) h).1]
  exact finishedRuns_sameRow virtualCells_row fun _ hmem ↦ by cases hmem

/-- The runs of the rows from a row on are those of each row. -/
theorem placementRuns_rows {rows : List (List VtCell)}
    (h : extractRenderRows rowIndex rows = .ok cells) :
    (∀ run ∈ placementRuns cells, rowIndex ≤ run.y ∧ run.y < rowIndex + rows.length) ∧
      ∀ i row, rows[i]? = some row → ∃ here, extractRenderRow (rowIndex + i) 0 row = .ok here ∧
        (placementRuns cells).filter (·.y == rowIndex + i) = placementRuns here := by
  induction rows generalizing rowIndex cells with
  | nil =>
    injection h with h
    simp [← h, placementRuns, IncompletePlacement.finishedRuns]
  | cons row rows ih =>
    simp only [extractRenderRows, bind_eq_ok, pure_eq_ok] at h
    obtain ⟨here, hhere, rest, hrest, hcells⟩ := h
    obtain ⟨hbounds, hlater⟩ := ih hrest
    have hsame := placementRuns_sameRow hhere
    have hsplit : placementRuns cells = placementRuns here ++ placementRuns rest := by
      rw [← hcells]
      refine @IncompletePlacement.finishedRuns_append rowIndex here rest ?_ ?_ none
        (by rintro _ ⟨⟩)
      · intro cell hmem
        rw [(extractRenderRow_eq_ok (by decide) hhere).1] at hmem
        exact virtualCells_row cell hmem
      · intro cell hmem
        exact Nat.ne_of_gt (extractRenderRows_row hrest cell hmem)
    rw [hsplit]
    constructor
    · intro run hmem
      rw [List.length_cons]
      rcases List.mem_append.mp hmem with hmem | hmem
      · have := hsame run hmem
        omega
      · have := hbounds run hmem
        omega
    · intro i other hi
      rw [List.filter_append]
      cases i with
      | zero =>
        have hother : row = other := by simpa using hi
        have hall : (placementRuns here).filter (·.y == rowIndex + 0) = placementRuns here :=
          List.filter_eq_self.mpr fun run hmem ↦ by simp [hsame run hmem]
        have hnone : (placementRuns rest).filter (·.y == rowIndex + 0) = [] :=
          List.filter_eq_nil_iff.mpr fun run hmem ↦ by
            have := hbounds run hmem
            simp only [beq_iff_eq]
            omega
        rw [hall, hnone, List.append_nil, ← hother]
        exact ⟨here, hhere, rfl⟩
      | succ i =>
        have hnone : (placementRuns here).filter (·.y == rowIndex + (i + 1)) = [] :=
          List.filter_eq_nil_iff.mpr fun run hmem ↦ by
            have := hsame run hmem
            simp only [beq_iff_eq]
            omega
        have hnext : rowIndex + (i + 1) = rowIndex + 1 + i := by omega
        rw [hnone, List.nil_append, hnext]
        exact hlater i other (by simpa using hi)

/-- The runs of a frame part the placeholders of each row among them. -/
def CoversFrame (rows : List (List VtCell)) (runs : List IncompletePlacement) : Prop :=
  (∀ run ∈ runs, run.y < rows.length) ∧
    ∀ y row, rows[y]? = some row → CoversRow (inheritedAt row) row y (runs.filter (·.y == y))

/-- The runs of a frame cover the placeholders of each row, and each cell of a run stands for what
is written on it or inherited from its left neighbour, exactly if no placeholder continues one from
which other cells part it, and none that does not continue its left neighbour would inherit from
it. -/
theorem placementRuns_cover_iff {rows : List (List VtCell)} {cells : List KittyVirtualCell}
    (h : extractRenderRows 0 rows = .ok cells) :
    CoversFrame rows (placementRuns cells) ↔
      ∀ row ∈ rows, NoPartedContinuation row ∧ NoLostInheritance row := by
  obtain ⟨hbounds, hrows⟩ := placementRuns_rows h
  constructor
  · rintro ⟨-, hcovers⟩ row hmem
    obtain ⟨y, hy⟩ := List.getElem?_of_mem hmem
    obtain ⟨here, hhere, hfilter⟩ := hrows y row hy
    rw [Nat.zero_add] at hhere hfilter
    exact (coversRow_iff hhere).mp (hfilter ▸ hcovers y row hy)
  · intro hcondition
    refine ⟨fun run hmem ↦ by simpa using (hbounds run hmem).2, fun y row hy ↦ ?_⟩
    obtain ⟨here, hhere, hfilter⟩ := hrows y row hy
    rw [Nat.zero_add] at hhere hfilter
    rw [hfilter]
    exact (coversRow_iff hhere).mpr (hcondition row (List.mem_of_getElem? hy))

/-- A frame of two rows, the first of two images that text parts. -/
theorem placementRuns_cover_iff_sample :
    let first : VtCell := ⟨[placeholder, Char.ofNat 0x305], some (.palette 1, .none)⟩
    let next : VtCell := ⟨[placeholder], some (.palette 1, .none)⟩
    let other : VtCell := ⟨[placeholder], some (.palette 2, .none)⟩
    let rows := [[first, next, ⟨['a'], none⟩, other], [next]]
    ∃ cells, extractRenderRows 0 rows = .ok cells ∧ CoversFrame rows (placementRuns cells) := by
  intro first next other rows
  have hcondition : ∀ row ∈ rows, NoPartedContinuation row ∧ NoLostInheritance row := by decide
  exact ⟨_, rfl, (@placementRuns_cover_iff rows _ rfl).mpr hcondition⟩

/-- Two placeholders of one image that a letter parts give one run, over the letter. -/
theorem not_coversFrame : ¬∀ rows cells, extractRenderRows 0 rows = .ok cells →
    CoversFrame rows (placementRuns cells) := by
  intro h
  have hcovers := h [[⟨[placeholder], some (.palette 1, .none)⟩, ⟨['a'], none⟩,
    ⟨[placeholder], some (.palette 1, .none)⟩]] _ rfl
  have hcolumns := (hcovers.2 0 _ rfl).columns
  revert hcolumns
  decide

end Bootty.Terminal
