import Bootty.Terminal.FrameLineage
import Bootty.Terminal.Surface
import Bootty.Ui.GlyphAtlas

/-!
# Paint plans

Model of `PaintPlanner`, `crates/bootty-ui/src/paint_plan.rs`: the backgrounds, the runs of text,
the decorations and the cursor that a frame is painted with, all at once or with the rows that have
not changed taken from a cache. The pool of string buffers is left out: a buffer is cleared before
it is written. `to_bits` compares floats by identity.
-/

namespace Bootty.Ui

open Bootty.Base
open Bootty.Terminal (FrameLineage FrameSelection RenderCell RenderFrame RgbColor SurfaceRect
  TerminalSurface TracedFrame VtLibrary)

/-- `u16::MAX`. -/
def u16Max : ℕ := 2 ^ 16 - 1

/-- What painting uses of `libghostty_vt` and of `unicode_width`. -/
class PaintLibrary extends VtLibrary where
  bar : CursorVisualStyle
  underline : CursorVisualStyle
  blockHollow : CursorVisualStyle
  noUnderline : Underline
  double : Underline
  curly : Underline
  dotted : Underline
  dashed : Underline
  /-- `UnicodeWidthChar::width`. -/
  charWidth : Char → Option ℕ
  /-- `UnicodeWidthStr::width`. -/
  textWidth : List Char → ℕ

/-! ### What a plan consists of -/

/-- `PlanColor`. -/
structure PlanColor where
  r : UInt8 := 0
  g : UInt8 := 0
  b : UInt8 := 0
  a : UInt8 := 0
  deriving DecidableEq

/-- `PlanColor::opaque`. -/
def PlanColor.ofRgb (color : RgbColor) : PlanColor := ⟨color.r, color.g, color.b, 255⟩

/-- `paint_plan.rs:35–55`. -/
def PlanColor.gammaMultiply {K : Type} [FloatOps K] (color : PlanColor) (factor : K) : PlanColor :=
  { color with
    r := FloatOps.toByte ((Scalar.literal color.r.toNat : K) * factor)
    g := FloatOps.toByte ((Scalar.literal color.g.toNat : K) * factor)
    b := FloatOps.toByte ((Scalar.literal color.b.toNat : K) * factor) }

/-- `DecorationStyle`. -/
inductive DecorationStyle where
  | single
  | double
  | curly
  | dotted
  | dashed
  | strikethrough
  | overline
  deriving DecidableEq

/-- `CursorShape`. -/
inductive CursorShape where
  | block
  | hollowBlock
  | bar
  | underline
  deriving DecidableEq

section Plan

variable [lib : PaintLibrary]

/-- `TextAttrs`. -/
structure TextAttrs where
  fg : PlanColor
  bold : Bool
  italic : Bool
  underline : lib.Underline
  strikethrough : Bool
  overline : Bool
  deriving DecidableEq

/-- `BackgroundRect`. -/
structure BackgroundRect (K : Type) where
  rect : SurfaceRect K
  color : PlanColor

/-- `TextRun`. -/
structure TextRun (K : Type) where
  rect : SurfaceRect K
  cellRect : SurfaceRect K
  cells : ℕ
  text : List Char
  attrs : TextAttrs

/-- `DecorationLine`. -/
structure DecorationLine (K : Type) where
  startX : K
  startY : K
  endX : K
  endY : K
  color : PlanColor
  style : DecorationStyle

/-- `CursorBlinkPhase`. -/
structure CursorBlinkPhase (K : Type) where
  opacity : K

/-- `CursorTextPlan`. -/
structure CursorTextPlan (K : Type) where
  rect : SurfaceRect K
  text : List Char
  color : PlanColor

/-- `CursorPlan`. -/
structure CursorPlan (K : Type) where
  rect : SurfaceRect K
  color : PlanColor
  shape : CursorShape
  textUnderCursor : Option (CursorTextPlan K)

/-- `TerminalPaintPlan`. -/
structure TerminalPaintPlan (K : Type) where
  surface : SurfaceRect K
  defaultBackground : PlanColor
  backgrounds : List (BackgroundRect K)
  textRuns : List (TextRun K)
  decorations : List (DecorationLine K)
  cursor : Option (CursorPlan K)

/-- `RowPaintFragment`. -/
structure RowPaintFragment (K : Type) where
  backgrounds : List (BackgroundRect K) := []
  textRuns : List (TextRun K) := []
  decorations : List (DecorationLine K) := []

/-- `paint_plan.rs:254–263`; the sizes are kept by their bits. -/
structure RowPaintCacheKey (K : Type) where
  surface : TerminalSurface K
  cols : ℕ
  rows : ℕ
  fontSize : K
  textCellHeight : K
  defaultForeground : PlanColor
  defaultBackground : PlanColor

/-- `PaintPlanner`. -/
structure PaintPlanner (K : Type) where
  plan : TerminalPaintPlan K
  overlayMask : List UInt8 := []
  rowFragments : List (RowPaintFragment K) := []
  rowCacheKey : Option (RowPaintCacheKey K) := none
  rowCacheLineage : Option FrameLineage := none
  underlineOffset : Option K := none

/-- What decides the attributes of a text and where it sits in its cell. -/
structure TextPlanContext (K : Type) where
  defaultForeground : PlanColor
  defaultBackground : PlanColor
  underlineOffset : K
  textCellHeight : K
  minimumContrast : Bool
  overlayMask : List UInt8

end Plan

namespace CursorBlinkPhase

variable {K : Type} [FloatOps K]

/-- `visible`. -/
def visible : CursorBlinkPhase K := ⟨Scalar.literal 1⟩

/-- `alpha`. -/
def alpha (phase : CursorBlinkPhase K) : UInt8 :=
  FloatOps.toByte (phase.opacity * Scalar.literal 255)

end CursorBlinkPhase

/-- `==`. -/
def RowPaintCacheKey.eq {K : Type} [FloatOps K] [DecidableEq K] (a b : RowPaintCacheKey K) :
    Bool :=
  a.surface.eq b.surface && a.cols == b.cols && a.rows == b.rows && a.fontSize == b.fontSize &&
    a.textCellHeight == b.textCellHeight && a.defaultForeground == b.defaultForeground &&
    a.defaultBackground == b.defaultBackground

/-! ### Colors, `paint_plan.rs:873–1054` -/

section Colors

variable [lib : PaintLibrary] (K : Type) [FloatOps K]

/-- The foreground and the background of a cell. -/
def cellColors (cell : RenderCell) (defaultForeground defaultBackground : PlanColor) :
    PlanColor × PlanColor :=
  let fg := cell.fg.elim defaultForeground .ofRgb
  let bg := cell.bg.elim defaultBackground .ofRgb
  let (fg, bg) := if cell.style.inverse then (bg, fg) else (fg, bg)
  (if cell.style.faint then fg.gammaMultiply (Scalar.literal (62 / 100) : K) else fg, bg)

/-- `cell_background`. -/
def cellBackground (cell : RenderCell) (defaultForeground defaultBackground : PlanColor) :
    PlanColor :=
  if cell.style.inverse then cell.fg.elim defaultForeground .ofRgb
  else cell.bg.elim defaultBackground .ofRgb

/-- `search_match_background`. -/
def searchMatchBackground : PlanColor := ⟨245, 194, 66, 210⟩

/-- `search_match_text_foreground`. -/
def searchMatchTextForeground : PlanColor := ⟨20, 20, 20, 255⟩

/-- `active_search_match_background`. -/
def activeSearchMatchBackground : PlanColor := ⟨255, 235, 120, 255⟩

/-- `active_search_match_text_foreground`. -/
def activeSearchMatchTextForeground : PlanColor := ⟨0, 0, 0, 255⟩

/-- `selection_text_foreground`. -/
def selectionTextForeground (frame : RenderFrame) (defaultBackground : PlanColor) : PlanColor :=
  frame.colors.selectionForeground.elim defaultBackground .ofRgb

/-- `OVERLAY_SELECTION`. -/
def overlaySelection : UInt8 := 1

/-- `OVERLAY_ACTIVE_SEARCH`. -/
def overlayActiveSearch : UInt8 := 2

/-- `OVERLAY_SEARCH`. -/
def overlaySearch : UInt8 := 4

/-- The blocks, lines and other shapes that fill their cells. -/
def oldGraphicsCharacters : List (ℕ × ℕ) :=
  [(0x2580, 0x2590), (0x2594, 0x2594), (0x2595, 0x2595), (0x2591, 0x2591), (0x2592, 0x2592),
    (0x2593, 0x2593), (0x2596, 0x259f), (0x2500, 0x257f), (0xe0b0, 0xe0bf), (0x2800, 0x28ff),
    (0x25a0, 0x25ff), (0x1fb00, 0x1fbff)]

/-- `is_old_graphics_character`. -/
def isOldGraphicsCharacter (ch : Char) : Bool :=
  oldGraphicsCharacters.any fun range ↦ range.1 ≤ ch.toNat && ch.toNat ≤ range.2

/-- The sum of three differences of bytes fits. -/
def contrastDistance (left right : PlanColor) : ℕ :=
  let diff (a b : UInt8) := Int.natAbs (a.toNat - b.toNat)
  diff left.r right.r + diff left.g right.g + diff left.b right.b

/-- `adjust_text_contrast`. -/
def adjustTextContrast (text : List Char) (foreground background : PlanColor) : PlanColor :=
  let graphic := match text with
    | [ch] => isOldGraphicsCharacter ch
    | _ => false
  if graphic || decide (96 ≤ contrastDistance foreground background) then foreground
  else
    let light : PlanColor := ⟨255, 255, 255, foreground.a⟩
    let dark : PlanColor := ⟨0, 0, 0, foreground.a⟩
    if contrastDistance dark background ≤ contrastDistance light background then light else dark

/-- `paint_attrs`, with the text colors of the overlays. -/
def paintAttrs (cell : RenderCell) (text : List Char) (overlay : UInt8)
    (defaultForeground defaultBackground selection : PlanColor) (minimumContrast : Bool) :
    TextAttrs :=
  let (fg, bg) := cellColors K cell defaultForeground defaultBackground
  let fg := if minimumContrast && overlay == 0 then adjustTextContrast text fg bg else fg
  let fg :=
    if overlay = overlaySelection then selection
    else if overlay = overlayActiveSearch then activeSearchMatchTextForeground
    else if overlay = overlaySearch then searchMatchTextForeground
    else fg
  { fg, bold := cell.style.bold, italic := cell.style.italic, underline := cell.style.underline
    strikethrough := cell.style.strikethrough, overline := cell.style.overline }

/-- `terminal_char_width`, `terminal_text.rs:430–432`. -/
def terminalCharWidth (ch : Char) : ℕ := min ((lib.charWidth ch).getD 0) u16Max

/-- `terminal_grapheme_cells`, `terminal_text.rs:437–452`. -/
def cellTextWidth : List Char → ℕ
  | [] => 1
  | [ch] => max (terminalCharWidth ch) 1
  | text => max (min (lib.textWidth text) u16Max) 1

end Colors

section Painting

variable [lib : PaintLibrary] {K : Type} [FloatOps K]

/-! ### Backgrounds, `paint_plan.rs:494–539` and `689–697` -/

/-- The cells of a row, or all cells. -/
def rowCells (frame : RenderFrame) : Option ℕ → List RenderCell
  | none => frame.cells
  | some row =>
    let start := partitionPoint (fun cell : RenderCell ↦ decide (cell.y < row)) frame.cells
    let stop := partitionPoint (fun cell : RenderCell ↦ decide (cell.y ≤ row)) frame.cells
    (frame.cells.take stop).drop start

section Rectangles

variable [DecidableEq K]

/-- A rectangle behind one of its color in its row extends it. -/
def pushBackground (backgrounds : List (BackgroundRect K)) (rect : SurfaceRect K)
    (color : PlanColor) : List (BackgroundRect K) :=
  match backgrounds.getLast? with
  | none => backgrounds ++ [⟨rect, color⟩]
  | some last =>
    if last.color = color ∧ last.rect.minY = rect.minY ∧ last.rect.maxY = rect.maxY ∧
        FloatOps.abs (last.rect.maxX - rect.minX) ≤ Scalar.literal (1 / 2 ^ 23) then
      backgrounds.dropLast ++ [{ last with rect := { last.rect with maxX := rect.maxX } }]
    else backgrounds ++ [⟨rect, color⟩]

/-- One iteration of the loop of `plan_backgrounds`. -/
def pushCellBackground (surface : TerminalSurface K)
    (defaultForeground defaultBackground : PlanColor) (backgrounds : List (BackgroundRect K))
    (cell : RenderCell) : List (BackgroundRect K) :=
  if !cell.style.inverse && cell.bg.isNone then backgrounds
  else pushBackground backgrounds (surface.cellRect cell.x cell.y)
    (cellBackground cell defaultForeground defaultBackground)

/-- `plan_backgrounds`. -/
def planBackgrounds (backgrounds : List (BackgroundRect K)) (surface : TerminalSurface K)
    (frame : RenderFrame) (defaultForeground defaultBackground : PlanColor) (row : Option ℕ) :
    List (BackgroundRect K) :=
  (rowCells frame row).foldl (pushCellBackground surface defaultForeground defaultBackground)
    backgrounds

/-! ### Overlays, `paint_plan.rs:553–629` -/

/-- `fill` of a range of the mask, if the mask has it. -/
def fillRange (mask : List UInt8) (start stop : ℕ) (overlay : UInt8) : List UInt8 :=
  if stop < mask.length then
    mask.take start ++ List.replicate (stop + 1 - start) overlay ++ mask.drop (stop + 1)
  else mask

/-- One range of an overlay. -/
def appendOverlay (surface : TerminalSurface K) (frame : RenderFrame) (background : PlanColor)
    (overlay : UInt8) (painted : List (BackgroundRect K) × List UInt8) (range : FrameSelection) :
    List (BackgroundRect K) × List UInt8 :=
  let backgrounds :=
    if range.startCol ≤ range.endCol then
      pushBackground painted.1 (surface.runRect range.startCol range.row
        (min (range.endCol - range.startCol + 1) u16Max)) background
    else painted.1
  if frame.rows ≤ range.row ∨ frame.cols ≤ range.startCol then (backgrounds, painted.2)
  else
    let endCol := min range.endCol (frame.cols - 1)
    if endCol < range.startCol then (backgrounds, painted.2)
    else
      let rowStart := range.row * frame.cols
      (backgrounds, fillRange painted.2 (rowStart + range.startCol) (rowStart + endCol) overlay)

/-- The backgrounds and the mask of the selections and search matches. -/
def planOverlays (backgrounds : List (BackgroundRect K)) (surface : TerminalSurface K)
    (frame : RenderFrame) (defaultForeground : PlanColor) :
    List (BackgroundRect K) × List UInt8 :=
  if frame.selections.isEmpty && frame.searchMatches.isEmpty && frame.activeSearchMatch.isNone then
    (backgrounds, [])
  else
    let painted := frame.searchMatches.foldl
      (appendOverlay surface frame searchMatchBackground overlaySearch)
      (backgrounds, List.replicate (frame.cols * frame.rows) 0)
    let active :=
      if frame.activeSearchSegments.isEmpty then frame.activeSearchMatch.toList
      else frame.activeSearchSegments
    let painted := active.foldl
      (appendOverlay surface frame activeSearchMatchBackground overlayActiveSearch) painted
    frame.selections.foldl (appendOverlay surface frame
      (frame.colors.selectionBackground.elim defaultForeground .ofRgb) overlaySelection) painted

end Rectangles

/-- `cell_overlay`. -/
def cellOverlay (mask : List UInt8) (cols : ℕ) (cell : RenderCell) : UInt8 :=
  if mask.isEmpty then 0 else (mask[cell.y * cols + cell.x]?).getD 0

/-! ### Text and decorations, `paint_plan.rs:631–687` and `725–765` -/

/-- The text's place in its row. -/
def textRectForRow (rowRect : SurfaceRect K) (textCellHeight : K) : SurfaceRect K :=
  let height :=
    if Scalar.isFinite textCellHeight ∧ Scalar.literal 0 < textCellHeight then
      min textCellHeight rowRect.height
    else rowRect.height
  let yOffset := max ((rowRect.height - height) * Scalar.literal (1 / 2)) (Scalar.literal 0)
  .fromMinSize rowRect.minX (rowRect.minY + yOffset) rowRect.width height

/-- The line of an underline. -/
def underlineStyle (underline : lib.Underline) : Option DecorationStyle :=
  if underline = lib.noUnderline then none
  else if underline = lib.double then some .double
  else if underline = lib.curly then some .curly
  else if underline = lib.dotted then some .dotted
  else if underline = lib.dashed then some .dashed
  else some .single

/-- The decorations of a run. -/
def planDecorations (rect : SurfaceRect K) (attrs : TextAttrs) (underlineOffset : K) :
    List (DecorationLine K) :=
  let lines : List (Option (K × DecorationStyle)) :=
    [(underlineStyle attrs.underline).map fun style ↦ (rect.minY + underlineOffset, style),
      if attrs.strikethrough then
        some (Scalar.mulAdd rect.height (Scalar.literal (55 / 100)) rect.minY, .strikethrough)
      else none,
      if attrs.overline then some (rect.minY + Scalar.literal 2, .overline) else none]
  (lines.filterMap id).map fun line ↦
    { startX := rect.minX, startY := line.1, endX := rect.maxX, endY := line.1
      color := attrs.fg, style := line.2 }

/-- The attributes of the text of a cell. -/
def attrsFor (frame : RenderFrame) (context : TextPlanContext K) (cell : RenderCell)
    (text : List Char) : TextAttrs :=
  paintAttrs K cell text (cellOverlay context.overlayMask frame.cols cell)
    context.defaultForeground context.defaultBackground
    (selectionTextForeground frame context.defaultBackground) context.minimumContrast

/-- The inner loop of `plan_text_runs`: where a run ends, its text, and the cells behind it. -/
def extendRun (frame : RenderFrame) (context : TextPlanContext K) (attrs : TextAttrs)
    (startY : ℕ) : ℕ → List Char → List RenderCell → ℕ × List Char × List RenderCell
  | endX, runText, [] => (endX, runText, [])
  | endX, runText, next :: rest =>
    let nextText := frame.cellText next
    if next.y ≠ startY ∨ next.x ≠ endX ∨ next.style.invisible ∨ nextText = [] ∨
        attrsFor frame context next nextText ≠ attrs then
      (endX, runText, next :: rest)
    else
      extendRun frame context attrs startY (min (endX + cellTextWidth nextText) u16Max)
        (runText ++ nextText) rest

private theorem suffix_extendRun (frame : RenderFrame) (context : TextPlanContext K)
    (attrs : TextAttrs) (startY endX : ℕ) (runText : List Char) (cells : List RenderCell) :
    (extendRun frame context attrs startY endX runText cells).2.2 <:+ cells := by
  induction cells generalizing endX runText with
  | nil => exact List.suffix_refl []
  | cons next rest ih =>
    rw [extendRun]
    split
    · exact List.suffix_refl _
    · exact (ih _ _).trans (List.suffix_cons next rest)

/-- The run of a cell with text, and the cells behind it. -/
def textRun (surface : TerminalSurface K) (frame : RenderFrame) (context : TextPlanContext K)
    (first : RenderCell) (rest : List RenderCell) : TextRun K × List RenderCell :=
  let firstText := frame.cellText first
  let attrs := attrsFor frame context first firstText
  let firstEnd := min (first.x + cellTextWidth firstText) u16Max
  let (endX, text, rest) :=
    if context.minimumContrast then (firstEnd, firstText, rest)
    else extendRun frame context attrs first.y firstEnd firstText rest
  let rowRect := surface.runRect first.x first.y (endX - first.x)
  ({ rect := textRectForRow rowRect context.textCellHeight, cellRect := rowRect
     cells := endX - first.x, text, attrs }, rest)

/-- A run takes cells off the front. -/
theorem suffix_textRun (surface : TerminalSurface K) (frame : RenderFrame)
    (context : TextPlanContext K) (first : RenderCell) (rest : List RenderCell) :
    (textRun surface frame context first rest).2 <:+ rest := by
  rw [textRun]
  dsimp only
  split
  · exact List.suffix_refl rest
  · exact suffix_extendRun ..

/-- The outer loop of `plan_text_runs`. -/
def planTextRunsFrom (surface : TerminalSurface K) (frame : RenderFrame)
    (context : TextPlanContext K) :
    List RenderCell → List (TextRun K) × List (DecorationLine K)
  | [] => ([], [])
  | first :: rest =>
    if first.style.invisible ∨ frame.cellText first = [] then
      planTextRunsFrom surface frame context rest
    else
      let run := textRun surface frame context first rest
      let (textRuns, decorations) := planTextRunsFrom surface frame context run.2
      (run.1 :: textRuns,
        planDecorations run.1.rect run.1.attrs context.underlineOffset ++ decorations)
  termination_by cells => cells.length
  decreasing_by
    · exact Nat.lt_succ_self _
    · exact Nat.lt_succ_of_le (suffix_textRun surface frame context first rest).length_le

/-- `plan_text_runs`, into empty lists. -/
def planTextRuns (surface : TerminalSurface K) (frame : RenderFrame) (context : TextPlanContext K)
    (row : Option ℕ) : List (TextRun K) × List (DecorationLine K) :=
  planTextRunsFrom surface frame context (rowCells frame row)

/-- `plan_row_fragment`; a fragment is cleared before it is planned. -/
def planRowFragment [DecidableEq K] (surface : TerminalSurface K) (frame : RenderFrame) (row : ℕ)
    (context : TextPlanContext K) : RowPaintFragment K :=
  let (textRuns, decorations) := planTextRuns surface frame context (some row)
  { backgrounds := planBackgrounds [] surface frame context.defaultForeground
      context.defaultBackground (some row)
    textRuns, decorations }

/-! ### The cursor, `paint_plan.rs:783–951` -/

/-- `same_rgb`. -/
def sameRgb (left right : PlanColor) : Bool :=
  left.r == right.r && left.g == right.g && left.b == right.b

/-- `cursor_text_color`. -/
def cursorTextColor (cellBg cursorColor defaultForeground defaultBackground : PlanColor) :
    PlanColor :=
  let color :=
    if sameRgb cellBg cursorColor then
      if sameRgb defaultBackground cursorColor then defaultForeground else defaultBackground
    else cellBg
  { color with a := cursorColor.a }

/-- The cell at a position, looked up where it is in a frame without gaps. -/
def cursorCell (frame : RenderFrame) (x y : ℕ) : Option RenderCell :=
  ((frame.cells[y * frame.cols + x]?).filter fun cell ↦ cell.x == x && cell.y == y).or
    (frame.cells.find? fun cell ↦ cell.x == x && cell.y == y)

/-- `cursor_shape`. -/
def cursorShape (style : lib.CursorVisualStyle) : CursorShape :=
  if style = lib.bar then .bar
  else if style = lib.underline then .underline
  else if style = lib.blockHollow then .hollowBlock
  else .block

/-- `plan_cursor`. -/
def planCursor (surface : TerminalSurface K) (frame : RenderFrame)
    (defaultForeground defaultBackground : PlanColor) (textCellHeight : K)
    (phase : CursorBlinkPhase K) : Option (CursorPlan K) :=
  match frame.cursor with
  | none => none
  | some cursor =>
    let cursorAlpha := if cursor.blinking then phase.alpha else 255
    if cursorAlpha = 0 then none
    else
      let color : PlanColor := { ((cursor.color.or frame.colors.cursor).elim defaultForeground
        .ofRgb) with a := cursorAlpha }
      let shape := cursorShape cursor.style
      let cursorX := if cursor.atWideTail then cursor.x - 1 else cursor.x
      let rect := surface.runRect cursorX cursor.y (if cursor.atWideTail then 2 else 1)
      let textUnderCursor :=
        if shape = .block then
          (cursorCell frame cursorX cursor.y).bind fun cell ↦
            if cell.style.invisible then none
            else
              let text := frame.cellText cell
              let cellBg := (cellColors K cell defaultForeground defaultBackground).2
              if text = [] then none
              else some
                { rect := textRectForRow rect textCellHeight, text
                  color := frame.colors.cursorText.elim
                    (cursorTextColor cellBg color defaultForeground defaultBackground) .ofRgb }
        else none
      some { rect, color, shape, textUnderCursor }

/-! ### The planner, `paint_plan.rs:265–476` -/

namespace PaintPlanner

variable [DecidableEq K]

/-- `PaintPlanner::default`. -/
def new : PaintPlanner K :=
  { plan :=
      { surface := .fromMinSize (Scalar.literal 0) (Scalar.literal 0) (Scalar.literal 0)
          (Scalar.literal 0)
        defaultBackground := {}, backgrounds := [], textRuns := [], decorations := []
        cursor := none } }

/-- An offset that equals the one in force keeps the cache. -/
def setUnderlineOffset (planner : PaintPlanner K) (offset : K) : PaintPlanner K :=
  if Scalar.isFinite offset ∧ !planner.underlineOffset.any (FloatOps.eq · offset) then
    { planner with underlineOffset := some offset, rowCacheKey := none }
  else planner

/-- `invalidate_incremental_cache`. -/
def invalidateIncrementalCache (planner : PaintPlanner K) : PaintPlanner K :=
  { planner with rowFragments := [], rowCacheKey := none, rowCacheLineage := none }

/-- The offset in force, or one below the text. -/
def underlineOffsetOr (planner : PaintPlanner K) (fontSize : K) : K :=
  planner.underlineOffset.getD (fontSize + Scalar.literal 3)

/-- `plan_with_options`. -/
def planWithOptions (planner : PaintPlanner K) (surface : TerminalSurface K) (frame : RenderFrame)
    (fontSize textCellHeight : K) (phase : CursorBlinkPhase K) (minimumContrast : Bool) :
    PaintPlanner K :=
  let planner := planner.invalidateIncrementalCache
  let defaultBackground := PlanColor.ofRgb frame.colors.background
  let defaultForeground := PlanColor.ofRgb frame.colors.foreground
  let backgrounds := planBackgrounds [] surface frame defaultForeground defaultBackground none
  let (backgrounds, overlayMask) := planOverlays backgrounds surface frame defaultForeground
  let (textRuns, decorations) := planTextRuns surface frame
    { defaultForeground, defaultBackground, underlineOffset := planner.underlineOffsetOr fontSize
      textCellHeight, minimumContrast, overlayMask } none
  { planner with
    overlayMask
    plan :=
      { surface := surface.gridRect frame.cols frame.rows, defaultBackground, backgrounds, textRuns
        decorations
        cursor := planCursor surface frame defaultForeground defaultBackground textCellHeight
          phase } }

/-- `plan_with_cursor_blink_phase_and_text_cell_height`. -/
def planWithCursorBlinkPhaseAndTextCellHeight (planner : PaintPlanner K)
    (surface : TerminalSurface K) (frame : RenderFrame) (fontSize textCellHeight : K)
    (phase : CursorBlinkPhase K) : PaintPlanner K :=
  planner.planWithOptions surface frame fontSize textCellHeight phase false

/-- The key that a plan's rows are cached under. -/
def cacheKey (surface : TerminalSurface K) (frame : RenderFrame) (fontSize textCellHeight : K) :
    RowPaintCacheKey K :=
  { surface, cols := frame.cols, rows := frame.rows, fontSize, textCellHeight
    defaultForeground := .ofRgb frame.colors.foreground
    defaultBackground := .ofRgb frame.colors.background }

/-- The cached rows are of the frame or of the one that its damage is relative to. -/
def cacheReady (planner : PaintPlanner K) (key : RowPaintCacheKey K) (frame : TracedFrame) : Bool :=
  planner.rowCacheKey.any (·.eq key) && planner.rowFragments.length == frame.rows &&
    planner.rowCacheLineage.any frame.lineage.follows

/-- What the rows are planned in. -/
def rowContext (planner : PaintPlanner K) (frame : RenderFrame) (fontSize textCellHeight : K) :
    TextPlanContext K :=
  { defaultForeground := .ofRgb frame.colors.foreground
    defaultBackground := .ofRgb frame.colors.background
    underlineOffset := planner.underlineOffsetOr fontSize
    textCellHeight, minimumContrast := false, overlayMask := [] }

/-- `plan_incremental`, with the number of rows that were planned. -/
def planIncremental (planner : PaintPlanner K) (surface : TerminalSurface K) (frame : TracedFrame)
    (fontSize textCellHeight : K) : PaintPlanner K × ℕ :=
  let key := cacheKey surface frame.toRenderFrame fontSize textCellHeight
  let ready := planner.cacheReady key frame
  let planner :=
    if ready then planner
    else { planner.invalidateIncrementalCache with
      rowFragments := List.replicate frame.rows {}, rowCacheKey := some key }
  let planner := { planner with rowCacheLineage := some frame.lineage }
  let context := planner.rowContext frame.toRenderFrame fontSize textCellHeight
  let rebuilt := fun row ↦ !ready || (frame.rowDirty[row]?).getD true
  -- There is a fragment for each row.
  let rowFragments := planner.rowFragments.mapIdx fun row fragment ↦
    if rebuilt row then planRowFragment surface frame.toRenderFrame row context else fragment
  ({ planner with
      rowFragments
      plan :=
        { surface := surface.gridRect frame.cols frame.rows
          defaultBackground := context.defaultBackground
          backgrounds := rowFragments.flatMap (·.backgrounds)
          textRuns := rowFragments.flatMap (·.textRuns)
          decorations := rowFragments.flatMap (·.decorations)
          cursor := planCursor surface frame.toRenderFrame context.defaultForeground
            context.defaultBackground textCellHeight .visible } },
    (List.range frame.rows).countP rebuilt)

end PaintPlanner
end Painting
end Bootty.Ui
