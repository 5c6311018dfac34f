import Bootty.Base.Binary32
import Bootty.Terminal.Geometry

/-!
# Render frames

Model of `crates/bootty-terminal/src/terminal_frame.rs` and of the image part of a frame,
`terminal_image.rs:24–69`. The enumerations of the VT library and their codes are parameters.
A frame's damage lineage is a pair of pointers that are compared by address only; it is left
out. Images are shared byte vectors that are compared by content.
-/

namespace Bootty.Terminal

open Bootty.Base

/-- What a frame uses of `libghostty_vt`: its enumerations, and the integer codes of the
image formats. -/
class VtLibrary where
  CursorVisualStyle : Type
  Underline : Type
  ImageFormat : Type
  decidableCursorVisualStyle : DecidableEq CursorVisualStyle
  decidableUnderline : DecidableEq Underline
  decidableImageFormat : DecidableEq ImageFormat
  /-- `i32::from(ImageFormat)`. -/
  imageFormatCode : ImageFormat → Int
  /-- `ImageFormat::try_from(i32)`. -/
  imageFormatOf : Int → Option ImageFormat

/-- Cursor styles are compared. -/
instance [vt : VtLibrary] : DecidableEq vt.CursorVisualStyle := vt.decidableCursorVisualStyle

/-- Underlines are compared. -/
instance [vt : VtLibrary] : DecidableEq vt.Underline := vt.decidableUnderline

/-- Image formats are compared. -/
instance [vt : VtLibrary] : DecidableEq vt.ImageFormat := vt.decidableImageFormat

/-- Every image format is read back from its code. -/
def ImageFormatRoundTrip (vt : VtLibrary) : Prop :=
  ∀ format : vt.ImageFormat, vt.imageFormatOf (vt.imageFormatCode format) = some format

/-- `RgbColor`. -/
structure RgbColor where
  r : UInt8
  g : UInt8
  b : UInt8
  deriving DecidableEq

/-- `FrameCopyMode`. -/
structure FrameCopyMode where
  selecting : Bool
  rectangle : Bool
  deriving DecidableEq

/-- `FrameScrollbar`. -/
structure FrameScrollbar where
  total : Nat
  offset : Nat
  len : Nat
  deriving DecidableEq

/-- `FrameSelection`. -/
structure FrameSelection where
  row : Nat
  startCol : Nat
  endCol : Nat
  deriving DecidableEq

/-- `FrameStats`. -/
structure FrameStats where
  renderStateUpdateUs : Nat := 0
  extractionUs : Nat := 0
  cells : Nat := 0
  chars : Nat := 0
  dirtyRows : Nat := 0
  deriving DecidableEq

/-- `FrameColors`. -/
structure FrameColors where
  background : RgbColor := ⟨0, 0, 0⟩
  foreground : RgbColor := ⟨0, 0, 0⟩
  cursor : Option RgbColor := none
  cursorText : Option RgbColor := none
  selectionBackground : Option RgbColor := none
  selectionForeground : Option RgbColor := none
  deriving DecidableEq

section Vt

variable [vt : VtLibrary]

/-- `CursorSnapshot`. -/
structure CursorSnapshot where
  x : Nat
  y : Nat
  atWideTail : Bool
  style : vt.CursorVisualStyle
  blinking : Bool
  color : Option RgbColor
  deriving DecidableEq

/-- `CellStyle`. -/
structure CellStyle where
  bold : Bool
  italic : Bool
  faint : Bool
  blink : Bool
  inverse : Bool
  invisible : Bool
  strikethrough : Bool
  overline : Bool
  underline : vt.Underline
  deriving DecidableEq

/-- `RenderCell`. -/
structure RenderCell where
  x : Nat
  y : Nat
  textStart : Nat
  textLen : Nat
  fg : Option RgbColor
  bg : Option RgbColor
  style : CellStyle
  hyperlink : Option String
  deriving DecidableEq

end Vt

/-! ### Images -/

/-- `KittyImageLayer`. -/
inductive KittyImageLayer where
  | belowBackground
  | belowText
  | aboveText
  deriving DecidableEq

/-- `SourceRect`. -/
structure SourceRect where
  x : Nat
  y : Nat
  width : Nat
  height : Nat
  deriving DecidableEq

/-- `KittyVirtualPlacement`. -/
structure KittyVirtualPlacement where
  imageId : Nat
  placementId : Nat
  columns : Nat
  rows : Nat
  z : Int
  deriving DecidableEq

namespace SurfaceRect

/-- `==` on rectangles of floats. -/
def eq (a b : SurfaceRect Binary32) : Bool :=
  a.minX.eq b.minX && a.minY.eq b.minY && a.maxX.eq b.maxX && a.maxY.eq b.maxY

/-- No coordinate is a NaN. -/
def isNumber (a : SurfaceRect Binary32) : Bool :=
  !a.minX.isNan && !a.minY.isNan && !a.maxX.isNan && !a.maxY.isNan

end SurfaceRect

section Vt

variable [vt : VtLibrary]

/-- `KittyImagePlacement`. -/
structure KittyImagePlacement where
  imageId : Nat
  placementId : Nat
  layer : KittyImageLayer
  imageWidth : Nat
  imageHeight : Nat
  imageFormat : vt.ImageFormat
  source : SourceRect
  destination : SurfaceRect Binary32
  data : List UInt8

/-- `==` on placements. -/
def KittyImagePlacement.eq (a b : KittyImagePlacement) : Bool :=
  a.imageId == b.imageId && a.placementId == b.placementId && a.layer == b.layer &&
    a.imageWidth == b.imageWidth && a.imageHeight == b.imageHeight &&
    a.imageFormat == b.imageFormat && a.source == b.source && a.destination.eq b.destination &&
    a.data == b.data

/-- `==` on vectors of placements. -/
def eqPlacements : List KittyImagePlacement → List KittyImagePlacement → Bool
  | [], [] => true
  | a :: as, b :: bs => a.eq b && eqPlacements as bs
  | _, _ => false

/-- `KittyImageFrame`. -/
structure KittyImageFrame where
  placements : List KittyImagePlacement := []
  virtualPlacements : List KittyVirtualPlacement := []
  virtualPlaceholderRows : List Nat := []

/-- `==` on the images of two frames. -/
def KittyImageFrame.eq (a b : KittyImageFrame) : Bool :=
  eqPlacements a.placements b.placements && a.virtualPlacements == b.virtualPlacements &&
    a.virtualPlaceholderRows == b.virtualPlaceholderRows

/-! ### Frames -/

/-- How much of a frame has changed, as far as the wire says it. -/
inductive Dirty where
  | partialRows
  | full
  deriving DecidableEq

/-- The fields of a frame that the wire carries as they are and the presentation compares. -/
structure FrameState where
  cols : Nat := 0
  rows : Nat := 0
  colors : FrameColors := {}
  cursor : Option CursorSnapshot := none
  rowWraps : List Bool := []
  searchMatches : List FrameSelection := []
  activeSearchMatch : Option FrameSelection := none
  activeSearchSegments : List FrameSelection := []
  activeSearchMatchIndex : Option Nat := none
  searchMatchCount : Nat := 0
  searchQuery : String := ""
  currentWorkingDirectory : Option String := none
  progress : Option (String × Option Nat) := none
  searchPulse : Nat := 0
  copyMode : Option FrameCopyMode := none
  mouseTracking : Bool := false
  selections : List FrameSelection := []
  scrollbar : Option FrameScrollbar := none
  deriving DecidableEq

/-- `terminal_frame.rs:38–65`. -/
structure RenderFrame extends FrameState where
  dirty : Dirty := .full
  rowDirty : List Bool := []
  cells : List RenderCell := []
  text : List Char := []
  images : KittyImageFrame := {}
  stats : FrameStats := {}

/-- `usize::MAX`. -/
def usizeMax : Nat := 2 ^ 64 - 1

namespace RenderFrame

/-- `terminal_frame.rs:70–93`: everything but extraction statistics and damage. -/
def samePresentation (a b : RenderFrame) : Bool :=
  a.toFrameState == b.toFrameState && a.cells == b.cells && a.text == b.text &&
    a.images.eq b.images

/-- `terminal_frame.rs:129–133`; a range outside of the text is empty. -/
def cellText (frame : RenderFrame) (cell : RenderCell) : List Char :=
  let stop := min (cell.textStart + cell.textLen) usizeMax
  if cell.textStart ≤ stop ∧ stop ≤ frame.text.length then
    (frame.text.take stop).drop cell.textStart
  else []

end RenderFrame
end Vt
end Bootty.Terminal
