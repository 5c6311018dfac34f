import Bootty.Base.Fallible
import Bootty.Terminal.Frame
import Mathlib.Logic.Function.Basic

/-!
# The frame delta stream

Model of `FrameEncoder` and `FrameDecoder`, `crates/bootty-terminal/src/frame_wire.rs:20–471`.
The encoder sends the rows that differ from its copy of the last frame and the images that
the decoder does not have; the decoder derives the rows of its own last frame again.

The encoder's map of images is a partial function, the decoder's a list of entries with
distinct keys, whose sizes are summed. A failed `insert_image` or `apply` changes nothing.
-/

namespace Bootty.Terminal

open Bootty.Base

/-! ### Messages -/

/-- `MAX_MESSAGE_SIZE`. -/
def maxMessageSize : Nat := 16 * 1024 * 1024

/-- `MAX_FRAME_IMAGE_BYTES`. -/
def maxFrameImageBytes : Nat := 64 * 1024 * 1024

/-- `MAX_RETAINED_IMAGE_BYTES`. -/
def maxRetainedImageBytes : Nat := 2 * maxFrameImageBytes

/-- `IMAGE_CONTENT_ENVELOPE_BYTES`. -/
def imageContentEnvelopeBytes : Nat := 128

/-- `MAX_IMAGE_CONTENT_BYTES`. -/
def maxImageContentBytes : Nat := maxMessageSize - imageContentEnvelopeBytes

/-- The size of an image key, a shared pointer and a vector on a 64-bit target. -/
def imageEntryBytes : Nat := 16 + 8 + 24

/-- `usize::saturating_add`. -/
def saturatingAdd (a b : Nat) : Nat := min (a + b) usizeMax

/-- `ImageKey`. -/
structure ImageKey where
  imageId : Nat
  generation : Nat
  deriving DecidableEq

/-- `WireError`. -/
inductive WireError where
  | wrongBase
  | invalidRow
  | invalidFrame
  | missingImage (key : ImageKey)
  | imageBudget
  deriving DecidableEq

/-- `ImageContent`. -/
structure ImageContent where
  key : ImageKey
  bytes : List UInt8

section Vt

variable [vt : VtLibrary]

/-- `WireRow`. -/
structure WireRow where
  cells : List RenderCell := []
  text : List Char := []
  deriving DecidableEq

/-- `WirePlacement`. -/
structure WirePlacement where
  key : ImageKey
  placementId : Nat
  layer : Nat
  width : Nat
  height : Nat
  format : Int
  source : List Nat
  destination : SurfaceRect Binary32

/-- `FrameRows`. -/
inductive FrameRows where
  | full (rows : List WireRow)
  | rows (base : Nat) (rows : List (Nat × WireRow))

/-- Whether all rows are there. -/
def FrameRows.isFull : FrameRows → Bool
  | .full _ => true
  | .rows _ _ => false

/-- `WireState`. -/
structure WireState extends FrameState where
  stats : FrameStats
  placements : List WirePlacement
  virtualPlacements : List KittyVirtualPlacement
  virtualPlaceholderRows : List Nat

/-- `FrameUpdate`. -/
structure FrameUpdate where
  sequence : Nat
  state : WireState
  rows : FrameRows

/-- `frame_wire.rs:162–184`. -/
def WireState.frame (state : WireState) : RenderFrame :=
  { toFrameState := state.toFrameState, stats := state.stats }

/-! ### Rows -/

/-- One iteration of the loop of `rows`: a cell is made relative to its row. -/
def pushCell (frame : RenderFrame) (row : WireRow) (cell : RenderCell) : WireRow :=
  { cells := row.cells ++ [{ cell with textStart := row.text.length, y := 0 }]
    text := row.text ++ frame.cellText cell }

/-- `frame_wire.rs:185–204`; a cell below the last row is skipped. -/
def rows (frame : RenderFrame) : List WireRow :=
  frame.cells.foldl (fun rows cell ↦ rows.modify cell.y fun row ↦ pushCell frame row cell)
    (List.replicate frame.rows {})

/-! ### The encoder -/

/-- `FrameEncoder`. -/
structure FrameEncoder where
  previous : Option (Nat × Nat × List WireRow) := none
  published : Option RenderFrame := none
  sequence : Nat := 0
  images : Nat → Option (ImageKey × List UInt8) := fun _ ↦ none
  pending : List ImageContent := []
  frameImageBytes : Nat := 0
  frameImages : List ImageKey := []

/-- The number of a layer. -/
def layerCode : KittyImageLayer → Nat
  | .belowBackground => 0
  | .belowText => 1
  | .aboveText => 2

namespace FrameEncoder

/-- `frame_wire.rs:236–249`. -/
def imageKey (encoder : FrameEncoder) (placement : KittyImagePlacement) : ImageKey × FrameEncoder :=
  let fresh : ImageKey := ⟨placement.imageId, encoder.sequence⟩
  let inserted := { encoder with
    images := Function.update encoder.images placement.imageId (some (fresh, placement.data)) }
  match encoder.images placement.imageId with
  | some (key, bytes) => if bytes = placement.data then (key, encoder) else (fresh, inserted)
  | none => (fresh, inserted)

/-- `frame_wire.rs:250–273`: the key of an image that fits the budgets. -/
def referenceImage (encoder : FrameEncoder) (placement : KittyImagePlacement) :
    Option ImageKey × FrameEncoder :=
  let known := (encoder.images placement.imageId).map Prod.fst
  let (key, encoder) := encoder.imageKey placement
  if key ∈ encoder.frameImages then (some key, encoder)
  else
    let charge := saturatingAdd placement.data.length imageEntryBytes
    if placement.data.length ≤ maxImageContentBytes ∧
        charge ≤ maxFrameImageBytes - encoder.frameImageBytes then
      (some key, { encoder with
        frameImages := key :: encoder.frameImages
        frameImageBytes := saturatingAdd encoder.frameImageBytes charge
        pending := if known ≠ some key then encoder.pending ++ [⟨key, placement.data⟩]
          else encoder.pending })
    else
      (none, { encoder with images := Function.update encoder.images key.imageId none })

/-- What goes over the wire of a placement whose image has this key. -/
def wirePlacement (key : ImageKey) (p : KittyImagePlacement) : WirePlacement :=
  { key, placementId := p.placementId, layer := layerCode p.layer, width := p.imageWidth
    height := p.imageHeight, format := vt.imageFormatCode p.imageFormat
    source := [p.source.x, p.source.y, p.source.width, p.source.height]
    destination := p.destination }

/-- The placements of `WireState::from_frame`, `frame_wire.rs:135–156`. -/
def wirePlacements (encoder : FrameEncoder) :
    List KittyImagePlacement → List WirePlacement × FrameEncoder
  | [] => ([], encoder)
  | p :: ps =>
    match encoder.referenceImage p with
    | (none, encoder) => encoder.wirePlacements ps
    | (some key, encoder) =>
      let rest := encoder.wirePlacements ps
      (wirePlacement key p :: rest.1, rest.2)

/-- The row part of `encode`, `frame_wire.rs:281–295`. -/
def changedRows (encoder : FrameEncoder) (frame : RenderFrame) (current : List WireRow) :
    FrameRows :=
  match encoder.previous with
  | some (base, cols, previous) =>
    if cols = frame.cols ∧ previous.length = current.length then
      .rows base (((List.range frame.rows).zip current).filter fun entry ↦
        previous[entry.1]? != some entry.2)
    else .full current
  | none => .full current

/-- `frame_wire.rs:278–308`. -/
def encode (encoder : FrameEncoder) (frame : RenderFrame) : FrameUpdate × FrameEncoder :=
  let sequence := (encoder.sequence + 1) % 2 ^ 64
  let current := rows frame
  let update := encoder.changedRows frame current
  let (placements, encoder) := { encoder with
    sequence, frameImageBytes := 0, frameImages := [] }.wirePlacements frame.images.placements
  let keys := placements.map (·.key)
  let state : WireState :=
    { toFrameState := frame.toFrameState, stats := frame.stats, placements
      virtualPlacements := frame.images.virtualPlacements
      virtualPlaceholderRows := frame.images.virtualPlaceholderRows }
  ({ sequence, state, rows := update },
    { encoder with
      images := fun id ↦ (encoder.images id).filter fun entry ↦ keys.contains entry.1
      pending := encoder.pending.filter fun content ↦ keys.contains content.key
      previous := some (sequence, frame.cols, current) })

/-- `frame_wire.rs:218–229`: only a change of the presentation is encoded. -/
def encodeChanged (encoder : FrameEncoder) (frame : RenderFrame) :
    Option FrameUpdate × FrameEncoder :=
  if encoder.published.any fun old ↦ old.samePresentation frame then (none, encoder)
  else
    let (update, encoder) := encoder.encode frame
    (some update, { encoder with published := some frame })

/-- `take_image_contents`. -/
def takeImageContents (encoder : FrameEncoder) : List ImageContent × FrameEncoder :=
  (encoder.pending, { encoder with pending := [] })

end FrameEncoder

/-! ### The decoder -/

/-- Retained images by key. -/
abbrev ImageTable := List (ImageKey × List UInt8)

/-- `FrameDecoder`. -/
structure FrameDecoder where
  previous : Option (Nat × RenderFrame) := none
  images : ImageTable := []

/-- A vector with its entries' overhead. -/
def entryCost (bytes : List UInt8) : Nat := saturatingAdd bytes.length imageEntryBytes

/-- Move the cells of a row to their place in the frame, `frame_wire.rs:430–450`. -/
def placeCells (cols y base length : Nat) : Nat → List RenderCell →
    Except WireError (List RenderCell)
  | stop, [] => if stop ≠ length then .error .invalidFrame else .ok []
  | stop, cell :: cells =>
    if cell.y ≠ 0 ∨ cols ≤ cell.x ∨ cell.textStart ≠ stop then .error .invalidFrame
    else if usizeMax < stop + cell.textLen then .error .invalidFrame
    else if length < stop + cell.textLen then .error .invalidFrame
    else if usizeMax < cell.textStart + base then .error .invalidFrame
    else do
      let cells ← placeCells cols y base length (stop + cell.textLen) cells
      pure ({ cell with y, textStart := cell.textStart + base } :: cells)

/-- The loop over the rows, `frame_wire.rs:427–455`, with the text placed so far. -/
def placeRows (cols : Nat) : Nat → List Char → List WireRow →
    Except WireError (List RenderCell × List Char)
  | _, text, [] => .ok ([], text)
  | y, text, row :: rows => do
    let cells ← placeCells cols y text.length row.text.length 0 row.cells
    let (rest, text) ← placeRows cols (y + 1) (text ++ row.text) rows
    pure (cells ++ rest, text)

/-- The loop over the changed rows, `frame_wire.rs:398–407`. -/
def applyChanges (current : List WireRow) : List Nat → List (Nat × WireRow) →
    Except WireError (List WireRow)
  | _, [] => .ok current
  | seen, (y, row) :: changes =>
    if current.length ≤ y ∨ y ∈ seen then .error .invalidRow
    else applyChanges (current.set y row) (y :: seen) changes

/-- The layer of a number. -/
def layerOf : Nat → Except WireError KittyImageLayer
  | 0 => .ok .belowBackground
  | 1 => .ok .belowText
  | 2 => .ok .aboveText
  | _ => .error .invalidFrame

/-- The rectangle of four numbers. -/
def sourceOf : List Nat → Except WireError SourceRect
  | x :: y :: width :: height :: _ => .ok ⟨x, y, width, height⟩
  | _ => .error .invalidFrame

namespace FrameDecoder

/-- The frame that is shown. -/
def frame (decoder : FrameDecoder) : Option RenderFrame := decoder.previous.map Prod.snd

/-- `frame_wire.rs:323–340`. -/
def insertImage (decoder : FrameDecoder) (content : ImageContent) :
    Except WireError FrameDecoder :=
  let retained := saturatingAdd (decoder.images.map (·.2.length)).sum
    (min (decoder.images.length * imageEntryBytes) usizeMax)
  let old := (decoder.images.lookup content.key).elim 0 entryCost
  let available := maxRetainedImageBytes - (retained - old)
  if available < entryCost content.bytes then .error .imageBudget
  else .ok { decoder with
    images := (content.key, content.bytes) ::
      decoder.images.filter fun entry ↦ entry.1 != content.key }

/-- `frame_wire.rs:346–371`. -/
def placement (decoder : FrameDecoder) (p : WirePlacement) :
    Except WireError KittyImagePlacement := do
  let data ← context (decoder.images.lookup p.key) (.missingImage p.key)
  let layer ← layerOf p.layer
  let imageFormat ← context (vt.imageFormatOf p.format) .invalidFrame
  let source ← sourceOf p.source
  pure { imageId := p.key.imageId, placementId := p.placementId, layer, imageWidth := p.width
         imageHeight := p.height, imageFormat, source, destination := p.destination, data }

/-- The rows that an update describes, `frame_wire.rs:379–412`. -/
def currentRows (decoder : FrameDecoder) (update : FrameUpdate) :
    Except WireError (List WireRow) :=
  match update.rows with
  | .full rows => .ok rows
  | .rows base changes =>
    match decoder.previous with
    | none => .error .wrongBase
    | some (sequence, previous) =>
      if base ≠ sequence ∨ update.sequence ≤ base ∨ previous.cols ≠ update.state.cols ∨
          previous.rows ≠ update.state.rows then .error .wrongBase
      else applyChanges (rows previous) [] changes

/-- `frame_wire.rs:416–426`. -/
def rowDirty (decoder : FrameDecoder) (full : Bool) (state : FrameState)
    (current : List WireRow) : List Bool :=
  current.mapIdx fun y row ↦
    full || (decoder.previous.elim true fun old ↦ (rows old.2)[y]? != some row) ||
      decoder.previous.any fun old ↦ old.2.rowWraps[y]? != state.rowWraps[y]?

/-- `frame_wire.rs:374–471`. -/
def apply (decoder : FrameDecoder) (update : FrameUpdate) : Except WireError FrameDecoder := do
  let full := update.rows.isFull
  let state := update.state
  ensure (state.rowWraps.length == state.rows) .invalidFrame
  let current ← decoder.currentRows update
  ensure (current.length == state.rows) .invalidRow
  let (cells, text) ← placeRows state.cols 0 [] current
  let placements ← state.placements.mapM decoder.placement
  let frame : RenderFrame := { state.frame with
    dirty := if full then .full else .partialRows
    rowDirty := decoder.rowDirty full state.toFrameState current
    cells, text
    images :=
      { placements, virtualPlacements := state.virtualPlacements
        virtualPlaceholderRows := state.virtualPlaceholderRows } }
  let keys := state.placements.map (·.key)
  pure
    { previous := some (update.sequence, frame)
      images := decoder.images.filter fun entry ↦ keys.contains entry.1 }

end FrameDecoder

/-! ### The stream -/

/-- `write_frame_update`, `crates/bootty-mux/src/native/server.rs:1075–1106`, and the reading
side: the image contents go first, then the update. -/
def transmit (encoder : FrameEncoder) (decoder : FrameDecoder) (frame : RenderFrame) :
    Except WireError (FrameEncoder × FrameDecoder) :=
  match encoder.encodeChanged frame with
  | (none, encoder) => .ok (encoder, decoder)
  | (some update, encoder) => do
    let (contents, encoder) := encoder.takeImageContents
    let decoder ← contents.foldlM FrameDecoder.insertImage decoder
    let decoder ← decoder.apply update
    pure (encoder, decoder)

/-- A sequence of frames through a stream that has just been opened. -/
def transmitAll (frames : List RenderFrame) : Except WireError (FrameEncoder × FrameDecoder) :=
  frames.foldlM (fun ends frame ↦ transmit ends.1 ends.2 frame) ({}, {})

end Vt
end Bootty.Terminal
