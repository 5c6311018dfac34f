import Bootty.Base.BoundedNat
import Mathlib.Data.Int.Notation
import Mathlib.Data.List.Dedup
import Mathlib.Data.List.Sort

/-!
# The glyph atlas

Model of `GlyphAtlas` (`crates/bootty-ui/src/terminal_text_atlas/atlas.rs`): a surface of pixels
that grows, the rectangles reserved on it by a moving shelf and by a search of the gaps, the glyphs
painted into them, and what it tells a renderer about its changes. The methods return what they
answer and the atlas after the call.
-/

namespace Bootty.Ui

open Bootty.Base

/-- `u32::MAX`. -/
def u32Max : ℕ := 2 ^ 32 - 1

/-- `u64::MAX`. -/
def u64Max : ℕ := 2 ^ 64 - 1

/-- `usize::MAX` of a 64-bit target. -/
def usizeMax : ℕ := 2 ^ 64 - 1

/-- `atlas.rs:12`. -/
def maxAtlasDim : ℕ := 4096

/-- `atlas.rs:37–42`. -/
structure GlyphAtlasEntry where
  x : ℕ
  y : ℕ
  width : ℕ
  height : ℕ
  deriving DecidableEq, Repr

/-- `atlas.rs:44–49`. -/
structure GlyphAtlasRecord where
  entry : GlyphAtlasEntry
  isColorGlyph : Bool
  offset : ℤ × ℤ
  deriving DecidableEq, Repr

/-- `atlas.rs:51–57`. -/
structure GlyphRaster where
  pixels : List UInt8
  color : Bool
  width : ℕ
  height : ℕ
  offset : ℤ × ℤ
  deriving DecidableEq, Repr

/-- `atlas.rs:71–76`. -/
inductive GlyphAtlasFormat where
  | alpha
  | bgr
  | rgba
  deriving DecidableEq, Repr

/-- `atlas.rs:80–86`. -/
def GlyphAtlasFormat.depth : GlyphAtlasFormat → ℕ
  | alpha => 1
  | bgr => 3
  | rgba => 4

theorem GlyphAtlasFormat.depth_pos (format : GlyphAtlasFormat) : 1 ≤ format.depth := by
  cases format <;> decide

/-- `atlas.rs:89–93`. -/
inductive GlyphAtlasError where
  | capacityExceeded
  deriving DecidableEq, Repr

/-- `atlas.rs:95–113`. Beside the fields of the source, `modifications` counts the additions to
`modified`, which saturates. -/
structure GlyphAtlas (Key : Type) where
  width : ℕ
  height : ℕ
  format : GlyphAtlasFormat
  allocations : List GlyphAtlasEntry
  entries : List (Key × GlyphAtlasRecord)
  pixels : List UInt8
  modified : ℕ
  dirtyRegions : List (ℕ × GlyphAtlasEntry)
  nextX : ℕ
  nextY : ℕ
  rowHeight : ℕ
  resized : ℕ
  noFitAtLeast : Option (ℕ × ℕ)
  modifications : ℕ

/-- `atlas.rs:674–679`. -/
def rectsOverlap (a b : GlyphAtlasEntry) : Bool :=
  decide (a.x < saturatingAdd u32Max b.x b.width) &&
    decide (b.x < saturatingAdd u32Max a.x a.width) &&
    decide (a.y < saturatingAdd u32Max b.y b.height) &&
    decide (b.y < saturatingAdd u32Max a.y a.height)

/-- `atlas.rs:681–687`. -/
def atlasByteLen (width height depth : ℕ) : Option ℕ :=
  (checkedMul u32Max width height).bind fun pixels ↦ checkedMul u32Max pixels depth

/-- When a size is counted. -/
theorem atlasByteLen_eq_some {width height depth byteLen : ℕ} (hdepth : 1 ≤ depth) :
    atlasByteLen width height depth = some byteLen ↔
      width * height * depth ≤ u32Max ∧ width * height * depth = byteLen := by
  simp only [atlasByteLen, Option.bind_eq_some_iff, checkedMul_eq_some]
  constructor
  · rintro ⟨_, ⟨_, rfl⟩, hbytes, hlen⟩
    exact ⟨hbytes, hlen⟩
  · rintro ⟨hbytes, hlen⟩
    exact ⟨_, ⟨Nat.le_trans (Nat.le_mul_of_pos_right _ hdepth) hbytes, rfl⟩, hbytes, hlen⟩

/-- `atlas.rs:705–708`. -/
def atlasPixelOffset (x y width depth : ℕ) : Option ℕ :=
  ((checkedMul u32Max y width).bind fun row ↦ checkedAdd u32Max row x).bind fun pixel ↦
    checkedMul u32Max pixel depth

/-! ### Painting -/

/-- `atlas.rs:689–694`. -/
structure BlitTarget where
  atlasWidth : ℕ
  depth : ℕ
  entry : GlyphAtlasEntry

/-- `atlas.rs:696–703`. -/
structure BlitSource where
  pixels : List UInt8
  width : ℕ
  x : ℕ
  y : ℕ
  clearMissing : Bool

/-- `copy_from_slice` to the bytes from `start` on. -/
def overwrite (bytes : List UInt8) (start : ℕ) (copied : List UInt8) : List UInt8 :=
  bytes.take start ++ copied ++ bytes.drop (start + copied.length)

/-- `bytes.get(start..start + len)`. -/
def getRange (bytes : List UInt8) (start len : ℕ) : Option (List UInt8) :=
  if start + len ≤ bytes.length then some ((bytes.drop start).take len) else none

/-- `atlas.rs:715–719`: where a row of the entry begins. -/
def BlitTarget.start (target : BlitTarget) (y : ℕ) : Option ℕ :=
  (checkedAdd u32Max target.entry.y y).bind fun row ↦
    atlasPixelOffset target.entry.x row target.atlasWidth target.depth

/-- `atlas.rs:729–741`: the bytes of a row of the source. -/
def BlitSource.row (source : BlitSource) (depth rowBytes y : ℕ) : Option (List UInt8) :=
  (checkedAdd u32Max source.y y).bind fun row ↦
    (atlasPixelOffset source.x row source.width depth).bind fun start ↦
      getRange source.pixels start rowBytes

/-- `atlas.rs:714–742`: one turn of the loop. -/
def blitRow (target : BlitTarget) (source : BlitSource) (rowBytes : ℕ) (pixels : List UInt8)
    (y : ℕ) : List UInt8 :=
  match target.start y with
  | none => pixels
  | some start =>
    if pixels.length < start + rowBytes then pixels
    else
      let cleared :=
        if source.clearMissing then overwrite pixels start (.replicate rowBytes 0) else pixels
      match source.row target.depth rowBytes y with
      | none => cleared
      | some row => overwrite cleared start row

/-- `atlas.rs:710–743`. -/
def blitPixelsFromSource (pixels : List UInt8) (target : BlitTarget) (source : BlitSource) :
    List UInt8 :=
  match atlasByteLen target.entry.width 1 target.depth with
  | none => pixels
  | some rowBytes => (List.range target.entry.height).foldl (blitRow target source rowBytes) pixels

/-- `chunks_exact`. -/
def chunksExact (size : ℕ) (bytes : List UInt8) : List (List UInt8) :=
  (List.range (bytes.length / size)).map fun i ↦ (bytes.drop (i * size)).take size

/-- `atlas.rs:538–547`: the old rows at the start of the new ones, and what no old row is for. -/
def copyRows (pixels : List UInt8) (oldStride newStride : ℕ) (fresh : List UInt8) : List UInt8 :=
  let oldRows := chunksExact oldStride pixels
  let newRows := chunksExact newStride fresh
  let copied := List.zipWith (fun old new ↦ overwrite new 0 old) oldRows newRows
  copied.flatten ++ fresh.drop (copied.length * newStride)

/-- `atlas.rs:653–658`. -/
def unionAtlasEntries (left right : GlyphAtlasEntry) : GlyphAtlasEntry :=
  let x := min left.x right.x
  let y := min left.y right.y
  let maxX := max (saturatingAdd u32Max left.x left.width)
    (saturatingAdd u32Max right.x right.width)
  let maxY := max (saturatingAdd u32Max left.y left.height)
    (saturatingAdd u32Max right.y right.height)
  ⟨x, y, maxX - x, maxY - y⟩

/-- `partition_point`, for a list that a predicate partitions. -/
def partitionPoint {α : Type} (p : α → Bool) (l : List α) : ℕ := (l.takeWhile p).length

/-- The partition point of a list of two parts. -/
theorem partitionPoint_append {α : Type} {p : α → Bool} {front back : List α}
    (hfront : ∀ a ∈ front, p a = true) (hback : ∀ a ∈ back, p a = false) :
    partitionPoint p (front ++ back) = front.length := by
  rw [partitionPoint, List.takeWhile_append_of_pos hfront]
  cases back with
  | nil => simp
  | cons a rest =>
    have ha := hback a List.mem_cons_self
    rw [List.takeWhile_cons, ha]
    simp

/-- `Iterator::reduce`. -/
def reduce {α : Type} (f : α → α → α) : List α → Option α
  | [] => none
  | a :: rest => some (rest.foldl f a)

namespace GlyphAtlas

variable {Key : Type}

/-- `atlas.rs:225–243`. -/
def fromPixels (width height : ℕ) (format : GlyphAtlasFormat) (pixels : List UInt8) :
    GlyphAtlas Key where
  width := width
  height := height
  format := format
  allocations := []
  entries := []
  pixels := pixels
  modified := 0
  dirtyRegions := []
  nextX := 1
  nextY := 1
  rowHeight := 0
  resized := 0
  noFitAtLeast := none
  modifications := 0

/-- `atlas.rs:207–223`. -/
def tryWithFormat (width height : ℕ) (format : GlyphAtlasFormat) (byteLimit : ℕ) :
    Except GlyphAtlasError (GlyphAtlas Key) :=
  let width := max width 1
  let height := max height 1
  match atlasByteLen width height format.depth with
  | none => .error .capacityExceeded
  | some byteLen =>
    if byteLimit < byteLen then .error .capacityExceeded
    else .ok (fromPixels width height format (.replicate byteLen 0))

/-! ### Reserving -/

/-- `atlas.rs:355`: the rectangle and its border fit the surface. -/
def fits (atlas : GlyphAtlas Key) (width height : ℕ) : Bool :=
  (checkedAdd u32Max width 2).any (· ≤ atlas.width) &&
    (checkedAdd u32Max height 2).any (· ≤ atlas.height)

/-- `atlas.rs:358–361`: the memo of a failed search covers the size. -/
def knownFull (atlas : GlyphAtlas Key) (width height : ℕ) : Bool :=
  atlas.noFitAtLeast.any fun failed ↦ failed.1 ≤ width && failed.2 ≤ height

/-- `atlas.rs:386–395, 397–406`: the coordinates flush with the border or an edge, in order. -/
def flushCoordinates (edges : List ℕ) (last : ℕ) : List ℕ :=
  (((1 :: edges).filter fun edge ↦ 1 ≤ edge && edge ≤ last).insertionSort (· ≤ ·)).dedup

/-- `atlas.rs:416–420`. -/
def clear (atlas : GlyphAtlas Key) (entry : GlyphAtlasEntry) : Bool :=
  atlas.allocations.all fun used ↦ !rectsOverlap used entry

/-- `atlas.rs:382–426`. -/
def firstFitInGaps (atlas : GlyphAtlas Key) (width height : ℕ) : Option GlyphAtlasEntry :=
  let maxX := atlas.width - 1 - width
  let maxY := atlas.height - 1 - height
  let columns := flushCoordinates
    (atlas.allocations.map fun used ↦ saturatingAdd u32Max used.x used.width) maxX
  let rows := flushCoordinates
    (atlas.allocations.map fun used ↦ saturatingAdd u32Max used.y used.height) maxY
  rows.findSome? fun y ↦ columns.findSome? fun x ↦
    if atlas.clear ⟨x, y, width, height⟩ then some ⟨x, y, width, height⟩ else none

/-- `atlas.rs:434–438`: the shelf moves on when the row is full. -/
def wrapShelf (atlas : GlyphAtlas Key) (width : ℕ) : GlyphAtlas Key :=
  if atlas.width - 1 - width < atlas.nextX then
    { atlas with
      nextX := 1
      nextY := saturatingAdd u32Max atlas.nextY (max atlas.rowHeight 1)
      rowHeight := 0 }
  else atlas

/-- `atlas.rs:428–461`. -/
def reserveNextShelfSlot (atlas : GlyphAtlas Key) (width height : ℕ) :
    Option GlyphAtlasEntry × GlyphAtlas Key :=
  let atlas := atlas.wrapShelf width
  let entry : GlyphAtlasEntry := ⟨atlas.nextX, atlas.nextY, width, height⟩
  if atlas.height - 1 - height < atlas.nextY then (none, atlas)
  else if atlas.clear entry then
    (some entry,
      { atlas with
        allocations := atlas.allocations ++ [entry]
        nextX := saturatingAdd u32Max (saturatingAdd u32Max atlas.nextX width) 1
        rowHeight := max atlas.rowHeight (saturatingAdd u32Max height 1) })
  else (none, atlas)

/-- `atlas.rs:363–373`: the shelf first, then the gaps. -/
def place (atlas : GlyphAtlas Key) (width height : ℕ) :
    Option GlyphAtlasEntry × GlyphAtlas Key :=
  match atlas.reserveNextShelfSlot width height with
  | (some entry, atlas) => (some entry, atlas)
  | (none, atlas) =>
    match atlas.firstFitInGaps width height with
    | some entry => (some entry, { atlas with allocations := atlas.allocations ++ [entry] })
    | none => (none, { atlas with noFitAtLeast := some (width, height) })

/-- `atlas.rs:352–375`. -/
def reserve (atlas : GlyphAtlas Key) (width height : ℕ) :
    Option GlyphAtlasEntry × GlyphAtlas Key :=
  let width := max width 1
  let height := max height 1
  if !atlas.fits width height then (none, atlas)
  else if atlas.knownFull width height then (none, atlas)
  else atlas.place width height

/-! ### Changing pixels -/

/-- `modified` counts on, up to its largest value. -/
def touch (atlas : GlyphAtlas Key) : GlyphAtlas Key :=
  { atlas with
    modified := saturatingAdd u64Max atlas.modified 1
    modifications := atlas.modifications + 1 }

/-- `atlas.rs:464–480, 491–507`: what the two setters share. -/
def blit (atlas : GlyphAtlas Key) (entry : GlyphAtlasEntry) (source : BlitSource) :
    GlyphAtlas Key :=
  let pixels := blitPixelsFromSource atlas.pixels ⟨atlas.width, atlas.format.depth, entry⟩ source
  let atlas := { atlas with pixels }.touch
  { atlas with dirtyRegions := atlas.dirtyRegions ++ [(atlas.modified, entry)] }

/-- `atlas.rs:463–481`. -/
def set (atlas : GlyphAtlas Key) (entry : GlyphAtlasEntry) (alpha : List UInt8) :
    GlyphAtlas Key :=
  atlas.blit entry ⟨alpha, entry.width, 0, 0, false⟩

/-- `atlas.rs:483–508`. -/
def setFromLarger (atlas : GlyphAtlas Key) (entry : GlyphAtlasEntry) (alpha : List UInt8)
    (sourceWidth sourceX sourceY : ℕ) : GlyphAtlas Key :=
  atlas.blit entry ⟨alpha, sourceWidth, sourceX, sourceY, true⟩

/-- `atlas.rs:533–556`: the surface with the new dimensions and the pixels so far. -/
def resize (atlas : GlyphAtlas Key) (width height byteLen oldStride newStride : ℕ) :
    GlyphAtlas Key :=
  let pixels := copyRows atlas.pixels oldStride newStride (.replicate byteLen 0)
  let atlas := { atlas with width, height, pixels }.touch
  { atlas with resized := saturatingAdd u64Max atlas.resized 1, noFitAtLeast := none }

/-- `atlas.rs:518–557`. An old row is no longer than a new one, so no copy fails. -/
def tryGrowWithByteLimit (atlas : GlyphAtlas Key) (width height byteLimit : ℕ) :
    Except GlyphAtlasError (GlyphAtlas Key) :=
  let width := max width atlas.width
  let height := max height atlas.height
  if width = atlas.width ∧ height = atlas.height then .ok atlas
  else
    match atlasByteLen width height atlas.format.depth with
    | none => .error .capacityExceeded
    | some byteLen =>
      if byteLimit < byteLen then .error .capacityExceeded
      else
        match atlasByteLen atlas.width 1 atlas.format.depth,
          atlasByteLen width 1 atlas.format.depth with
        | some oldStride, some newStride =>
          .ok (atlas.resize width height byteLen oldStride newStride)
        | _, _ => .error .capacityExceeded

/-- `atlas.rs:512–514`. -/
def grow (atlas : GlyphAtlas Key) (width height : ℕ) :
    Except GlyphAtlasError (GlyphAtlas Key) :=
  atlas.tryGrowWithByteLimit width height usizeMax

/-- `atlas.rs:559–571`. -/
def recycle (atlas : GlyphAtlas Key) : GlyphAtlas Key :=
  { atlas with
    allocations := []
    entries := []
    pixels := .replicate atlas.pixels.length 0
    dirtyRegions := []
    nextX := 1
    nextY := 1
    rowHeight := 0
    noFitAtLeast := none
    resized := saturatingAdd u64Max atlas.resized 1 }.touch

/-- `atlas.rs:594–612`. -/
def atlasPixelChannel (atlas : GlyphAtlas Key) (x y channel : ℕ) : Option UInt8 :=
  if atlas.width ≤ x ∨ atlas.height ≤ y then none
  else if atlas.format.depth ≤ channel then none
  else
    (atlasPixelOffset x y atlas.width atlas.format.depth).bind fun offset ↦
      atlas.pixels[offset + channel]?

/-- `atlas.rs:619–628`. -/
def dirtyRectSince (atlas : GlyphAtlas Key) (modified : ℕ) : Option GlyphAtlasEntry :=
  let start := partitionPoint (fun region : ℕ × GlyphAtlasEntry ↦ region.1 ≤ modified)
    atlas.dirtyRegions
  reduce unionAtlasEntries ((atlas.dirtyRegions.drop start).map Prod.snd)

/-! ### Inserting -/

/-- `atlas.rs:331–337`. -/
def targetWidth (atlas : GlyphAtlas Key) (width : ℕ) : ℕ :=
  let padded := saturatingAdd u32Max width 2
  min (if atlas.width < padded then max padded atlas.width else atlas.width) maxAtlasDim

/-- `atlas.rs:340–345`. -/
def targetHeight (atlas : GlyphAtlas Key) (height : ℕ) : ℕ :=
  let padded := saturatingAdd u32Max height 2
  min (if atlas.height < padded then max padded atlas.height
    else saturatingMul u32Max atlas.height 2) maxAtlasDim

/-- `atlas.rs:330–350`. -/
def growForGlyph (atlas : GlyphAtlas Key) (width height : ℕ) : Bool × GlyphAtlas Key :=
  let targetWidth := atlas.targetWidth width
  let targetHeight := atlas.targetHeight height
  if targetWidth = atlas.width ∧ targetHeight = atlas.height then (false, atlas)
  else
    match atlas.grow targetWidth targetHeight with
    | .ok atlas => (true, atlas)
    | .error _ => (false, atlas)

/-- `atlas.rs:290–293`: the loop, for as many turns as there is fuel. -/
def growAndReserve (fuel : ℕ) (atlas : GlyphAtlas Key) (width height : ℕ) :
    Option (Option GlyphAtlasEntry × GlyphAtlas Key) :=
  match atlas.reserve width height with
  | (some entry, atlas) => some (some entry, atlas)
  | (none, atlas) =>
    match atlas.growForGlyph width height with
    | (false, atlas) => some (none, atlas)
    | (true, atlas) =>
      match fuel with
      | 0 => none
      | fuel + 1 => growAndReserve fuel atlas width height

/-- `atlas.rs:294–304`: recycling at the size cap. -/
def recycleAndReserve (reserved : Option GlyphAtlasEntry) (atlas : GlyphAtlas Key)
    (width height : ℕ) : Option GlyphAtlasEntry × GlyphAtlas Key :=
  if reserved.isNone && atlas.fits width height then atlas.recycle.reserve width height
  else (reserved, atlas)

/-- `atlas.rs:305–314`: the rectangle to paint. -/
def entryToPaint (reserved : Option GlyphAtlasEntry) (width height : ℕ) : GlyphAtlasEntry :=
  let entry := reserved.getD ⟨0, 0, 1, 1⟩
  if entry.width ≠ width ∨ entry.height ≠ height then
    { entry with width := min entry.width width, height := min entry.height height }
  else entry

variable [DecidableEq Key]

/-- `atlas.rs:278–322`. -/
def insertOrGetRaster (fuel : ℕ) (atlas : GlyphAtlas Key) (key : Key) (raster : GlyphRaster) :
    Option (GlyphAtlasRecord × GlyphAtlas Key) :=
  match atlas.entries.lookup key with
  | some record => some (record, atlas)
  | none =>
    let width := max raster.width 1
    let height := max raster.height 1
    (growAndReserve fuel atlas width height).map fun grown ↦
      let (reserved, atlas) := recycleAndReserve grown.1 grown.2 width height
      let entry := entryToPaint reserved width height
      let atlas := atlas.set entry raster.pixels
      let record := ⟨entry, raster.color, raster.offset⟩
      (record, { atlas with entries := (key, record) :: atlas.entries })

end GlyphAtlas

/-- A call of an atlas. An insertion comes with fuel, which is enough where it returns. -/
inductive AtlasCall (Key : Type) where
  | insert (fuel : ℕ) (key : Key) (raster : GlyphRaster)
  | reserve (width height : ℕ)
  | set (entry : GlyphAtlasEntry) (alpha : List UInt8)
  | setFromLarger (entry : GlyphAtlasEntry) (alpha : List UInt8) (sourceWidth sourceX sourceY : ℕ)
  | grow (width height byteLimit : ℕ)
  | recycle

/-- The atlas after a call that returns. -/
def GlyphAtlas.call {Key : Type} [DecidableEq Key] (atlas : GlyphAtlas Key) :
    AtlasCall Key → Option (GlyphAtlas Key)
  | .insert fuel key raster => (atlas.insertOrGetRaster fuel key raster).map Prod.snd
  | .reserve width height => some (atlas.reserve width height).2
  | .set entry alpha => some (atlas.set entry alpha)
  | .setFromLarger entry alpha sourceWidth sourceX sourceY =>
    some (atlas.setFromLarger entry alpha sourceWidth sourceX sourceY)
  | .grow width height byteLimit =>
    match atlas.tryGrowWithByteLimit width height byteLimit with
    | .ok atlas => some atlas
    | .error _ => some atlas
  | .recycle => some atlas.recycle

end Bootty.Ui
