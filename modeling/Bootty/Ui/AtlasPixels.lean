import Bootty.Base.RowMajor
import Bootty.Ui.AtlasPacking

/-!
# The pixels of the glyph atlas

What painting, growing and recycling do to each byte of the surface
(`crates/bootty-ui/src/terminal_text_atlas/atlas.rs:463–571, 705–743`). A row that is painted is a
run of bytes, so what it changes lies inside its rectangle unless it hangs over the right edge.
-/

namespace Bootty.Ui

open Bootty.Base

variable {depth : ℕ}

section Bytes

variable {bytes copied : List UInt8} {start len i : ℕ}

private theorem length_overwrite (h : start + copied.length ≤ bytes.length) :
    (overwrite bytes start copied).length = bytes.length := by
  simp only [overwrite, List.length_append, List.length_take, List.length_drop]
  omega

/-- The copied bytes are at their place, the others as before. -/
theorem getElem?_overwrite (h : start + copied.length ≤ bytes.length) :
    (overwrite bytes start copied)[i]? =
      if start ≤ i ∧ i < start + copied.length then copied[i - start]? else bytes[i]? := by
  have htake : (bytes.take start).length = start := List.length_take_of_le (by omega)
  rw [overwrite, List.append_assoc]
  by_cases hbefore : i < start
  · rw [List.getElem?_append_left (by omega), List.getElem?_take_of_lt hbefore,
      if_neg (by omega)]
  · rw [List.getElem?_append_right (by omega), htake]
    by_cases hinside : i < start + copied.length
    · rw [List.getElem?_append_left (by omega), if_pos ⟨by omega, hinside⟩]
    · rw [List.getElem?_append_right (by omega), List.getElem?_drop, if_neg (by omega)]
      congr 1
      omega

private theorem getRange_eq_some {range : List UInt8} (h : getRange bytes start len = some range) :
    range.length = len ∧ ∀ k < len, range[k]? = bytes[start + k]? := by
  have ⟨hle, heq⟩ := Option.ite_none_right_eq_some.mp h
  obtain rfl := Option.some.inj heq
  constructor
  · rw [List.length_take, List.length_drop]
    omega
  · intro k hk
    rw [List.getElem?_take_of_lt hk, List.getElem?_drop]

private theorem BlitSource.length_row {source : BlitSource} {rowBytes y : ℕ} {row : List UInt8}
    (h : source.row depth rowBytes y = some row) : row.length = rowBytes := by
  have ⟨_, _, hoffset⟩ := Option.bind_eq_some_iff.mp h
  have ⟨_, _, hrange⟩ := Option.bind_eq_some_iff.mp hoffset
  exact (getRange_eq_some hrange).1

/-- A source that lacks its first row lacks every row. -/
theorem BlitSource.row_eq_none {source : BlitSource} {rowBytes : ℕ}
    (h : (source.row depth rowBytes 0).isSome = false) (y : ℕ) :
    source.row depth rowBytes y = none := by
  by_contra hsome
  have ⟨row, hrow⟩ := Option.ne_none_iff_exists'.mp hsome
  simp only [BlitSource.row, atlasPixelOffset, getRange, Option.bind_eq_some_iff,
    checkedAdd_eq_some, checkedMul_eq_some, Option.ite_none_right_eq_some] at hrow
  obtain ⟨_, ⟨hlast, rfl⟩, _, ⟨_, ⟨_, ⟨hline, rfl⟩, hpixel, rfl⟩, hoffset, rfl⟩, hroom, _⟩ := hrow
  have hless : source.y * source.width ≤ (source.y + y) * source.width :=
    Nat.mul_le_mul_right _ (Nat.le_add_right _ _)
  have hstart : (source.y * source.width + source.x) * depth ≤
      ((source.y + y) * source.width + source.x) * depth :=
    Nat.mul_le_mul_right _ (by omega)
  have hfirst : ∃ row, source.row depth rowBytes 0 = some row := by
    simp only [BlitSource.row, atlasPixelOffset, getRange, Option.bind_eq_some_iff,
      checkedAdd_eq_some, checkedMul_eq_some, Option.ite_none_right_eq_some, Nat.add_zero]
    exact ⟨_, _, ⟨by omega, rfl⟩, _, ⟨_, ⟨_, ⟨by omega, rfl⟩, by omega, rfl⟩, by omega, rfl⟩,
      by omega, rfl⟩
  rw [Option.isSome_iff_exists.mpr hfirst] at h
  cases h

end Bytes

section Blit

variable {target : BlitTarget} {source : BlitSource} {pixels : List UInt8} {rowBytes y i : ℕ}

/-- The bytes of a row that is painted at all. -/
def BlitTarget.Covers (target : BlitTarget) (byteLen rowBytes y i : ℕ) : Prop :=
  ∃ start, target.start y = some start ∧ start + rowBytes ≤ byteLen ∧
    start ≤ i ∧ i < start + rowBytes

private theorem length_blitRow :
    (blitRow target source rowBytes pixels y).length = pixels.length := by
  rw [blitRow]
  split
  · rfl
  · split
    · rfl
    case isFalse start hstart hroom =>
      have hcleared : (if source.clearMissing then
          overwrite pixels start (.replicate rowBytes 0) else pixels).length = pixels.length := by
        split
        · exact length_overwrite (by rw [List.length_replicate]; omega)
        · rfl
      dsimp only
      split
      · exact hcleared
      case h_2 row hrow =>
        rw [length_overwrite, hcleared]
        rw [hcleared, source.length_row hrow]
        omega

/-- A byte that the row does not cover stays. -/
theorem getElem?_blitRow_of_not_covers (h : ¬ target.Covers pixels.length rowBytes y i) :
    (blitRow target source rowBytes pixels y)[i]? = pixels[i]? := by
  rw [blitRow]
  split
  · rfl
  case h_2 start hstart =>
    split
    · rfl
    case isFalse hroom =>
      have hout : ¬ (start ≤ i ∧ i < start + rowBytes) :=
        fun hin ↦ h ⟨start, hstart, by omega, hin⟩
      have hcleared : (if source.clearMissing then
          overwrite pixels start (.replicate rowBytes 0) else pixels)[i]? = pixels[i]? := by
        split
        · rw [getElem?_overwrite (by rw [List.length_replicate]; omega), List.length_replicate,
            if_neg hout]
        · rfl
      have hlength : (if source.clearMissing then
          overwrite pixels start (.replicate rowBytes 0) else pixels).length = pixels.length := by
        split
        · exact length_overwrite (by rw [List.length_replicate]; omega)
        · rfl
      dsimp only
      split
      · exact hcleared
      case h_2 row hrow =>
        have hrowLen := source.length_row hrow
        rw [getElem?_overwrite (by rw [hlength, hrowLen]; omega), hrowLen, if_neg hout]
        exact hcleared

/-- A byte that the row covers is that of the source, or stays where the source has no such row. -/
theorem getElem?_blitRow_of_covers (hclear : source.clearMissing = false) {start : ℕ}
    (hstart : target.start y = some start) (hroom : start + rowBytes ≤ pixels.length)
    (hin : start ≤ i ∧ i < start + rowBytes) :
    (blitRow target source rowBytes pixels y)[i]? =
      match source.row target.depth rowBytes y with
      | some row => row[i - start]?
      | none => pixels[i]? := by
  have hfits : ¬ pixels.length < start + rowBytes := by omega
  simp only [blitRow, hstart, hclear, if_neg hfits, Bool.false_eq_true, if_false]
  split
  case h_1 hrow => rw [hrow]
  case h_2 row hrow =>
    have hrowLen := source.length_row hrow
    rw [hrow, getElem?_overwrite (by omega), hrowLen, if_pos hin]

private theorem length_foldl_blitRow (rows : List ℕ) :
    (rows.foldl (blitRow target source rowBytes) pixels).length = pixels.length := by
  induction rows generalizing pixels with
  | nil => rfl
  | cons y rest ih => rw [List.foldl_cons, ih, length_blitRow]

/-- A byte that no row covers stays. -/
theorem getElem?_foldl_blitRow_of_not_covers {rows : List ℕ}
    (h : ∀ y ∈ rows, ¬ target.Covers pixels.length rowBytes y i) :
    (rows.foldl (blitRow target source rowBytes) pixels)[i]? = pixels[i]? := by
  induction rows generalizing pixels with
  | nil => rfl
  | cons y rest ih =>
    have hrest : ∀ y' ∈ rest,
        ¬ target.Covers (blitRow target source rowBytes pixels y).length rowBytes y' i := by
      intro y' hy'
      rw [length_blitRow]
      exact h y' (List.mem_cons_of_mem _ hy')
    rw [List.foldl_cons, ih hrest,
      getElem?_blitRow_of_not_covers (h y List.mem_cons_self)]

/-- A byte that one row alone covers is as that row leaves it. -/
theorem exists_getElem?_foldl_blitRow (source : BlitSource) {rows : List ℕ}
    (hnodup : rows.Nodup) (hy : y ∈ rows)
    (h : ∀ y' ∈ rows, y' ≠ y → ¬ target.Covers pixels.length rowBytes y' i) :
    ∃ before : List UInt8, before.length = pixels.length ∧ before[i]? = pixels[i]? ∧
      (rows.foldl (blitRow target source rowBytes) pixels)[i]? =
        (blitRow target source rowBytes before y)[i]? := by
  induction rows generalizing pixels with
  | nil => cases hy
  | cons first rest ih =>
    have ⟨hfirst, hrest⟩ := List.nodup_cons.mp hnodup
    rw [List.foldl_cons]
    by_cases hsame : first = y
    · subst hsame
      refine ⟨pixels, rfl, rfl, getElem?_foldl_blitRow_of_not_covers ?_⟩
      intro y' hy'
      rw [length_blitRow]
      apply h y' (List.mem_cons_of_mem _ hy')
      rintro rfl
      exact hfirst hy'
    · have hin := (List.mem_cons.mp hy).resolve_left (Ne.symm hsame)
      have hothers : ∀ y' ∈ rest, y' ≠ y →
          ¬ target.Covers (blitRow target source rowBytes pixels first).length rowBytes y' i := by
        intro y' hy' hne
        rw [length_blitRow]
        exact h y' (List.mem_cons_of_mem _ hy') hne
      have ⟨before, hlength, hbefore, hfold⟩ := ih hrest hin hothers
      refine ⟨before, by rw [hlength, length_blitRow], ?_, hfold⟩
      rw [hbefore, getElem?_blitRow_of_not_covers (h first List.mem_cons_self hsame)]

/-- Nothing is painted from a source without rows. -/
theorem foldl_blitRow_of_missing (hclear : source.clearMissing = false)
    (h : (source.row target.depth rowBytes 0).isSome = false) (rows : List ℕ) :
    rows.foldl (blitRow target source rowBytes) pixels = pixels := by
  induction rows with
  | nil => rfl
  | cons y rest ih =>
    have hrow : blitRow target source rowBytes pixels y = pixels := by
      simp only [blitRow, BlitSource.row_eq_none h, hclear, Bool.false_eq_true, if_false]
      split
      · rfl
      · split <;> rfl
    rw [List.foldl_cons, hrow, ih]

private theorem blitPixelsFromSource_eq
    (h : atlasByteLen target.entry.width 1 target.depth = some rowBytes) :
    blitPixelsFromSource pixels target source =
      (List.range target.entry.height).foldl (blitRow target source rowBytes) pixels := by
  rw [blitPixelsFromSource, h]

private theorem length_blitPixelsFromSource :
    (blitPixelsFromSource pixels target source).length = pixels.length := by
  rw [blitPixelsFromSource]
  split
  · rfl
  · exact length_foldl_blitRow _

end Blit

section Rows

variable {pixels fresh bytes : List UInt8} {size rows i k y oldStride newStride oldRows newRows : ℕ}

private theorem length_chunksExact (hsize : 0 < size) (h : bytes.length = rows * size) :
    (chunksExact size bytes).length = rows := by
  rw [chunksExact, List.length_map, List.length_range, h, Nat.mul_div_cancel _ hsize]

/-- The chunk at a position, with its bytes. -/
theorem getElem?_chunksExact (hsize : 0 < size) (h : bytes.length = rows * size) (hi : i < rows) :
    ∃ chunk, (chunksExact size bytes)[i]? = some chunk ∧ chunk.length = size ∧
      ∀ k < size, chunk[k]? = bytes[i * size + k]? := by
  have hend : i * size + size ≤ bytes.length := by
    calc i * size + size = (i + 1) * size := by ring
      _ ≤ rows * size := Nat.mul_le_mul_right _ hi
      _ = bytes.length := h.symm
  refine ⟨(bytes.drop (i * size)).take size, ?_, ?_, ?_⟩
  · rw [chunksExact, List.getElem?_map, h, Nat.mul_div_cancel _ hsize,
      List.getElem?_range hi]
    rfl
  · rw [List.length_take, List.length_drop]
    omega
  · intro k hk
    rw [List.getElem?_take_of_lt hk, List.getElem?_drop]

/-- The new rows with the old ones at their start. -/
def copiedRows (pixels : List UInt8) (oldStride newStride : ℕ) (fresh : List UInt8) :
    List (List UInt8) :=
  List.zipWith (fun old new ↦ overwrite new 0 old) (chunksExact oldStride pixels)
    (chunksExact newStride fresh)

private theorem copyRows_eq : copyRows pixels oldStride newStride fresh =
    (copiedRows pixels oldStride newStride fresh).flatten ++
      fresh.drop ((copiedRows pixels oldStride newStride fresh).length * newStride) := rfl

section Copied

variable (hold : 0 < oldStride) (hstride : oldStride ≤ newStride)
  (hpixels : pixels.length = oldRows * oldStride) (hfresh : fresh.length = newRows * newStride)
  (hrows : oldRows ≤ newRows)

include hold hstride hpixels hfresh hrows

private theorem length_copiedRows :
    (copiedRows pixels oldStride newStride fresh).length = oldRows := by
  rw [copiedRows, List.length_zipWith, length_chunksExact hold hpixels,
    length_chunksExact (by omega) hfresh]
  omega

/-- A copied row has the length of a new one, and its bytes are of the old one first. -/
theorem getElem?_copiedRows (hi : i < oldRows) :
    ∃ row, (copiedRows pixels oldStride newStride fresh)[i]? = some row ∧
      row.length = newStride ∧ ∀ k < newStride, row[k]? =
        if k < oldStride then pixels[i * oldStride + k]? else fresh[i * newStride + k]? := by
  have ⟨old, hgetOld, hlenOld, hbytesOld⟩ := getElem?_chunksExact hold hpixels hi
  have ⟨new, hgetNew, hlenNew, hbytesNew⟩ :=
    getElem?_chunksExact (by omega) hfresh (Nat.lt_of_lt_of_le hi hrows)
  refine ⟨overwrite new 0 old, ?_, ?_, ?_⟩
  · rw [copiedRows, List.getElem?_zipWith, hgetOld, hgetNew]
  · rw [length_overwrite (by omega), hlenNew]
  · intro k hk
    rw [getElem?_overwrite (by omega), Nat.zero_add, hlenOld]
    by_cases hin : k < oldStride
    · rw [if_pos ⟨Nat.zero_le k, hin⟩, if_pos hin, Nat.sub_zero]
      exact hbytesOld k hin
    · rw [if_neg (fun h ↦ hin h.2), if_neg hin]
      exact hbytesNew k hk

private theorem length_of_mem_copiedRows :
    ∀ row ∈ copiedRows pixels oldStride newStride fresh, row.length = newStride := by
  intro row hmem
  have ⟨i, hi, hget⟩ := List.mem_iff_getElem.mp hmem
  have hlen := length_copiedRows hold hstride hpixels hfresh hrows
  have ⟨copied, hcopied, hlength, _⟩ :=
    getElem?_copiedRows (i := i) hold hstride hpixels hfresh hrows (by omega)
  rw [List.getElem?_eq_getElem hi, hget, Option.some.injEq] at hcopied
  rw [hcopied, hlength]

/-- The bytes of the old rows are at the start of the new ones. -/
theorem getElem?_copyRows (hk : k < newStride) :
    (copyRows pixels oldStride newStride fresh)[y * newStride + k]? =
      if y < oldRows ∧ k < oldStride then pixels[y * oldStride + k]?
      else fresh[y * newStride + k]? := by
  have hlengths := length_of_mem_copiedRows hold hstride hpixels hfresh hrows
  have hlen := length_copiedRows hold hstride hpixels hfresh hrows
  have hflat := length_flatten_rows hlengths
  rw [copyRows_eq]
  by_cases hy : y < oldRows
  · have hindex : y * newStride + k <
        (copiedRows pixels oldStride newStride fresh).flatten.length := by
      rw [hflat, hlen]
      calc y * newStride + k < (y + 1) * newStride := by
            rw [Nat.add_mul, Nat.one_mul]
            omega
        _ ≤ oldRows * newStride := Nat.mul_le_mul_right _ hy
    have ⟨row, hrow, _, hbytes⟩ :=
      getElem?_copiedRows hold hstride hpixels hfresh hrows hy
    rw [List.getElem?_append_left hindex, getElem?_flatten_rows hlengths hk, hrow,
      Option.bind_some, hbytes k hk]
    simp only [hy, true_and]
  · have hle : oldRows * newStride ≤ y * newStride := Nat.mul_le_mul_right _ (by omega)
    rw [List.getElem?_append_right (by rw [hflat, hlen]; omega), hflat, hlen,
      List.getElem?_drop, if_neg (fun h ↦ hy h.1)]
    congr 1
    omega

private theorem length_copyRows :
    (copyRows pixels oldStride newStride fresh).length = fresh.length := by
  have hlengths := length_of_mem_copiedRows hold hstride hpixels hfresh hrows
  have hle : oldRows * newStride ≤ newRows * newStride := Nat.mul_le_mul_right _ hrows
  rw [copyRows_eq, List.length_append, length_flatten_rows hlengths, List.length_drop,
    length_copiedRows hold hstride hpixels hfresh hrows]
  omega

end Copied
end Rows

/-! ### On a surface -/

/-- The pixel lies in the rectangle. -/
def GlyphAtlasEntry.Contains (entry : GlyphAtlasEntry) (x y : ℕ) : Prop :=
  (x, y) ∈ entry.rect.cells

theorem GlyphAtlasEntry.contains_iff {entry : GlyphAtlasEntry} {x y : ℕ} :
    entry.Contains x y ↔ (entry.x ≤ x ∧ x < entry.x + entry.width) ∧
      entry.y ≤ y ∧ y < entry.y + entry.height :=
  Rect.mem_cells

variable {width : ℕ}

/-- Where a row begins, as far as 32 bits count. -/
theorem BlitTarget.start_eq_some {y start : ℕ} {entry : GlyphAtlasEntry}
    (h : BlitTarget.start ⟨width, depth, entry⟩ y = some start) :
    start = ((entry.y + y) * width + entry.x) * depth := by
  simp only [BlitTarget.start, atlasPixelOffset, Option.bind_eq_some_iff, checkedAdd_eq_some,
    checkedMul_eq_some] at h
  obtain ⟨_, ⟨_, rfl⟩, _, ⟨_, ⟨_, rfl⟩, _, rfl⟩, _, rfl⟩ := h
  rfl

private theorem BlitTarget.start_eq_of_le {y : ℕ} {entry : GlyphAtlasEntry} (hdepth : 1 ≤ depth)
    (h : ((entry.y + y) * width + entry.x) * depth ≤ u32Max) (hrow : entry.y + y ≤ u32Max) :
    BlitTarget.start ⟨width, depth, entry⟩ y =
      some (((entry.y + y) * width + entry.x) * depth) := by
  have hpixel : (entry.y + y) * width + entry.x ≤ u32Max :=
    Nat.le_trans (Nat.le_mul_of_pos_right _ hdepth) h
  simp only [BlitTarget.start, atlasPixelOffset, Option.bind_eq_some_iff, checkedAdd_eq_some,
    checkedMul_eq_some]
  exact ⟨_, ⟨hrow, rfl⟩, _, ⟨_, ⟨by omega, rfl⟩, hpixel, rfl⟩, h, rfl⟩

namespace GlyphAtlas

variable {Key : Type}

/-- The surface is well formed and its bytes are there. -/
structure Sized (atlas : GlyphAtlas Key) : Prop where
  placed : atlas.Placed
  length : atlas.pixels.length = atlas.width * atlas.height * atlas.format.depth

/-- A byte of the surface. -/
def byte (atlas : GlyphAtlas Key) (x y c : ℕ) : Option UInt8 :=
  atlas.pixels[byteIndex atlas.width atlas.format.depth x y c]?

/-- A row of the entry that is painted hangs over the right edge of the surface. -/
def overhangs (atlas : GlyphAtlas Key) (entry : GlyphAtlasEntry) : Bool :=
  0 < entry.width && 0 < entry.height && atlas.width < entry.x + entry.width &&
    entry.y * atlas.width + entry.x + entry.width ≤ atlas.width * atlas.height

section Surface

variable {atlas after : GlyphAtlas Key} {entry : GlyphAtlasEntry} {source : BlitSource}
  {x y c : ℕ}

/-- The reader of single bytes reads them where they are. -/
theorem Sized.atlasPixelChannel_eq (h : atlas.Sized) :
    atlas.atlasPixelChannel x y c =
      if x < atlas.width ∧ y < atlas.height ∧ c < atlas.format.depth then atlas.byte x y c
      else none := by
  rw [atlasPixelChannel]
  split
  case isTrue hout => rw [if_neg (by omega)]
  case isFalse hin =>
    split
    case isTrue hchannel => rw [if_neg (by omega)]
    case isFalse hchannel =>
      have hdepth := atlas.format.depth_pos
      have hlt : byteIndex atlas.width atlas.format.depth x y c <
          atlas.width * atlas.height * atlas.format.depth :=
        byteIndex_lt (by omega) (by omega) (by omega)
      have hbytes := h.placed.bytes
      have hoffset : (y * atlas.width + x) * atlas.format.depth ≤ u32Max := by
        rw [byteIndex] at hlt
        omega
      have hpixel : y * atlas.width + x ≤ u32Max :=
        Nat.le_trans (Nat.le_mul_of_pos_right _ hdepth) hoffset
      have hsome : atlasPixelOffset x y atlas.width atlas.format.depth =
          some ((y * atlas.width + x) * atlas.format.depth) := by
        simp only [atlasPixelOffset, Option.bind_eq_some_iff, checkedAdd_eq_some,
          checkedMul_eq_some]
        exact ⟨_, ⟨_, ⟨by omega, rfl⟩, hpixel, rfl⟩, hoffset, rfl⟩
      rw [hsome, if_pos ⟨by omega, by omega, by omega⟩]
      rfl

/-- A reservation leaves the pixels as they are. -/
theorem SameSurface.sized (h : SameSurface atlas after) (hplaced : after.Placed)
    (hsized : atlas.Sized) : after.Sized where
  placed := hplaced
  length := by rw [h.pixels, h.width, h.height, h.format, hsized.length]

/-- The bytes of an atlas with the same surface. -/
theorem SameSurface.byte (h : SameSurface atlas after) (x y c : ℕ) :
    after.byte x y c = atlas.byte x y c := by
  rw [GlyphAtlas.byte, GlyphAtlas.byte, h.pixels, h.width, h.format]

/-- Painting keeps the sizes. -/
theorem Sized.blit (h : atlas.Sized) : (atlas.blit entry source).Sized where
  placed := h.placed.blit entry source
  length := length_blitPixelsFromSource.trans h.length

private theorem byte_blit : (atlas.blit entry source).byte x y c =
    (blitPixelsFromSource atlas.pixels ⟨atlas.width, atlas.format.depth, entry⟩ source)[
      byteIndex atlas.width atlas.format.depth x y c]? := rfl

/-- A row that does not hang over covers only bytes of its rectangle. -/
theorem Sized.contains_of_covers (h : atlas.Sized) (hin : atlas.overhangs entry = false)
    (hx : x < atlas.width) (hc : c < atlas.format.depth) {row : ℕ} (hrow : row < entry.height)
    (hcovers : BlitTarget.Covers ⟨atlas.width, atlas.format.depth, entry⟩ atlas.pixels.length
      (entry.width * atlas.format.depth) row
      (byteIndex atlas.width atlas.format.depth x y c)) : entry.Contains x y := by
  obtain ⟨start, hstart, hroom, hrun⟩ := hcovers
  have hdepth := atlas.format.depth_pos
  rw [BlitTarget.start_eq_some hstart] at hroom hrun
  have hpixels := (byteIndex_mem_iff hc).mp hrun
  have hfits : entry.x + entry.width ≤ atlas.width := by
    by_contra hover
    rw [h.length, ← Nat.add_mul] at hroom
    have hroom' := Nat.le_of_mul_le_mul_right hroom hdepth
    have hfirst : entry.y * atlas.width ≤ (entry.y + row) * atlas.width :=
      Nat.mul_le_mul_right _ (Nat.le_add_right _ _)
    simp only [overhangs, Bool.and_eq_false_imp, Bool.and_eq_true, decide_eq_true_eq,
      decide_eq_false_iff_not] at hin
    exact hin ⟨⟨by omega, by omega⟩, by omega⟩ (by omega)
  obtain ⟨hy, hlow, hhigh⟩ := (mem_rowRun_iff hx hfits).mp hpixels
  exact GlyphAtlasEntry.contains_iff.mpr ⟨⟨hlow, hhigh⟩, by omega, by omega⟩

/-- Painting changes nothing outside the rectangle. -/
theorem Sized.byte_blit_of_not_contains (h : atlas.Sized) (hin : atlas.overhangs entry = false)
    (hx : x < atlas.width) (hc : c < atlas.format.depth) (hout : ¬ entry.Contains x y) :
    (atlas.blit entry source).byte x y c = atlas.byte x y c := by
  rw [byte_blit, blitPixelsFromSource]
  split
  · rfl
  case h_2 rowBytes hrowBytes =>
    obtain ⟨_, hlen⟩ := (atlasByteLen_eq_some atlas.format.depth_pos).mp hrowBytes
    rw [Nat.mul_one] at hlen
    subst hlen
    apply getElem?_foldl_blitRow_of_not_covers
    intro row hrow hcovers
    exact hout (h.contains_of_covers hin hx hc (List.mem_range.mp hrow) hcovers)

/-- A row that is painted hangs over: the surface has room for it, and its bytes are cleared or
the source has them. -/
def spills (atlas : GlyphAtlas Key) (entry : GlyphAtlasEntry) (source : BlitSource) : Bool :=
  atlas.overhangs entry && (source.clearMissing ||
    (source.row atlas.format.depth (entry.width * atlas.format.depth) 0).isSome)

/-- Painting that does not spill changes nothing outside the rectangle. -/
theorem Sized.byte_blit_of_not_spills (h : atlas.Sized) (hin : atlas.spills entry source = false)
    (hx : x < atlas.width) (hc : c < atlas.format.depth) (hout : ¬ entry.Contains x y) :
    (atlas.blit entry source).byte x y c = atlas.byte x y c := by
  cases hover : atlas.overhangs entry with
  | false => exact h.byte_blit_of_not_contains hover hx hc hout
  | true =>
    rw [spills, hover, Bool.true_and, Bool.or_eq_false_iff] at hin
    obtain ⟨hclear, hfirst⟩ := hin
    rw [byte_blit, blitPixelsFromSource]
    split
    · rfl
    case h_2 rowBytes hrowBytes =>
      obtain ⟨_, hlen⟩ := (atlasByteLen_eq_some atlas.format.depth_pos).mp hrowBytes
      rw [Nat.mul_one] at hlen
      subst hlen
      rw [foldl_blitRow_of_missing hclear hfirst]
      rfl

/-- An entry inside the surface does not hang over. -/
theorem overhangs_eq_false (hin : entry.x + entry.width ≤ atlas.width) :
    atlas.overhangs entry = false := by
  simp only [overhangs, Bool.and_eq_false_imp, Bool.and_eq_true, decide_eq_true_eq,
    decide_eq_false_iff_not]
  omega

variable {j : ℕ}

/-- The rows of a raster that is as wide as its entry. -/
theorem row_ofEntry {alpha : List UInt8} (hdepth : 1 ≤ depth) (hwidth : 1 ≤ width)
    (hbytes : j * width * depth ≤ u32Max) :
    BlitSource.row ⟨alpha, width, 0, 0, false⟩ depth (width * depth) j =
      getRange alpha (j * width * depth) (width * depth) := by
  have hpixel : j * width ≤ u32Max := Nat.le_trans (Nat.le_mul_of_pos_right _ hdepth) hbytes
  have hrow : j ≤ u32Max := Nat.le_trans (Nat.le_mul_of_pos_right _ hwidth) hpixel
  have hadd : checkedAdd u32Max 0 j = some j := checkedAdd_eq_some.mpr ⟨by omega, by omega⟩
  have hoffset : atlasPixelOffset 0 j width depth = some (j * width * depth) := by
    simp only [atlasPixelOffset, Option.bind_eq_some_iff, checkedAdd_eq_some,
      checkedMul_eq_some]
    exact ⟨_, ⟨_, ⟨hpixel, rfl⟩, by omega, rfl⟩, hbytes, rfl⟩
  rw [BlitSource.row]
  dsimp only
  rw [hadd, Option.bind_some, hoffset, Option.bind_some]

/-- The bytes of a row of an entry inside the surface are there. -/
theorem Sized.row_inside (h : atlas.Sized) (hwidth : entry.x + entry.width ≤ atlas.width)
    (hheight : entry.y + entry.height ≤ atlas.height) (hj : j < entry.height) :
    ((entry.y + j) * atlas.width + entry.x) * atlas.format.depth +
        entry.width * atlas.format.depth ≤ atlas.pixels.length ∧
      BlitTarget.start ⟨atlas.width, atlas.format.depth, entry⟩ j =
        some (((entry.y + j) * atlas.width + entry.x) * atlas.format.depth) := by
  have hrow : (entry.y + j) * atlas.width + entry.x + entry.width ≤
      atlas.width * atlas.height := by
    calc (entry.y + j) * atlas.width + entry.x + entry.width
        ≤ (entry.y + j) * atlas.width + atlas.width := by omega
      _ = atlas.width * (entry.y + j + 1) := by ring
      _ ≤ atlas.width * atlas.height := Nat.mul_le_mul_left _ (by omega)
  have hroom := Nat.mul_le_mul_right atlas.format.depth hrow
  rw [Nat.add_mul] at hroom
  have hbytes := h.placed.bytes
  have hu32 := h.placed.isU32.2
  refine ⟨by rwa [h.length], BlitTarget.start_eq_of_le atlas.format.depth_pos ?_ ?_⟩ <;> omega

/-- A glyph that is painted inside the surface is there, byte by byte, as far as its raster has
the rows. -/
theorem Sized.byte_set (h : atlas.Sized) (hwidth : entry.x + entry.width ≤ atlas.width)
    (hheight : entry.y + entry.height ≤ atlas.height) {alpha : List UInt8} {i : ℕ}
    (hi : i < entry.width) (hj : j < entry.height) (hc : c < atlas.format.depth) :
    (atlas.set entry alpha).byte (entry.x + i) (entry.y + j) c =
      if (j + 1) * entry.width * atlas.format.depth ≤ alpha.length then
        alpha[(j * entry.width + i) * atlas.format.depth + c]?
      else atlas.byte (entry.x + i) (entry.y + j) c := by
  have hdepth := atlas.format.depth_pos
  have hbytes := h.placed.bytes
  have hrowBytes : atlasByteLen entry.width 1 atlas.format.depth =
      some (entry.width * atlas.format.depth) := by
    rw [atlasByteLen_eq_some hdepth, Nat.mul_one]
    refine ⟨Nat.le_trans (Nat.mul_le_mul_right _ ?_) hbytes, rfl⟩
    calc entry.width ≤ atlas.width := by omega
      _ ≤ atlas.width * atlas.height := Nat.le_mul_of_pos_right _ h.placed.height_pos
  have ⟨hroom, hstart⟩ := h.row_inside hwidth hheight hj
  have hcell : (entry.y + j) * atlas.width + entry.x ≤ (entry.y + j) * atlas.width + (entry.x + i) ∧
      (entry.y + j) * atlas.width + (entry.x + i) <
        (entry.y + j) * atlas.width + entry.x + entry.width := ⟨by omega, by omega⟩
  have hrun := (byteIndex_mem_iff hc).mpr hcell
  have hothers : ∀ row ∈ List.range entry.height, row ≠ j →
      ¬ BlitTarget.Covers ⟨atlas.width, atlas.format.depth, entry⟩ atlas.pixels.length
        (entry.width * atlas.format.depth) row
        (byteIndex atlas.width atlas.format.depth (entry.x + i) (entry.y + j) c) := by
    rintro row _ hne ⟨start, hstart', _, hrun'⟩
    rw [BlitTarget.start_eq_some hstart'] at hrun'
    have hrow := (mem_rowRun_iff (by omega) hwidth).mp ((byteIndex_mem_iff hc).mp hrun')
    exact hne (by omega)
  have hrows : (j + 1) * entry.width * atlas.format.depth =
      j * entry.width * atlas.format.depth + entry.width * atlas.format.depth := by ring
  have hinside : (j + 1) * entry.width ≤ atlas.width * atlas.height := by
    calc (j + 1) * entry.width ≤ atlas.height * atlas.width :=
          Nat.mul_le_mul (by omega) (by omega)
      _ = atlas.width * atlas.height := Nat.mul_comm _ _
  have hlast : (j + 1) * entry.width * atlas.format.depth ≤ u32Max :=
    Nat.le_trans (Nat.mul_le_mul_right _ hinside) hbytes
  have hsource : BlitSource.row ⟨alpha, entry.width, 0, 0, false⟩ atlas.format.depth
      (entry.width * atlas.format.depth) j =
      getRange alpha (j * entry.width * atlas.format.depth) (entry.width * atlas.format.depth) :=
    row_ofEntry hdepth (by omega) (by omega)
  have ⟨before, hlength, hbefore, hfold⟩ := exists_getElem?_foldl_blitRow
    ⟨alpha, entry.width, 0, 0, false⟩ List.nodup_range (List.mem_range.mpr hj) hothers
  have hoffset : byteIndex atlas.width atlas.format.depth (entry.x + i) (entry.y + j) c =
      ((entry.y + j) * atlas.width + entry.x) * atlas.format.depth +
        (i * atlas.format.depth + c) := by
    rw [byteIndex]
    ring
  rw [set, byte_blit, blitPixelsFromSource_eq hrowBytes, hfold,
    getElem?_blitRow_of_covers rfl hstart (by rwa [hlength]) hrun, hsource, getRange, hrows]
  have hwithin : i * atlas.format.depth + c < entry.width * atlas.format.depth := by omega
  by_cases hrow : j * entry.width * atlas.format.depth + entry.width * atlas.format.depth ≤
      alpha.length
  · rw [if_pos hrow, if_pos hrow]
    dsimp only
    rw [hoffset, Nat.add_sub_cancel_left, List.getElem?_take_of_lt hwithin, List.getElem?_drop]
    congr 1
    ring
  · rw [if_neg hrow, if_neg hrow]
    exact hbefore

/-! #### Growing and recycling -/

/-- What a resized surface shows. -/
theorem Sized.resize (h : atlas.Sized) {height : ℕ} (hwidth : atlas.width ≤ width)
    (hheight : atlas.height ≤ height) (hbytes : width * height * atlas.format.depth ≤ u32Max) :
    (atlas.resize width height (width * height * atlas.format.depth)
      (atlas.width * atlas.format.depth) (width * atlas.format.depth)).Sized ∧
    ∀ x y c, x < width → y < height → c < atlas.format.depth →
      (atlas.resize width height (width * height * atlas.format.depth)
        (atlas.width * atlas.format.depth) (width * atlas.format.depth)).byte x y c =
      if x < atlas.width ∧ y < atlas.height then atlas.byte x y c else some 0 := by
  have hdepth := atlas.format.depth_pos
  have hold : 0 < atlas.width * atlas.format.depth := Nat.mul_pos h.placed.width_pos hdepth
  have hstride : atlas.width * atlas.format.depth ≤ width * atlas.format.depth :=
    Nat.mul_le_mul_right _ hwidth
  have hpixels : atlas.pixels.length = atlas.height * (atlas.width * atlas.format.depth) := by
    rw [h.length]
    ring
  have hfresh : (List.replicate (width * height * atlas.format.depth) (0 : UInt8)).length =
      height * (width * atlas.format.depth) := by
    rw [List.length_replicate]
    ring
  constructor
  · refine ⟨h.placed.resize hwidth hheight hbytes, ?_⟩
    have hlength := length_copyRows hold hstride hpixels hfresh hheight
    rw [List.length_replicate] at hlength
    exact hlength
  · intro x y c hx hy hc
    have hsplit : ∀ width : ℕ, byteIndex width atlas.format.depth x y c =
        y * (width * atlas.format.depth) + (x * atlas.format.depth + c) := by
      intro width
      rw [byteIndex]
      ring
    have hlt := byteIndex_lt hx hy hc
    have hcolumn := (mul_add_lt_mul_iff hc).mpr hx
    show (copyRows _ _ _ _)[byteIndex width atlas.format.depth x y c]? = _
    rw [hsplit, getElem?_copyRows hold hstride hpixels hfresh hheight hcolumn, ← hsplit, ← hsplit,
      List.getElem?_replicate, if_pos hlt]
    by_cases hin : x < atlas.width ∧ y < atlas.height
    · rw [if_pos ⟨hin.2, (mul_add_lt_mul_iff hc).mpr hin.1⟩, if_pos hin]
      rfl
    · rw [if_neg hin, if_neg]
      exact fun hboth ↦ hin ⟨(mul_add_lt_mul_iff hc).mp hboth.2, hboth.1⟩

theorem Sized.recycle (h : atlas.Sized) : atlas.recycle.Sized where
  placed := h.placed.recycle
  length := by
    have hlength := h.length
    simp only [GlyphAtlas.recycle, touch, List.length_replicate]
    exact hlength

end Surface
end GlyphAtlas
end Bootty.Ui
