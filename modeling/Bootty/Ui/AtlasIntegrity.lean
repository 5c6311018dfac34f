import Bootty.Ui.AtlasInsertion
import Bootty.Ui.AtlasPixels

/-!
# The glyphs on the atlas stay as they were painted

Over runs of insertions, reservations, growth and recycling
(`crates/bootty-ui/src/terminal_text_atlas/atlas.rs:278–481, 512–571`) the pixels of the rectangle
of every key that is still present are those of its raster. Beside the atlas the model remembers
what was painted for each key.
-/

namespace Bootty.Ui

open Bootty.Base

namespace GlyphAtlas

variable {Key : Type}

/-- Both dimensions are within the cap. -/
def withinCap (atlas : GlyphAtlas Key) : Bool :=
  atlas.width ≤ maxAtlasDim && atlas.height ≤ maxAtlasDim

/-- The pixels of the rectangle are those of the raster, which a glyph without pixels lacks. -/
structure Shows (atlas : GlyphAtlas Key) (entry : GlyphAtlasEntry) (raster : GlyphRaster) :
    Prop where
  width : entry.width = max raster.width 1
  height : entry.height = max raster.height 1
  pixels : ∀ i j c, i < entry.width → j < entry.height → c < atlas.format.depth →
    atlas.atlasPixelChannel (entry.x + i) (entry.y + j) c =
      some (raster.pixels.getD ((j * entry.width + i) * atlas.format.depth + c) 0)

end GlyphAtlas

/-- What was painted when a key was inserted, and whether the atlas was within the cap then. -/
structure Painting where
  raster : GlyphRaster
  record : GlyphAtlasRecord
  withinCap : Bool

/-- The glyph and its border fit a surface of the largest size. -/
def Painting.FitsCap (painting : Painting) : Prop :=
  max painting.raster.width 1 + 2 ≤ maxAtlasDim ∧ max painting.raster.height 1 + 2 ≤ maxAtlasDim

/-- An atlas and what was painted on it. -/
structure PaintedAtlas (Key : Type) where
  atlas : GlyphAtlas Key
  painted : Key → Option Painting

namespace PaintedAtlas

variable {Key : Type} [DecidableEq Key]

/-- A call, which paints where it inserts a key that is absent. -/
def step (state : PaintedAtlas Key) : AtlasCall Key → Option (PaintedAtlas Key)
  | .insert fuel key raster =>
    (state.atlas.insertOrGetRaster fuel key raster).map fun inserted ↦
      { atlas := inserted.2
        painted :=
          if (state.atlas.entries.lookup key).isSome then state.painted
          else Function.update state.painted key
            (some ⟨raster, inserted.1, state.atlas.withinCap⟩) }
  | call => (state.atlas.call call).map fun atlas ↦ { state with atlas }

/-- Rasters come with their bytes, and nothing is painted but glyphs. -/
def Allowed (state : PaintedAtlas Key) : AtlasCall Key → Prop
  | .insert _ _ raster =>
    raster.pixels.length = raster.width * raster.height * state.atlas.format.depth
  | .set _ _ => False
  | .setFromLarger _ _ _ _ _ => False
  | _ => True

/-- Whether a call is allowed is decidable. -/
instance (state : PaintedAtlas Key) (call : AtlasCall Key) : Decidable (state.Allowed call) :=
  match call with
  | .insert _ _ _ => inferInstanceAs (Decidable (_ = _))
  | .set _ _ | .setFromLarger _ _ _ _ _ => inferInstanceAs (Decidable False)
  | .reserve _ _ | .grow _ _ _ | .recycle => inferInstanceAs (Decidable True)

end PaintedAtlas

namespace GlyphAtlas

variable {Key : Type}

section Frame

variable {atlas after : GlyphAtlas Key} {entry : GlyphAtlasEntry} {raster : GlyphRaster}
  {x y c : ℕ}

/-- Inside the surface the reader of single bytes reads them. -/
theorem Sized.atlasPixelChannel_of_lt (h : atlas.Sized) (hx : x < atlas.width)
    (hy : y < atlas.height) (hc : c < atlas.format.depth) :
    atlas.atlasPixelChannel x y c = atlas.byte x y c := by
  rw [h.atlasPixelChannel_eq, if_pos ⟨hx, hy, hc⟩]

/-- What is shown stays where the bytes stay. -/
theorem Shows.frame (h : atlas.Shows entry raster) (hsized : atlas.Sized) (hafter : after.Sized)
    (hwidth : entry.x + entry.width ≤ atlas.width)
    (hheight : entry.y + entry.height ≤ atlas.height) (hw : atlas.width ≤ after.width)
    (hh : atlas.height ≤ after.height) (hformat : after.format = atlas.format)
    (hbytes : ∀ x y c, entry.Contains x y → c < atlas.format.depth →
      after.byte x y c = atlas.byte x y c) : after.Shows entry raster where
  width := h.width
  height := h.height
  pixels := by
    intro i j c hi hj hc
    rw [hformat] at hc ⊢
    have hcontains : entry.Contains (entry.x + i) (entry.y + j) :=
      GlyphAtlasEntry.contains_iff.mpr ⟨⟨by omega, by omega⟩, by omega, by omega⟩
    rw [← h.pixels i j c hi hj hc, hafter.atlasPixelChannel_of_lt (by omega) (by omega)
      (by rwa [hformat]), hsized.atlasPixelChannel_of_lt (by omega) (by omega) hc]
    exact hbytes _ _ c hcontains hc

/-- Rectangles that do not overlap have no pixel in common. -/
theorem not_contains_of_not_overlaps {other : GlyphAtlasEntry}
    (h : ¬ other.rect.Overlaps entry.rect) (hother : other.Contains x y) : ¬ entry.Contains x y :=
  fun hentry ↦ h (Rect.overlaps_of_mem_cells hother hentry)

end Frame

/-- Every glyph that fits is on the surface as it was painted, in a rectangle of its own; the other
pixels are empty, up to the first one. -/
structure Intact (painted : Key → Option Painting) [DecidableEq Key] (atlas : GlyphAtlas Key) :
    Prop where
  sized : atlas.Sized
  blank : ∀ x y c, x < atlas.width → y < atlas.height → c < atlas.format.depth →
    (1 ≤ x ∨ 1 ≤ y) → (∀ used ∈ atlas.allocations, ¬ used.Contains x y) →
    atlas.byte x y c = some 0
  kept : ∀ key record, atlas.entries.lookup key = some record →
    ∃ painting, painted key = some painting ∧ painting.record = record ∧
      (record.entry ∈ atlas.allocations ∧ atlas.Shows record.entry painting.raster ∨
        record.entry = ⟨0, 0, 1, 1⟩ ∧ ¬ (painting.withinCap = true ∧ painting.FitsCap))

section Intact

variable [DecidableEq Key] {painted : Key → Option Painting} {atlas after : GlyphAtlas Key}

private theorem Intact.placed (h : Intact painted atlas) : atlas.Placed := h.sized.placed

private theorem Intact.reserve (h : Intact painted atlas) (width height : ℕ) :
    Intact painted (atlas.reserve width height).2 := by
  have hspec := h.placed.reserve width height
  have hsurface := hspec.surface
  have hsized := hsurface.sized hspec.placed h.sized
  refine ⟨hsized, ?_, ?_⟩
  · intro x y c hx hy hc hfirst hout
    rw [hsurface.width] at hx
    rw [hsurface.height] at hy
    rw [hsurface.format] at hc
    rw [hsurface.byte]
    apply h.blank x y c hx hy hc hfirst
    intro used hused
    apply hout used
    rw [hspec.allocations]
    exact List.mem_append_left _ hused
  · intro key record hlookup
    rw [hsurface.entries] at hlookup
    have ⟨painting, hpainting, hrecord, hkept⟩ := h.kept key record hlookup
    refine ⟨painting, hpainting, hrecord, hkept.imp_left ?_⟩
    rintro ⟨hmem, hshows⟩
    have ⟨_, _, hright, hbottom⟩ := h.placed.packed.inside _ hmem
    constructor
    · rw [hspec.allocations]
      exact List.mem_append_left _ hmem
    · apply hshows.frame h.sized hsized (by omega) (by omega) hsurface.width.ge
        hsurface.height.ge hsurface.format
      intro x y c _ _
      exact hsurface.byte x y c

private theorem Intact.tryGrow (h : Intact painted atlas) {width height byteLimit : ℕ}
    (hgrow : atlas.tryGrowWithByteLimit width height byteLimit = .ok after) :
    Intact painted after := by
  rcases tryGrowWithByteLimit_eq_ok hgrow with ⟨_, rfl⟩ | ⟨_, hbytes, heq⟩
  · exact h
  have hw : atlas.width ≤ max width atlas.width := Nat.le_max_right _ _
  have hh : atlas.height ≤ max height atlas.height := Nat.le_max_right _ _
  have ⟨hsized, hresized⟩ := h.sized.resize hw hh hbytes
  rw [← heq] at hsized hresized
  have hwidth : after.width = max width atlas.width := by rw [heq]; rfl
  have hheight : after.height = max height atlas.height := by rw [heq]; rfl
  have hformat : after.format = atlas.format := by rw [heq]; rfl
  have hallocations : after.allocations = atlas.allocations := by rw [heq]; rfl
  have hentries : after.entries = atlas.entries := by rw [heq]; rfl
  refine ⟨hsized, ?_, ?_⟩
  · intro x y c hx hy hc hfirst hout
    rw [hallocations] at hout
    rw [hwidth] at hx
    rw [hheight] at hy
    rw [hformat] at hc
    rw [hresized x y c hx hy hc]
    split
    case isTrue hin => exact h.blank x y c hin.1 hin.2 hc hfirst hout
    case isFalse => rfl
  · intro key record hlookup
    rw [hentries] at hlookup
    have ⟨painting, hpainting, hrecord, hkept⟩ := h.kept key record hlookup
    refine ⟨painting, hpainting, hrecord, hkept.imp_left ?_⟩
    rintro ⟨hmem, hshows⟩
    have ⟨_, _, hright, hbottom⟩ := h.placed.packed.inside _ hmem
    constructor
    · rwa [hallocations]
    · apply hshows.frame h.sized hsized (by omega) (by omega) (by omega) (by omega) hformat
      intro x y c hcontains hc
      have ⟨⟨_, hx⟩, _, hy⟩ := GlyphAtlasEntry.contains_iff.mp hcontains
      rw [hresized x y c (by omega) (by omega) hc, if_pos ⟨by omega, by omega⟩]

private theorem Intact.recycle (h : Intact painted atlas) : Intact painted atlas.recycle := by
  refine ⟨h.sized.recycle, ?_, nofun⟩
  intro x y c hx hy hc _ _
  have hlt := byteIndex_lt hx hy hc
  have hlength := h.sized.recycle.length
  rw [← hlength] at hlt
  rw [byte, List.getElem?_eq_getElem hlt]
  exact congrArg some (List.getElem_replicate _)

/-- A glyph is painted over pixels that are empty, or over the first one. -/
theorem Intact.set (h : Intact painted atlas) {entry : GlyphAtlasEntry} {alpha : List UInt8}
    (hinside : entry.x + entry.width ≤ atlas.width)
    (hblank : ∀ x y c, x < atlas.width → y < atlas.height → c < atlas.format.depth →
      (1 ≤ x ∨ 1 ≤ y) → (∀ used ∈ atlas.allocations, ¬ used.Contains x y) →
      ¬ entry.Contains x y)
    (hapart : ∀ key record, atlas.entries.lookup key = some record →
      record.entry ∈ atlas.allocations → ∀ x y, record.entry.Contains x y →
      ¬ entry.Contains x y) : Intact painted (atlas.set entry alpha) := by
  have hsized : (atlas.set entry alpha).Sized := h.sized.blit
  have hbyte : ∀ x y c, x < atlas.width → c < atlas.format.depth → ¬ entry.Contains x y →
      (atlas.set entry alpha).byte x y c = atlas.byte x y c := fun _ _ _ hx hc hout ↦
    h.sized.byte_blit_of_not_contains (overhangs_eq_false hinside) hx hc hout
  refine ⟨hsized, ?_, ?_⟩
  · intro x y c hx hy hc hfirst hout
    rw [hbyte x y c hx hc (hblank x y c hx hy hc hfirst hout)]
    exact h.blank x y c hx hy hc hfirst hout
  · intro key record hlookup
    have ⟨painting, hpainting, hrecord, hkept⟩ := h.kept key record hlookup
    refine ⟨painting, hpainting, hrecord, hkept.imp_left ?_⟩
    rintro ⟨hmem, hshows⟩
    have ⟨_, _, hright, hbottom⟩ := h.placed.packed.inside _ hmem
    refine ⟨hmem, hshows.frame h.sized hsized (by omega) (by omega) (Nat.le_refl _)
      (Nat.le_refl _) rfl ?_⟩
    intro x y c hcontains hc
    have ⟨⟨_, hx⟩, _, hy⟩ := GlyphAtlasEntry.contains_iff.mp hcontains
    exact hbyte x y c (by omega) hc (hapart key record hlookup hmem x y hcontains)

/-- A record of what is on the surface. -/
theorem Intact.record (h : Intact painted atlas) {key : Key} (painting : Painting)
    (hkept : painting.record.entry ∈ atlas.allocations ∧
        atlas.Shows painting.record.entry painting.raster ∨
      painting.record.entry = ⟨0, 0, 1, 1⟩ ∧ ¬ (painting.withinCap = true ∧ painting.FitsCap)) :
    Intact (Function.update painted key (some painting))
      { atlas with entries := (key, painting.record) :: atlas.entries } := by
  have hsized : Sized { atlas with entries := (key, painting.record) :: atlas.entries } :=
    ⟨⟨h.placed.width_pos, h.placed.height_pos, h.placed.bytes,
      ⟨h.placed.packed.inside, h.placed.packed.disjoint⟩, h.placed.shelf, h.placed.memo⟩,
      h.sized.length⟩
  have hsame : ∀ entry raster, atlas.Shows entry raster →
      Shows { atlas with entries := (key, painting.record) :: atlas.entries } entry raster :=
    fun _ _ hshows ↦ ⟨hshows.width, hshows.height, hshows.pixels⟩
  refine ⟨hsized, h.blank, ?_⟩
  intro other record hlookup
  dsimp only at hlookup
  by_cases hother : other = key
  · subst hother
    rw [List.lookup_cons_self, Option.some.injEq] at hlookup
    subst hlookup
    refine ⟨painting, Function.update_self .., rfl, hkept.imp_left ?_⟩
    exact fun hshown ↦ ⟨hshown.1, hsame _ _ hshown.2⟩
  · rw [List.lookup_cons, beq_eq_false_iff_ne.mpr hother] at hlookup
    have ⟨before, hbefore, hrecord, hkept'⟩ := h.kept other record hlookup
    refine ⟨before, ?_, hrecord, hkept'.imp_left ?_⟩
    · rw [Function.update_of_ne hother, hbefore]
    · exact fun hshown ↦ ⟨hshown.1, hsame _ _ hshown.2⟩

/-! ### Painting a glyph -/

/-- What holds while a glyph is inserted: besides, an atlas within the cap stays there. -/
structure Inserting (painted : Key → Option Painting) (format : GlyphAtlasFormat)
    (within : Bool) (atlas : GlyphAtlas Key) : Prop where
  intact : Intact painted atlas
  format_eq : atlas.format = format
  cap : within = true → atlas.width ≤ maxAtlasDim ∧ atlas.height ≤ maxAtlasDim

variable {format : GlyphAtlasFormat} {within : Bool} {width height : ℕ}

private theorem Inserting.placed (h : Inserting painted format within atlas) : atlas.Placed :=
  h.intact.placed

private theorem Inserting.reserve (h : Inserting painted format within atlas) (width height : ℕ) :
    Inserting painted format within (atlas.reserve width height).2 := by
  have hsurface := (h.placed.reserve width height).surface
  refine ⟨h.intact.reserve width height, hsurface.format.trans h.format_eq, ?_⟩
  rw [hsurface.width, hsurface.height]
  exact h.cap

private theorem Inserting.growForGlyph (h : Inserting painted format within atlas)
    (hgrow : atlas.growForGlyph width height = (true, after)) :
    Inserting painted format within after := by
  have hgrew := grew_of_growForGlyph hgrow
  refine ⟨h.intact.tryGrow (growForGlyph_true hgrow), hgrew.format.trans h.format_eq, ?_⟩
  intro hwithin
  have ⟨hw, hh⟩ := h.cap hwithin
  have htarget := targetWidth_eq h.placed.isU32 width
  have ⟨htarget', _⟩ := targetHeight_cases h.placed height
  rw [hgrew.width, hgrew.height]
  omega

private theorem Inserting.recycle (h : Inserting painted format within atlas) :
    Inserting painted format within atlas.recycle :=
  ⟨h.intact.recycle, h.format_eq, h.cap⟩

/-- Within the cap a glyph that fits it has a place in the end. -/
theorem Inserting.fits_of_growForGlyph (h : Inserting painted format true atlas)
    (hwidth : width + 2 ≤ maxAtlasDim) (hheight : height + 2 ≤ maxAtlasDim)
    (hgrow : atlas.growForGlyph width height = (false, after)) :
    atlas.fits width height = true := by
  have ⟨hw, hh⟩ := h.cap rfl
  have htarget := targetWidth_eq h.placed.isU32 width
  have ⟨hcap, hlow, hhigh⟩ := targetHeight_cases h.placed height
  have hbytes : max (atlas.targetWidth width) atlas.width *
      max (atlas.targetHeight height) atlas.height * atlas.format.depth ≤ u32Max := by
    have hdepth : atlas.format.depth ≤ 4 := by cases atlas.format <;> decide
    calc max (atlas.targetWidth width) atlas.width * max (atlas.targetHeight height) atlas.height *
          atlas.format.depth
        ≤ maxAtlasDim * maxAtlasDim * 4 :=
          Nat.mul_le_mul (Nat.mul_le_mul (by omega) (by omega)) hdepth
      _ ≤ u32Max := by decide
  have ⟨grown, hok⟩ := h.placed.grow_isOk hbytes
  have htargets : atlas.targetWidth width = atlas.width ∧
      atlas.targetHeight height = atlas.height := by
    by_contra hne
    rw [GlyphAtlas.growForGlyph, if_neg hne, hok] at hgrow
    cases (Prod.mk.inj hgrow).1
  rw [h.placed.fits_iff]
  omega

/-- The bytes of a raster in the rows of its rectangle. -/
theorem getElem?_raster {raster : GlyphRaster} {depth i j c : ℕ}
    (hpixels : raster.pixels.length = raster.width * raster.height * depth)
    (hi : i < max raster.width 1) (hj : j < max raster.height 1) (hc : c < depth) :
    (if (j + 1) * max raster.width 1 * depth ≤ raster.pixels.length then
        raster.pixels[(j * max raster.width 1 + i) * depth + c]?
      else some 0) =
      some (raster.pixels.getD ((j * max raster.width 1 + i) * depth + c) 0) := by
  rw [List.getD_eq_getElem?_getD]
  by_cases hempty : raster.pixels = []
  · rw [hempty, List.getElem?_nil, Option.getD_none]
    have hrow : 0 < (j + 1) * max raster.width 1 * depth :=
      Nat.mul_pos (Nat.mul_pos (Nat.succ_pos j) (by omega)) (by omega)
    rw [List.length_nil, if_neg (Nat.not_le.mpr hrow)]
  · have hpos := List.length_pos_iff.mpr hempty
    rw [hpixels] at hpos
    have hwidth : max raster.width 1 = raster.width :=
      Nat.max_eq_left (Nat.pos_of_mul_pos_right (Nat.pos_of_mul_pos_right hpos))
    have hheight : max raster.height 1 = raster.height :=
      Nat.max_eq_left (Nat.pos_of_mul_pos_left (Nat.pos_of_mul_pos_right hpos))
    rw [hwidth] at hi ⊢
    rw [hheight] at hj
    have hlt := byteIndex_lt hi hj hc
    rw [byteIndex, ← hpixels] at hlt
    have hrows : (j + 1) * raster.width * depth ≤ raster.pixels.length := by
      rw [hpixels, Nat.mul_comm raster.width]
      exact Nat.mul_le_mul_right _ (Nat.mul_le_mul_right _ hj)
    rw [if_pos hrows, List.getElem?_eq_getElem hlt, Option.getD_some]

/-- A glyph that has a place is on the surface, the others stay. -/
theorem Inserting.paint_place {base : GlyphAtlas Key} {entry : GlyphAtlasEntry}
    {raster : GlyphRaster} (h : Inserting painted format within atlas)
    (hpixels : raster.pixels.length = raster.width * raster.height * format.depth)
    (hplace : atlas.reserve (max raster.width 1) (max raster.height 1) = (some entry, base)) :
    Intact painted (base.set entry raster.pixels) ∧
      entry ∈ base.allocations ∧ (base.set entry raster.pixels).Shows entry raster := by
  have hbase := h.intact.reserve (max raster.width 1) (max raster.height 1)
  have hspec := h.placed.reserve (max raster.width 1) (max raster.height 1)
  rw [hplace] at hbase hspec
  dsimp only at hbase hspec
  rw [Nat.max_eq_left (Nat.le_max_right _ 1), Nat.max_eq_left (Nat.le_max_right _ 1)] at hspec
  have hsurface := hspec.surface
  have ⟨hwidth, hheight, hfree⟩ := hspec.free entry rfl
  have hmem : entry ∈ base.allocations := by
    rw [hspec.allocations]
    exact List.mem_append_right _ (List.mem_singleton_self _)
  have ⟨hx, hy, hright, hbottom⟩ := hbase.placed.packed.inside entry hmem
  have hclear : ∀ used ∈ atlas.allocations, ∀ x y, used.Contains x y → ¬ entry.Contains x y := by
    intro used hused x y
    apply not_contains_of_not_overlaps
    have hapart := hfree.clear _ (List.mem_map_of_mem hused)
    rw [← hwidth, ← hheight] at hapart
    exact hapart
  have hset : Intact painted (base.set entry raster.pixels) := by
    apply hbase.set (by omega)
    · intro x y c _ _ _ _ hout
      exact hout entry hmem
    · intro key record hlookup hin x y hcontains
      rw [hsurface.entries] at hlookup
      have ⟨_, _, _, hkept⟩ := h.intact.kept key record hlookup
      rcases hkept with ⟨hbefore, _⟩ | ⟨hfallback, _⟩
      · exact hclear _ hbefore x y hcontains
      · have hcorner := hbase.placed.packed.inside _ hin
        rw [hfallback] at hcorner
        exact absurd hcorner.1 (by decide)
  refine ⟨hset, hmem, hwidth, hheight, ?_⟩
  intro i j c hi hj hc
  have hc' : c < base.format.depth := hc
  have hblank : base.byte (entry.x + i) (entry.y + j) c = some 0 := by
    rw [hsurface.byte]
    rw [hsurface.width] at hright
    rw [hsurface.height] at hbottom
    rw [hsurface.format] at hc'
    apply h.intact.blank _ _ _ (by omega) (by omega) hc' (by omega)
    intro used hused hcontains
    exact hclear used hused _ _ hcontains
      (GlyphAtlasEntry.contains_iff.mpr ⟨⟨by omega, by omega⟩, by omega, by omega⟩)
  have hchannel : (base.set entry raster.pixels).atlasPixelChannel (entry.x + i) (entry.y + j) c =
      (base.set entry raster.pixels).byte (entry.x + i) (entry.y + j) c :=
    hset.sized.atlasPixelChannel_of_lt (show _ < base.width by omega)
      (show _ < base.height by omega) hc
  have hformat : base.format = format := hsurface.format.trans h.format_eq
  have hformat' : (base.set entry raster.pixels).format = base.format := rfl
  rw [hchannel, hbase.sized.byte_set (by omega) (by omega) hi hj hc', hblank, hformat', hwidth]
  rw [hwidth] at hi
  rw [hheight] at hj
  rw [hformat] at hc' ⊢
  exact getElem?_raster hpixels hi hj hc'

private theorem contains_firstPixel {x y : ℕ} :
    GlyphAtlasEntry.Contains ⟨0, 0, 1, 1⟩ x y ↔ x = 0 ∧ y = 0 := by
  simp only [GlyphAtlasEntry.contains_iff]
  omega

/-- A glyph without a place is painted on the first pixel, which no other one has. -/
theorem Intact.paint_fallback (h : Intact painted atlas) (alpha : List UInt8) :
    Intact painted (atlas.set ⟨0, 0, 1, 1⟩ alpha) := by
  apply h.set (Nat.le_trans (Nat.le_refl 1) h.placed.width_pos)
  · intro x y c _ _ _ hfirst _ hcontains
    have ⟨hx, hy⟩ := contains_firstPixel.mp hcontains
    omega
  · intro key record _ hmem x y hcontains hcorner
    have ⟨hx, _⟩ := h.placed.packed.inside _ hmem
    have ⟨⟨hx', _⟩, _⟩ := GlyphAtlasEntry.contains_iff.mp hcontains
    have ⟨hx'', _⟩ := contains_firstPixel.mp hcorner
    omega

/-- What is painted for a glyph that was absent. -/
theorem Intact.insert_absent (h : Intact painted atlas) {fuel : ℕ} {key : Key}
    {raster : GlyphRaster} {record : GlyphAtlasRecord}
    (hpixels : raster.pixels.length = raster.width * raster.height * atlas.format.depth)
    (habsent : atlas.entries.lookup key = none)
    (hinsert : atlas.insertOrGetRaster fuel key raster = some (record, after)) :
    Intact (Function.update painted key (some ⟨raster, record, atlas.withinCap⟩)) after := by
  have hinserting : Inserting painted atlas.format atlas.withinCap atlas := by
    refine ⟨h, rfl, fun hwithin ↦ ?_⟩
    simpa only [withinCap, Bool.and_eq_true, decide_eq_true_eq] using hwithin
  have ⟨base, entry, hpainted, hrecord, hafter⟩ := insertOrGetRaster_of_absent
    (fun _ h ↦ h.placed) (fun _ width height h ↦ h.reserve width height)
    (fun _ _ _ _ h hgrow ↦ h.growForGlyph hgrow) (fun _ h ↦ h.recycle)
    hinserting habsent hinsert
  have hentry : record.entry = entry := by rw [hrecord]
  have hbase := hpainted.keeps fun _ h ↦ h.reserve _ _
  rw [hafter]
  cases hpainted with
  | place hlast hplace =>
    have ⟨hset, hmem, hshows⟩ := hlast.paint_place hpixels hplace
    rw [← hentry] at hset hmem hshows ⊢
    exact hset.record ⟨raster, record, atlas.withinCap⟩ (.inl ⟨hmem, hshows⟩)
  | @fallback last failed _ hlast hfailed hgrow hfits =>
    have hset := hbase.intact.paint_fallback raster.pixels
    rw [← hentry] at hset ⊢
    refine hset.record ⟨raster, record, atlas.withinCap⟩ (.inr ⟨hentry, ?_⟩)
    rintro ⟨hwithin, hwidth, hheight⟩
    dsimp only at hwithin
    have hfailed' := hlast.reserve (max raster.width 1) (max raster.height 1)
    rw [hfailed, hwithin] at hfailed'
    have hroom := hfailed'.fits_of_growForGlyph hwidth hheight hgrow
    rw [growForGlyph_false hgrow] at hfits
    rw [hfits] at hroom
    cases hroom

private theorem Constructible.intact (h : atlas.Constructible) : Intact (fun _ ↦ none) atlas := by
  have hplaced := h.placed
  have ⟨width, height, format, byteLimit, hok⟩ := h
  have ⟨hfit, heq⟩ := tryWithFormat_eq_ok hok
  subst heq
  refine ⟨⟨hplaced, List.length_replicate⟩, ?_, nofun⟩
  intro x y c hx hy hc _ _
  have hlt := byteIndex_lt hx hy hc
  rw [byte]
  exact (List.getElem?_replicate).trans (if_pos hlt)

end Intact
end GlyphAtlas

namespace PaintedAtlas

variable {Key : Type} [DecidableEq Key] {state after : PaintedAtlas Key}

/-- A call keeps every glyph that it leaves on the surface. -/
theorem intact_step (h : state.atlas.Intact state.painted) {call : AtlasCall Key}
    (hallowed : state.Allowed call) (hstep : state.step call = some after) :
    after.atlas.Intact after.painted := by
  cases call with
  | insert fuel key raster =>
    have ⟨⟨record, atlas⟩, hinsert, heq⟩ := Option.map_eq_some_iff.mp hstep
    subst heq
    cases hlookup : state.atlas.entries.lookup key with
    | some present =>
      rw [GlyphAtlas.insertOrGetRaster_of_present hlookup] at hinsert
      obtain ⟨_, rfl⟩ := Prod.mk.inj (Option.some.inj hinsert)
      exact h
    | none => exact h.insert_absent hallowed hlookup hinsert
  | reserve width height =>
    rw [← Option.some.inj hstep]
    exact h.reserve width height
  | set entry alpha => exact hallowed.elim
  | setFromLarger entry alpha sourceWidth sourceX sourceY => exact hallowed.elim
  | grow width height byteLimit =>
    have ⟨atlas, hcall, heq⟩ := Option.map_eq_some_iff.mp hstep
    subst heq
    rw [GlyphAtlas.call] at hcall
    split at hcall
    case h_1 grown hgrow =>
      rw [← Option.some.inj hcall]
      exact h.tryGrow hgrow
    case h_2 =>
      rw [← Option.some.inj hcall]
      exact h
  | recycle =>
    rw [← Option.some.inj hstep]
    exact h.recycle

/-- What is reserved does not overlap, the bytes are there, and every key that is present has the
record of its insertion and its glyph on the surface, or the fallback where the glyph had no place
beyond the cap or does not fit it. -/
theorem intact_of_reaches {init : GlyphAtlas Key} (hinit : init.Constructible)
    (hrun : Reaches step Allowed ⟨init, fun _ ↦ none⟩ state) :
    state.atlas.Packed ∧
    state.atlas.pixels.length =
      state.atlas.width * state.atlas.height * state.atlas.format.depth ∧
    ∀ key record, state.atlas.entries.lookup key = some record →
      (∀ fuel raster,
        state.atlas.insertOrGetRaster fuel key raster = some (record, state.atlas)) ∧
      ∃ painting, state.painted key = some painting ∧ painting.record = record ∧
        (record.entry ∈ state.atlas.allocations ∧ state.atlas.Shows record.entry painting.raster ∨
          record.entry = ⟨0, 0, 1, 1⟩ ∧ ¬ (painting.withinCap = true ∧ painting.FitsCap)) := by
  have hintact : state.atlas.Intact state.painted :=
    hrun.invariant (I := fun state ↦ state.atlas.Intact state.painted) hinit.intact
      fun _ _ _ h hallowed hstep ↦ intact_step h hallowed hstep
  refine ⟨hintact.placed.packed, hintact.sized.length, fun key record hlookup ↦ ?_⟩
  exact ⟨fun _ _ ↦ GlyphAtlas.insertOrGetRaster_of_present hlookup, hintact.kept key record hlookup⟩

/-- A glyph of one pixel. -/
private def dot : GlyphRaster := ⟨[7], false, 1, 1, (0, 0)⟩

/-- A glyph painted after the atlas was recycled stays where it is while a larger one makes the
surface grow. -/
theorem intact_of_reaches_sample :
    ∃ state : PaintedAtlas ℕ, 4 < state.atlas.width ∧ state.atlas.Packed ∧ ∃ record,
      state.atlas.entries.lookup 0 = some record ∧ record.entry ∈ state.atlas.allocations ∧
      state.atlas.Shows record.entry dot := by
  have hinit : (GlyphAtlas.fromPixels 4 4 .alpha (.replicate 16 0) : GlyphAtlas ℕ).Constructible :=
    ⟨4, 4, .alpha, 16, rfl⟩
  obtain ⟨state, hrun, hgoal⟩ := exists_reaches_of_runEvents
    (fun _ _ htest ↦ of_decide_eq_true htest)
    (show (runEvents step (fun state call ↦ decide (state.Allowed call))
      ⟨GlyphAtlas.fromPixels 4 4 .alpha (.replicate 16 0), fun _ : ℕ ↦ none⟩
      [.insert 0 1 dot, .recycle, .insert 0 0 dot,
        .insert 2 1 ⟨[1, 2, 3, 4, 5, 6], false, 3, 2, (0, 0)⟩]).map (fun state ↦
          decide (4 < state.atlas.width) && (state.atlas.entries.lookup 0).isSome &&
            decide ((state.painted 0).map (fun painting ↦ (painting.raster, painting.withinCap)) =
              some (dot, true))) = some true by decide +kernel)
  simp only [Bool.and_eq_true, decide_eq_true_eq, Option.isSome_iff_exists,
    Option.map_eq_some_iff, Prod.mk.injEq] at hgoal
  obtain ⟨⟨hwidth, record, hlookup⟩, painting, hpainting, hraster, hwithin⟩ := hgoal
  have ⟨hpacked, _, hpresent⟩ := intact_of_reaches hinit hrun
  have ⟨_, painting', hpainting', _, hkept⟩ := hpresent 0 record hlookup
  obtain rfl := Option.some.inj (hpainting.symm.trans hpainting')
  have hfits : painting.FitsCap := by
    rw [Painting.FitsCap, hraster]
    decide
  rcases hkept with ⟨hmem, hshows⟩ | ⟨_, hnot⟩
  · rw [hraster] at hshows
    exact ⟨state, hwidth, hpacked, record, hlookup, hmem, hshows⟩
  · exact absurd ⟨hwithin, hfits⟩ hnot

/-- A surface of one row, as wide as no insertion makes it. -/
private def longAtlas : PaintedAtlas ℕ where
  atlas := (GlyphAtlas.fromPixels 1 1 .rgba (.replicate 4 0)).resize (2 ^ 18) 1 (2 ^ 20) 4 (2 ^ 20)
  painted _ := none

/-- A glyph of 4094 rows. -/
private def tallRaster : GlyphRaster := ⟨.replicate 16376 0, false, 1, 4094, (0, 0)⟩

/-- A surface that was grown beyond the cap has no place for a glyph that fits the cap. -/
theorem not_intact_of_reaches :
    ¬ ∀ (init : GlyphAtlas ℕ) (state : PaintedAtlas ℕ), init.Constructible →
      init.width ≤ maxAtlasDim ∧ init.height ≤ maxAtlasDim →
      Reaches step Allowed ⟨init, fun _ ↦ none⟩ state →
      ∀ key record, state.atlas.entries.lookup key = some record →
        ∃ painting, state.painted key = some painting ∧ painting.record = record ∧
          (painting.FitsCap → state.atlas.Shows record.entry painting.raster) := by
  intro h
  have hinit : (GlyphAtlas.fromPixels 1 1 .rgba (.replicate 4 0) : GlyphAtlas ℕ).Constructible :=
    ⟨1, 1, .rgba, 4, rfl⟩
  have hgrown : Reaches step Allowed
      ⟨GlyphAtlas.fromPixels 1 1 .rgba (.replicate 4 0), fun _ : ℕ ↦ none⟩ longAtlas :=
    .step (e := .grow (2 ^ 18) 1 usizeMax) .init trivial rfl
  have hallowed : longAtlas.Allowed (.insert 0 0 tallRaster) := List.length_replicate
  have hinsert : (longAtlas.atlas.insertOrGetRaster 0 0 tallRaster).map
      (fun inserted ↦ inserted.1.entry) = some ⟨0, 0, 1, 1⟩ := by decide +kernel
  obtain ⟨⟨record, atlas⟩, hinserted, hentry⟩ := Option.map_eq_some_iff.mp hinsert
  have hlookup : atlas.entries.lookup 0 = some record := by
    rw [GlyphAtlas.insertOrGetRaster, show longAtlas.atlas.entries.lookup 0 = none from rfl,
      Option.map_eq_some_iff] at hinserted
    obtain ⟨_, _, heq⟩ := hinserted
    obtain ⟨rfl, rfl⟩ := Prod.mk.inj heq
    exact List.lookup_cons_self
  have hstep : longAtlas.step (.insert 0 0 tallRaster) = some ⟨atlas, Function.update
      longAtlas.painted 0 (some ⟨tallRaster, record, longAtlas.atlas.withinCap⟩)⟩ := by
    rw [step, hinserted]
    rfl
  obtain ⟨painting, hpainting, _, hshows⟩ := h _ _ hinit ⟨by decide, by decide⟩
    (.step hgrown hallowed hstep) 0 record hlookup
  dsimp only at hpainting
  rw [Function.update_self, Option.some.injEq] at hpainting
  subst hpainting
  have hfits : max tallRaster.width 1 + 2 ≤ maxAtlasDim ∧
      max tallRaster.height 1 + 2 ≤ maxAtlasDim := by decide
  have hheight : record.entry.height = max tallRaster.height 1 := (hshows hfits).height
  dsimp only at hentry
  rw [hentry] at hheight
  exact absurd hheight (by decide)

end PaintedAtlas
end Bootty.Ui
