import Bootty.Ui.AtlasPacking

/-!
# Inserting a glyph

`insert_or_get_raster` grows the atlas until a glyph has a place, recycles it at the size cap, and
falls back to one pixel (`crates/bootty-ui/src/terminal_text_atlas/atlas.rs:278–350`). What every
part of this keeps holds over runs of calls. The loop goes on for ever exactly on a surface beyond
the cap that has no place even when it is fully grown.
-/

namespace Bootty.Ui

open Bootty.Base

namespace GlyphAtlas

variable {Key : Type}

section Loop

variable {atlas after : GlyphAtlas Key} {width height fuel : ℕ}

/-- How the loop ends: with a place, or where the atlas does not grow. -/
inductive LoopEnd (width height : ℕ) (last : GlyphAtlas Key) :
    Option GlyphAtlasEntry → GlyphAtlas Key → Prop
  | placed {entry : GlyphAtlasEntry} {after : GlyphAtlas Key}
      (h : last.reserve width height = (some entry, after)) :
      LoopEnd width height last (some entry) after
  | stopped {failed after : GlyphAtlas Key} (h : last.reserve width height = (none, failed))
      (hgrow : failed.growForGlyph width height = (false, after)) :
      LoopEnd width height last none after

variable {I : GlyphAtlas Key → Prop}

/-- What reserving and growing keep holds before the last reservation of the loop. -/
theorem growAndReserve_eq_some (hreserve : ∀ atlas, I atlas → I (atlas.reserve width height).2)
    (hgrow : ∀ atlas after, I atlas → atlas.growForGlyph width height = (true, after) → I after)
    (h : I atlas) {reserved : Option GlyphAtlasEntry}
    (hloop : atlas.growAndReserve fuel width height = some (reserved, after)) :
    ∃ last, I last ∧ LoopEnd width height last reserved after := by
  fun_induction growAndReserve fuel atlas width height with
  | case1 fuel atlas entry placed hplaced =>
    obtain ⟨rfl, rfl⟩ := Prod.mk.inj (Option.some.inj hloop)
    exact ⟨atlas, h, .placed hplaced⟩
  | case2 fuel atlas failed hfailed stopped hstopped =>
    obtain ⟨rfl, rfl⟩ := Prod.mk.inj (Option.some.inj hloop)
    exact ⟨atlas, h, .stopped hfailed hstopped⟩
  | case3 => cases hloop
  | case4 atlas failed hfailed grown hgrown fuel ih =>
    have hkept := hreserve atlas h
    rw [hfailed] at hkept
    exact ih (hgrow failed grown hkept hgrown) hloop

/-- What a glyph is painted into: a place of its size, or one pixel of the border where it does
not fit the surface. -/
inductive PaintedAt (I : GlyphAtlas Key → Prop) (width height : ℕ) :
    GlyphAtlasEntry → GlyphAtlas Key → Prop
  | place {last base : GlyphAtlas Key} {entry : GlyphAtlasEntry} (keeps : I last)
      (h : last.reserve width height = (some entry, base)) : PaintedAt I width height entry base
  | fallback {last failed base : GlyphAtlas Key} (keeps : I last)
      (h : last.reserve width height = (none, failed))
      (hgrow : failed.growForGlyph width height = (false, base))
      (hfits : base.fits width height = false) : PaintedAt I width height ⟨0, 0, 1, 1⟩ base

/-- A growth that fails changes nothing. -/
theorem growForGlyph_false (h : atlas.growForGlyph width height = (false, after)) :
    after = atlas := by
  rw [growForGlyph] at h
  split at h
  case isTrue => exact (Prod.mk.inj h).2.symm
  case isFalse =>
    split at h
    case h_1 => cases (Prod.mk.inj h).1
    case h_2 => exact (Prod.mk.inj h).2.symm

/-- What a growth does. -/
theorem growForGlyph_true (h : atlas.growForGlyph width height = (true, after)) :
    atlas.grow (atlas.targetWidth width) (atlas.targetHeight height) = .ok after := by
  rw [growForGlyph] at h
  split at h
  case isTrue => cases (Prod.mk.inj h).1
  case isFalse =>
    split at h
    case h_1 larger hok =>
      rw [hok, (Prod.mk.inj h).2]
    case h_2 => cases (Prod.mk.inj h).1

private theorem Placed.growForGlyph (h : atlas.Placed) {grown : Bool}
    (hgrow : atlas.growForGlyph width height = (grown, after)) : after.Placed := by
  cases grown with
  | false =>
    rw [growForGlyph_false hgrow]
    exact h
  | true => exact h.tryGrow (growForGlyph_true hgrow)

/-- The place that is reserved in the end, from the end of the loop on. -/
theorem paintedAt_of_loopEnd (hplaced : ∀ atlas, I atlas → atlas.Placed)
    (hreserve : ∀ atlas, I atlas → I (atlas.reserve width height).2)
    (hrecycle : ∀ atlas, I atlas → I atlas.recycle) (hwidth : 1 ≤ width) (hheight : 1 ≤ height)
    {last : GlyphAtlas Key} (h : I last) {reserved : Option GlyphAtlasEntry}
    (hend : LoopEnd width height last reserved after) :
    PaintedAt I width height
      (entryToPaint (recycleAndReserve reserved after width height).1 width height)
      (recycleAndReserve reserved after width height).2 := by
  have hw : max width 1 = width := Nat.max_eq_left hwidth
  have hh : max height 1 = height := Nat.max_eq_left hheight
  have hpaint : ∀ {before base : GlyphAtlas Key} {entry : GlyphAtlasEntry}, I before →
      before.reserve width height = (some entry, base) →
      PaintedAt I width height (entryToPaint (some entry) width height) base := by
    intro before base entry hkeeps hplace
    have hspec := (hplaced before hkeeps).reserve width height
    rw [hplace, hw, hh] at hspec
    have ⟨hwidth', hheight', _⟩ := hspec.free entry rfl
    have hentry : entryToPaint (some entry) width height = entry := by
      simp [entryToPaint, hwidth', hheight']
    rw [hentry]
    exact .place hkeeps hplace
  cases hend with
  | placed hplace =>
    rw [recycleAndReserve, Option.isNone_some, Bool.false_and, if_neg Bool.false_ne_true]
    exact hpaint h hplace
  | @stopped failed _ hfailed hgrow =>
    rw [recycleAndReserve, Option.isNone_none, Bool.true_and]
    cases hfits : after.fits width height with
    | false =>
      rw [if_neg Bool.false_ne_true]
      have hentry : entryToPaint none width height = ⟨0, 0, 1, 1⟩ := by
        simp only [entryToPaint, Option.getD_none, Nat.min_eq_left hwidth,
          Nat.min_eq_left hheight, ite_self]
      rw [hentry]
      exact .fallback h hfailed hgrow hfits
    | true =>
      rw [if_pos rfl]
      have hafter : I after := by
        have hkept := hreserve last h
        rwa [hfailed, ← growForGlyph_false hgrow] at hkept
      have hrecycled := hrecycle after hafter
      have hspec := (hplaced _ hrecycled).reserve width height
      rw [hw, hh] at hspec
      cases hplace : (after.recycle.reserve width height).1 with
      | none =>
        have hfull := hspec.none_iff.mp hplace
        exact absurd ((hplaced after hafter).free_recycle hfits) (hfull 1 1)
      | some entry => exact hpaint hrecycled (Prod.ext hplace rfl)

variable [DecidableEq Key] {key : Key} {raster : GlyphRaster} {record : GlyphAtlasRecord}

/-- A key that is there is given back as it is. -/
theorem insertOrGetRaster_of_present (h : atlas.entries.lookup key = some record) :
    atlas.insertOrGetRaster fuel key raster = some (record, atlas) := by
  rw [insertOrGetRaster, h]

/-- A glyph that is not there is painted and recorded. -/
theorem insertOrGetRaster_of_absent (hplaced : ∀ atlas, I atlas → atlas.Placed)
    (hreserve : ∀ atlas width height, I atlas → I (atlas.reserve width height).2)
    (hgrow : ∀ atlas after width height, I atlas →
      atlas.growForGlyph width height = (true, after) → I after)
    (hrecycle : ∀ atlas, I atlas → I atlas.recycle) (h : I atlas)
    (habsent : atlas.entries.lookup key = none)
    (hinsert : atlas.insertOrGetRaster fuel key raster = some (record, after)) :
    ∃ base entry, PaintedAt I (max raster.width 1) (max raster.height 1) entry base ∧
      record = ⟨entry, raster.color, raster.offset⟩ ∧
      after = { base.set entry raster.pixels with entries := (key, record) :: base.entries } := by
  rw [insertOrGetRaster, habsent] at hinsert
  have ⟨⟨reserved, grown⟩, hloop, heq⟩ := Option.map_eq_some_iff.mp hinsert
  have ⟨last, hlast, hend⟩ := growAndReserve_eq_some (hreserve · _ _) (hgrow · · _ _) h hloop
  have hpainted := paintedAt_of_loopEnd hplaced (hreserve · _ _) hrecycle
    (Nat.le_max_right _ _) (Nat.le_max_right _ _) hlast hend
  obtain ⟨rfl, rfl⟩ := Prod.mk.inj heq
  exact ⟨_, _, hpainted, rfl, rfl⟩

omit [DecidableEq Key] in
/-- What keeps holds where a glyph is painted. -/
theorem PaintedAt.keeps {entry : GlyphAtlasEntry} {base : GlyphAtlas Key}
    (hreserve : ∀ atlas, I atlas → I (atlas.reserve width height).2)
    (h : PaintedAt I width height entry base) : I base := by
  cases h with
  | @place last _ _ hkeeps hplace =>
    have hkept := hreserve last hkeeps
    rwa [hplace] at hkept
  | @fallback last failed _ hkeeps hfailed hgrow hfits =>
    have hkept := hreserve last hkeeps
    rwa [hfailed, ← growForGlyph_false hgrow] at hkept

omit [DecidableEq Key] in
/-- A glyph is painted inside the surface. -/
theorem PaintedAt.inside {entry : GlyphAtlasEntry} {base : GlyphAtlas Key}
    (hplaced : ∀ atlas, I atlas → atlas.Placed) (h : PaintedAt I width height entry base) :
    entry.x + entry.width ≤ base.width ∧ entry.y + entry.height ≤ base.height := by
  cases h with
  | @place last _ _ hkeeps hplace =>
    have hspec := (hplaced last hkeeps).reserve width height
    rw [hplace] at hspec
    have ⟨hwidth, hheight, hfree⟩ := hspec.free entry rfl
    have ⟨_, _, hright, hbottom, _⟩ := hfree
    simp only [inner] at hright hbottom
    have hw : base.width = last.width := hspec.surface.width
    have hh : base.height = last.height := hspec.surface.height
    omega
  | @fallback last failed _ hkeeps hfailed hgrow hfits =>
    have hspec := (hplaced last hkeeps).reserve width height
    rw [hfailed, ← growForGlyph_false hgrow] at hspec
    exact ⟨hspec.placed.width_pos, hspec.placed.height_pos⟩

private theorem Placed.insert (h : atlas.Placed)
    (hinsert : atlas.insertOrGetRaster fuel key raster = some (record, after)) :
    after.Placed := by
  cases hlookup : atlas.entries.lookup key with
  | some present =>
    rw [insertOrGetRaster_of_present hlookup] at hinsert
    obtain ⟨_, rfl⟩ := Prod.mk.inj (Option.some.inj hinsert)
    exact h
  | none =>
    have hreserve : ∀ (atlas : GlyphAtlas Key) width height, atlas.Placed →
        (atlas.reserve width height).2.Placed := fun atlas width height h ↦
      (h.reserve width height).placed
    have ⟨base, entry, hpainted, _, hafter⟩ := insertOrGetRaster_of_absent (fun _ h ↦ h) hreserve
      (fun _ _ _ _ h hgrow ↦ h.growForGlyph hgrow) (fun _ h ↦ h.recycle) h hlookup hinsert
    have hbase := (hpainted.keeps (hreserve · _ _)).blit entry
      ⟨raster.pixels, entry.width, 0, 0, false⟩
    rw [hafter]
    exact ⟨hbase.width_pos, hbase.height_pos, hbase.bytes,
      ⟨hbase.packed.inside, hbase.packed.disjoint⟩, hbase.shelf, hbase.memo⟩

/-- An atlas that can be made. -/
def Constructible (atlas : GlyphAtlas Key) : Prop :=
  ∃ width height format byteLimit, tryWithFormat width height format byteLimit = .ok atlas

omit [DecidableEq Key] in
/-- What an atlas begins with. -/
theorem tryWithFormat_eq_ok {format : GlyphAtlasFormat} {byteLimit : ℕ}
    (h : tryWithFormat width height format byteLimit = .ok atlas) :
    max width 1 * max height 1 * format.depth ≤ u32Max ∧
      atlas = fromPixels (max width 1) (max height 1) format
        (.replicate (max width 1 * max height 1 * format.depth) 0) := by
  rw [tryWithFormat] at h
  split at h
  case h_1 => cases h
  case h_2 byteLen hbytes =>
    split at h
    case isTrue => cases h
    case isFalse =>
      obtain ⟨hfit, hlen⟩ := (atlasByteLen_eq_some format.depth_pos).mp hbytes
      refine ⟨hfit, ?_⟩
      rw [hlen]
      exact (Except.ok.inj h).symm

omit [DecidableEq Key] in
theorem Constructible.placed (h : atlas.Constructible) : atlas.Placed := by
  have ⟨width, height, format, byteLimit, hok⟩ := h
  have ⟨hfit, heq⟩ := tryWithFormat_eq_ok hok
  rw [heq]
  exact ⟨Nat.le_max_right _ _, Nat.le_max_right _ _, hfit, ⟨nofun, .nil⟩,
    ⟨Nat.le_refl 1, Nat.le_refl 1⟩, nofun⟩

/-- Every call keeps what holds of the surface and of what is reserved. -/
theorem Placed.call (h : atlas.Placed) {call : AtlasCall Key}
    (hcall : atlas.call call = some after) : after.Placed := by
  cases call with
  | insert fuel key raster =>
    have ⟨⟨record, after'⟩, hinsert, heq⟩ := Option.map_eq_some_iff.mp hcall
    rw [← heq]
    exact h.insert hinsert
  | reserve width height =>
    rw [← Option.some.inj hcall]
    exact (h.reserve width height).placed
  | set entry alpha =>
    rw [← Option.some.inj hcall]
    exact h.blit _ _
  | setFromLarger entry alpha sourceWidth sourceX sourceY =>
    rw [← Option.some.inj hcall]
    exact h.blit _ _
  | grow width height byteLimit =>
    rw [GlyphAtlas.call] at hcall
    split at hcall
    case h_1 grown hgrow =>
      rw [← Option.some.inj hcall]
      exact h.tryGrow hgrow
    case h_2 =>
      rw [← Option.some.inj hcall]
      exact h
  | recycle =>
    rw [← Option.some.inj hcall]
    exact h.recycle

private theorem Placed.reaches {allowed : GlyphAtlas Key → AtlasCall Key → Prop} (h : atlas.Placed)
    (hrun : Reaches GlyphAtlas.call allowed atlas after) : after.Placed :=
  hrun.invariant h fun _ _ _ h _ hcall ↦ h.call hcall

/-- The search of the gaps is a scan of every position, and the memo of its failures is right. -/
theorem firstFitInGaps_exhaustive :
    (∀ (atlas : GlyphAtlas Key) (width height : ℕ), atlas.IsU32 → atlas.Packed →
      width + 2 ≤ atlas.width → height + 2 ≤ atlas.height →
      (∀ entry, atlas.firstFitInGaps width height = some entry ↔
        entry.width = width ∧ entry.height = height ∧
          IsFirst (atlas.Free width height) entry.x entry.y) ∧
      (atlas.firstFitInGaps width height = none ↔ ∀ x y, ¬ atlas.Free width height x y)) ∧
    ∀ init atlas : GlyphAtlas Key, init.Constructible → Reaches call anyStep init atlas →
      ∀ width height, atlas.fits (max width 1) (max height 1) = true →
        atlas.knownFull (max width 1) (max height 1) = true →
        atlas.reserve width height = (none, atlas) ∧
          ∀ x y, ¬ atlas.Free (max width 1) (max height 1) x y := by
  constructor
  · intro atlas width height hu32 hpacked _ _
    exact ⟨fun entry ↦ firstFitInGaps_eq_some_iff hu32 hpacked,
      firstFitInGaps_eq_none_iff hu32 hpacked⟩
  · intro init atlas hinit hrun width height hfits hknown
    have hplaced := hinit.placed.reaches hrun
    refine ⟨?_, fun x y ↦ hplaced.not_free_of_knownFull hknown⟩
    rw [reserve, hfits, hknown]
    rfl

/-- An atlas that is full for a size it once failed for. -/
theorem firstFitInGaps_exhaustive_sample :
    ∃ init atlas : GlyphAtlas ℕ, init.Constructible ∧ Reaches GlyphAtlas.call anyStep init atlas ∧
      init.firstFitInGaps 2 1 = some ⟨1, 1, 2, 1⟩ ∧ IsFirst (init.Free 2 1) 1 1 ∧
      atlas.reserve 1 2 = (none, atlas) ∧ ∀ x y, ¬ atlas.Free 1 2 x y := by
  have ⟨hsearch, hmemo⟩ := @firstFitInGaps_exhaustive ℕ _
  have hinit : (fromPixels 4 4 .alpha (.replicate 16 0) : GlyphAtlas ℕ).Constructible :=
    ⟨4, 4, .alpha, 16, rfl⟩
  have hrun := exists_reaches_anyStep (show (runEvents GlyphAtlas.call anyTest
    (fromPixels 4 4 .alpha (.replicate 16 0) : GlyphAtlas ℕ)
    [.reserve 2 1, .reserve 2 1, .reserve 1 1]).map (fun atlas ↦
      atlas.fits 1 2 && atlas.knownFull 1 2) = some true by decide +kernel)
  have ⟨atlas, hreaches, hfull⟩ := hrun
  rw [Bool.and_eq_true] at hfull
  have hfound := ((hsearch (fromPixels 4 4 .alpha (.replicate 16 0)) 2 1 ⟨by decide, by decide⟩
    ⟨nofun, .nil⟩ (by decide) (by decide)).1 ⟨1, 1, 2, 1⟩).mp (by decide +kernel)
  exact ⟨_, atlas, hinit, hreaches, by decide +kernel, hfound.2.2,
    hmemo _ atlas hinit hreaches 1 2 hfull.1 hfull.2⟩

end Loop

/-! ### Where the loop ends -/

section Termination

variable {atlas after : GlyphAtlas Key} {width height fuel x y : ℕ}

/-- The width that growing for a glyph ends at. -/
def fullWidth (atlas : GlyphAtlas Key) (width : ℕ) : ℕ :=
  max atlas.width (min (width + 2) maxAtlasDim)

/-- The height that growing for a glyph ends at. -/
def fullHeight (atlas : GlyphAtlas Key) : ℕ := max atlas.height maxAtlasDim

/-- The fully grown surface inside its border. -/
def fullyGrown (atlas : GlyphAtlas Key) (width : ℕ) : Region :=
  ⟨1, 1, atlas.fullWidth width - 1, atlas.fullHeight - 1⟩

/-- The surface is beyond the cap, its bytes can be counted when it is fully grown, and the glyph
has no place even then. -/
structure Stuck (atlas : GlyphAtlas Key) (width height : ℕ) : Prop where
  beyond : maxAtlasDim < atlas.width ∨ maxAtlasDim < atlas.height
  bytes : atlas.fullWidth width * atlas.fullHeight * atlas.format.depth ≤ u32Max
  full : ∀ x y, ¬ FreeAt (atlas.fullyGrown width) (atlas.allocations.map GlyphAtlasEntry.rect)
    width height x y

private theorem maxAtlasDim_le : maxAtlasDim ≤ u32Max := by decide

/-- The width that is grown to. -/
theorem targetWidth_eq (hu32 : atlas.IsU32) (width : ℕ) :
    atlas.targetWidth width = min (max (width + 2) atlas.width) maxAtlasDim := by
  have hw := hu32.1
  have hcap := maxAtlasDim_le
  by_cases hlarger : atlas.width < saturatingAdd u32Max width 2
  · simp only [targetWidth, if_pos hlarger]
    simp only [saturatingAdd] at hlarger ⊢
    omega
  · simp only [targetWidth, if_neg hlarger]
    simp only [saturatingAdd] at hlarger
    omega

/-- The height is added to, up to the cap. -/
theorem targetHeight_cases (h : atlas.Placed) (height : ℕ) :
    atlas.targetHeight height ≤ maxAtlasDim ∧
    (atlas.height < maxAtlasDim → atlas.height < atlas.targetHeight height) ∧
    (maxAtlasDim ≤ atlas.height → atlas.targetHeight height = maxAtlasDim) := by
  have hh := h.isU32.2
  have hpos := h.height_pos
  have hcap := maxAtlasDim_le
  by_cases hlarger : atlas.height < saturatingAdd u32Max height 2
  · simp only [targetHeight, if_pos hlarger]
    simp only [saturatingAdd] at hlarger ⊢
    omega
  · simp only [targetHeight, if_neg hlarger, saturatingMul]
    simp only [saturatingAdd] at hlarger
    omega

/-- A surface that grew for a glyph. -/
structure Grew (atlas : GlyphAtlas Key) (w h : ℕ) (after : GlyphAtlas Key) : Prop where
  width : after.width = max (atlas.targetWidth w) atlas.width
  height : after.height = max (atlas.targetHeight h) atlas.height
  format : after.format = atlas.format
  allocations : after.allocations = atlas.allocations
  targets : ¬ (atlas.targetWidth w = atlas.width ∧ atlas.targetHeight h = atlas.height)

/-- A growth makes room. -/
theorem grew_of_growForGlyph (h : atlas.growForGlyph width height = (true, after)) :
    Grew atlas width height after := by
  have htargets : ¬ (atlas.targetWidth width = atlas.width ∧
      atlas.targetHeight height = atlas.height) := by
    intro hsame
    rw [growForGlyph, if_pos hsame] at h
    cases (Prod.mk.inj h).1
  rcases tryGrowWithByteLimit_eq_ok (growForGlyph_true h) with ⟨⟨hw, hh⟩, rfl⟩ | ⟨_, _, rfl⟩
  · exact ⟨(Nat.max_eq_right hw).symm, (Nat.max_eq_right hh).symm, rfl, rfl, htargets⟩
  · exact ⟨rfl, rfl, rfl, rfl, htargets⟩

/-- Growing and failed reservations do not change where growing ends. -/
theorem stuck_congr (hwidth : after.fullWidth width = atlas.fullWidth width)
    (hheight : after.fullHeight = atlas.fullHeight) (hformat : after.format = atlas.format)
    (hallocations : after.allocations = atlas.allocations)
    (hbeyond : (maxAtlasDim < after.width ∨ maxAtlasDim < after.height) ↔
      (maxAtlasDim < atlas.width ∨ maxAtlasDim < atlas.height)) :
    after.Stuck width height ↔ atlas.Stuck width height := by
  have hregion : after.fullyGrown width = atlas.fullyGrown width := by
    rw [fullyGrown, fullyGrown, hwidth, hheight]
  constructor
  · rintro ⟨h, hbytes, hfull⟩
    rw [hwidth, hheight, hformat] at hbytes
    rw [hregion, hallocations] at hfull
    exact ⟨hbeyond.mp h, hbytes, hfull⟩
  · rintro ⟨h, hbytes, hfull⟩
    refine ⟨hbeyond.mpr h, ?_, ?_⟩
    · rwa [hwidth, hheight, hformat]
    · rwa [hregion, hallocations]

private theorem Grew.full_eq (h : Grew atlas width height after) (hplaced : atlas.Placed) :
    after.fullWidth width = atlas.fullWidth width ∧ after.fullHeight = atlas.fullHeight := by
  have htarget := targetWidth_eq hplaced.isU32 width
  have ⟨hcap, _, _⟩ := targetHeight_cases hplaced height
  constructor
  · rw [fullWidth, fullWidth, h.width, htarget]
    generalize maxAtlasDim = cap
    omega
  · rw [fullHeight, fullHeight, h.height]
    omega

private theorem Grew.stuck_iff (h : Grew atlas width height after) (hplaced : atlas.Placed) :
    after.Stuck width height ↔ atlas.Stuck width height := by
  have htarget := targetWidth_eq hplaced.isU32 width
  have ⟨hcap, _, _⟩ := targetHeight_cases hplaced height
  have ⟨hfullWidth, hfullHeight⟩ := h.full_eq hplaced
  have hw := h.width
  have hh := h.height
  apply stuck_congr hfullWidth hfullHeight h.format h.allocations
  omega

/-- Growing that changes no dimension is stuck, unless there is a place. -/
theorem Grew.stuck (h : Grew atlas width height after) (hplaced : atlas.Placed)
    (hwidth : after.width = atlas.width) (hheight : after.height = atlas.height)
    (hfull : ∀ x y, ¬ atlas.Free width height x y) : atlas.Stuck width height := by
  have htarget := targetWidth_eq hplaced.isU32 width
  have ⟨hcap, hlow, hhigh⟩ := targetHeight_cases hplaced height
  have hw := h.width
  have hh := h.height
  have htargets := h.targets
  have hfullWidth : atlas.fullWidth width = atlas.width := by
    rw [hwidth, htarget] at hw
    rw [fullWidth]
    generalize maxAtlasDim = cap at hw ⊢
    omega
  have hfullHeight : atlas.fullHeight = atlas.height := by
    simp only [fullHeight]
    omega
  constructor
  · omega
  · rw [hfullWidth, hfullHeight]
    exact hplaced.bytes
  · intro x y hfree
    rw [fullyGrown, hfullWidth, hfullHeight] at hfree
    exact hfull x y hfree

/-- What is left of growing for a glyph. -/
def growthLeft (atlas : GlyphAtlas Key) (width : ℕ) : ℕ :=
  (atlas.fullWidth width - atlas.width) + (atlas.fullHeight - atlas.height)

/-- Growing comes closer to the fully grown surface, unless it is stuck. -/
theorem Grew.growthLeft_lt (h : Grew atlas width height after) (hplaced : atlas.Placed)
    (hfull : ∀ x y, ¬ atlas.Free width height x y) (hnot : ¬ atlas.Stuck width height) :
    after.growthLeft width < atlas.growthLeft width := by
  have ⟨hfullWidth, hfullHeight⟩ := h.full_eq hplaced
  have hw : atlas.width ≤ after.width := by
    rw [h.width]
    exact Nat.le_max_right _ _
  have hh : atlas.height ≤ after.height := by
    rw [h.height]
    exact Nat.le_max_right _ _
  have hle : after.width ≤ after.fullWidth width := Nat.le_max_left _ _
  have hle' : after.height ≤ after.fullHeight := Nat.le_max_left _ _
  have hchanged : ¬ (after.width = atlas.width ∧ after.height = atlas.height) :=
    fun hsame ↦ hnot (h.stuck hplaced hsame.1 hsame.2 hfull)
  rw [growthLeft, growthLeft]
  omega

/-- Stuck, a glyph has no place, and the atlas says that it grew. -/
theorem Stuck.step (h : atlas.Stuck width height) (hplaced : atlas.Placed) :
    (∀ x y, ¬ atlas.Free width height x y) ∧
      ∃ after, atlas.growForGlyph width height = (true, after) := by
  have htarget := targetWidth_eq hplaced.isU32 width
  have ⟨hcap, hlow, hhigh⟩ := targetHeight_cases hplaced height
  have hbeyond := h.beyond
  constructor
  · intro x y hfree
    apply h.full x y
    apply FreeAt.mono hfree (Nat.le_refl 1) (Nat.le_refl 1) ?_ ?_ fun _ hrect ↦ hrect
    · exact Nat.sub_le_sub_right (Nat.le_max_left _ _) 1
    · exact Nat.sub_le_sub_right (Nat.le_max_left _ _) 1
  · have hchanged : ¬ (atlas.targetWidth width = atlas.width ∧
        atlas.targetHeight height = atlas.height) := by
      omega
    have hbytes : max (atlas.targetWidth width) atlas.width *
        max (atlas.targetHeight height) atlas.height * atlas.format.depth ≤ u32Max := by
      refine Nat.le_trans (Nat.mul_le_mul_right _ (Nat.mul_le_mul ?_ ?_)) h.bytes
      · simp only [fullWidth]
        omega
      · simp only [fullHeight]
        omega
    have ⟨after, hok⟩ := hplaced.grow_isOk hbytes
    refine ⟨after, ?_⟩
    rw [growForGlyph, if_neg hchanged, hok]

/-- The loop after a reservation that found nothing. -/
theorem growAndReserve_of_failed {failed grown : GlyphAtlas Key}
    (hfailed : atlas.reserve width height = (none, failed))
    (hgrow : failed.growForGlyph width height = (true, grown)) :
    atlas.growAndReserve 0 width height = none ∧ ∀ fuel,
      atlas.growAndReserve (fuel + 1) width height = grown.growAndReserve fuel width height := by
  constructor
  · rw [growAndReserve, hfailed]
    dsimp only
    rw [hgrow]
  · intro fuel
    rw [growAndReserve, hfailed]
    dsimp only
    rw [hgrow]

/-- A failed reservation, from which an atlas is as stuck as before. -/
theorem Placed.failed (h : atlas.Placed) (hwidth : 1 ≤ width) (hheight : 1 ≤ height)
    {failed : GlyphAtlas Key} (hfailed : atlas.reserve width height = (none, failed)) :
    failed.Placed ∧ (∀ x y, ¬ failed.Free width height x y) ∧
      (failed.Stuck width height ↔ atlas.Stuck width height) ∧
      failed.width = atlas.width ∧ failed.height = atlas.height := by
  have hspec := h.reserve width height
  rw [hfailed, Nat.max_eq_left hwidth, Nat.max_eq_left hheight] at hspec
  have hsurface := hspec.surface
  have hallocations : failed.allocations = atlas.allocations := by
    simpa using hspec.allocations
  refine ⟨hspec.placed, ?_, ?_, hsurface.width, hsurface.height⟩
  · intro x y hfree
    exact hspec.none_iff.mp rfl x y ((hsurface.free_iff hallocations).mp hfree)
  · apply stuck_congr
    · rw [fullWidth, fullWidth, hsurface.width]
    · rw [fullHeight, fullHeight, hsurface.height]
    · exact hsurface.format
    · exact hallocations
    · rw [hsurface.width, hsurface.height]

/-- One turn of a stuck loop. -/
theorem Stuck.turn (h : atlas.Stuck width height) (hplaced : atlas.Placed)
    (hwidth : 1 ≤ width) (hheight : 1 ≤ height) :
    ∃ grown : GlyphAtlas Key, grown.Placed ∧ grown.Stuck width height ∧
      atlas.growAndReserve 0 width height = none ∧ ∀ fuel,
        atlas.growAndReserve (fuel + 1) width height = grown.growAndReserve fuel width height := by
  have hspec := hplaced.reserve width height
  rw [Nat.max_eq_left hwidth, Nat.max_eq_left hheight] at hspec
  have hnone := hspec.none_iff.mpr (h.step hplaced).1
  have hfailed : atlas.reserve width height = (none, (atlas.reserve width height).2) :=
    Prod.ext hnone rfl
  have ⟨hplaced', _, hstuck, _⟩ := hplaced.failed hwidth hheight hfailed
  have ⟨grown, hgrow⟩ := ((hstuck.mpr h).step hplaced').2
  exact ⟨grown, hplaced'.growForGlyph hgrow,
    ((grew_of_growForGlyph hgrow).stuck_iff hplaced').mpr (hstuck.mpr h),
    growAndReserve_of_failed hfailed hgrow⟩

/-- The loop goes on for ever where it is stuck. -/
theorem Stuck.growAndReserve_eq_none (h : atlas.Stuck width height) (hplaced : atlas.Placed)
    (hwidth : 1 ≤ width) (hheight : 1 ≤ height) (fuel : ℕ) :
    atlas.growAndReserve fuel width height = none := by
  induction fuel generalizing atlas with
  | zero =>
    have ⟨_, _, _, hzero, _⟩ := h.turn hplaced hwidth hheight
    exact hzero
  | succ fuel ih =>
    have ⟨grown, hgrown, hstuck, _, hsucc⟩ := h.turn hplaced hwidth hheight
    rw [hsucc fuel]
    exact ih hstuck hgrown

/-- The loop ends where it is not stuck: every turn comes closer to the fully grown surface. -/
theorem Placed.exists_growAndReserve (h : atlas.Placed) (hwidth : 1 ≤ width)
    (hheight : 1 ≤ height) (hfree : ¬ atlas.Stuck width height) :
    ∃ fuel, (atlas.growAndReserve fuel width height).isSome = true := by
  generalize hmeasure : atlas.growthLeft width = measure
  induction measure using Nat.strong_induction_on generalizing atlas with
  | _ measure ih =>
    cases hreserve : atlas.reserve width height with
    | mk reserved failed =>
      cases reserved with
      | some entry =>
        refine ⟨0, ?_⟩
        rw [growAndReserve, hreserve]
        rfl
      | none =>
        have ⟨hplaced, hfull, hstuck, hw, hh⟩ := h.failed hwidth hheight hreserve
        cases hgrow : failed.growForGlyph width height with
        | mk grew grown =>
          cases grew with
          | false =>
            refine ⟨0, ?_⟩
            rw [growAndReserve, hreserve]
            dsimp only
            rw [hgrow]
            rfl
          | true =>
            have hgrew := grew_of_growForGlyph hgrow
            have hless : grown.growthLeft width < measure := by
              have hsame : failed.growthLeft width = atlas.growthLeft width := by
                simp only [growthLeft, fullWidth, fullHeight, hw, hh]
              rw [← hmeasure, ← hsame]
              exact hgrew.growthLeft_lt hplaced hfull fun h' ↦ hfree (hstuck.mp h')
            have ⟨fuel, hfuel⟩ := ih _ hless (hplaced.growForGlyph hgrow)
              (fun hstuck' ↦ hfree (hstuck.mp ((hgrew.stuck_iff hplaced).mp hstuck'))) rfl
            refine ⟨fuel + 1, ?_⟩
            rw [(growAndReserve_of_failed hreserve hgrow).2 fuel]
            exact hfuel

/-- The loop ends exactly where it is not stuck. -/
theorem Placed.growAndReserve_ends_iff (h : atlas.Placed) (hwidth : 1 ≤ width)
    (hheight : 1 ≤ height) :
    (∃ fuel, (atlas.growAndReserve fuel width height).isSome = true) ↔
      ¬ atlas.Stuck width height := by
  constructor
  · rintro ⟨fuel, hends⟩ hstuck
    rw [hstuck.growAndReserve_eq_none h hwidth hheight fuel] at hends
    cases hends
  · exact h.exists_growAndReserve hwidth hheight

variable [DecidableEq Key] {key : Key} {raster : GlyphRaster}

/-- An insertion ends exactly where its key is there or its loop is not stuck. -/
theorem insertOrGetRaster_ends_iff {init : GlyphAtlas Key} (hinit : init.Constructible)
    (hrun : Reaches call anyStep init atlas) (key : Key) (raster : GlyphRaster) :
    (∃ fuel, (atlas.insertOrGetRaster fuel key raster).isSome = true) ↔
      (atlas.entries.lookup key).isSome = true ∨
        ¬ atlas.Stuck (max raster.width 1) (max raster.height 1) := by
  have hplaced := hinit.placed.reaches hrun
  have hends := hplaced.growAndReserve_ends_iff (Nat.le_max_right raster.width 1)
    (Nat.le_max_right raster.height 1)
  cases hlookup : atlas.entries.lookup key with
  | some record =>
    refine iff_of_true ⟨0, ?_⟩ (.inl rfl)
    rw [insertOrGetRaster_of_present hlookup]
    rfl
  | none =>
    rw [← hends, Option.isSome_none, or_iff_right Bool.false_ne_true]
    apply exists_congr
    intro fuel
    rw [insertOrGetRaster, hlookup]
    dsimp only
    rw [Option.isSome_map]

/-- A surface within the cap is never stuck. -/
theorem insertOrGetRaster_ends_small : ∃ fuel,
    ((fromPixels 4 4 .alpha (.replicate 16 0) : GlyphAtlas ℕ).insertOrGetRaster fuel 0
      ⟨.replicate 60 1, false, 12, 5, (0, 0)⟩).isSome = true := by
  have hinit : (fromPixels 4 4 .alpha (.replicate 16 0) : GlyphAtlas ℕ).Constructible :=
    ⟨4, 4, .alpha, 16, rfl⟩
  apply (insertOrGetRaster_ends_iff hinit .init 0 _).mpr
  right
  rintro ⟨hbeyond, _, _⟩
  exact absurd hbeyond (by decide)

/-- A surface of 4097 pixels in a row, which a glyph of 5000 pixels grows to 4096 rows. -/
private def wideAtlas : GlyphAtlas ℕ := fromPixels 4097 1 .alpha (.replicate 4097 0)

private theorem stuck_wideAtlas : wideAtlas.Stuck 5000 1 where
  beyond := .inl (by decide)
  bytes := by decide
  full x y hfree := by
    have hright : x + 5000 ≤ 4096 := hfree.right
    omega

/-- The glyph is inserted for ever. -/
theorem not_insertOrGetRaster_ends :
    ¬ ∀ init atlas : GlyphAtlas ℕ, init.Constructible → Reaches call anyStep init atlas →
      ∀ key raster, ∃ fuel, (atlas.insertOrGetRaster fuel key raster).isSome = true := by
  intro h
  have hinit : wideAtlas.Constructible := ⟨4097, 1, .alpha, 4097, rfl⟩
  have ⟨fuel, hends⟩ := h _ _ hinit .init 0 ⟨.replicate 5000 0, false, 5000, 1, (0, 0)⟩
  rw [insertOrGetRaster, show wideAtlas.entries.lookup 0 = none from rfl] at hends
  dsimp only at hends
  rw [Option.isSome_map, show max 5000 1 = 5000 from rfl, show max 1 1 = 1 from rfl,
    stuck_wideAtlas.growAndReserve_eq_none hinit.placed (by decide) (by decide)] at hends
  cases hends

end Termination
end GlyphAtlas
end Bootty.Ui
