import Bootty.Ui.AtlasInsertion
import Bootty.Ui.AtlasPixels

/-!
# Uploads of the glyph atlas

A renderer keeps the counters of the atlas that it showed last. It uploads everything when the
atlas was resized since, and else the union of what was painted since
(`crates/bootty-ui/src/terminal_text_atlas/atlas.rs:463–571, 614–658`). This shows the current
atlas in every run where no painted row hangs over the right edge.
-/

namespace Bootty.Ui

open Bootty.Base

/-! ### The union of dirty rectangles -/

section Union

variable {left right entry : GlyphAtlasEntry} {entries : List GlyphAtlasEntry} {x y : ℕ}

private theorem contains_union_left (hx : x < u32Max) (hy : y < u32Max) (h : left.Contains x y) :
    (unionAtlasEntries left right).Contains x y := by
  rw [GlyphAtlasEntry.contains_iff] at h ⊢
  simp only [unionAtlasEntries, saturatingAdd]
  omega

private theorem contains_union_right (hx : x < u32Max) (hy : y < u32Max) (h : right.Contains x y) :
    (unionAtlasEntries left right).Contains x y := by
  rw [GlyphAtlasEntry.contains_iff] at h ⊢
  simp only [unionAtlasEntries, saturatingAdd]
  omega

/-- The union of rectangles holds every pixel of each. -/
theorem exists_reduce_contains (hx : x < u32Max) (hy : y < u32Max) (hentry : entry ∈ entries)
    (h : entry.Contains x y) :
    ∃ union, reduce unionAtlasEntries entries = some union ∧ union.Contains x y := by
  have hfold : ∀ (rest : List GlyphAtlasEntry) (first : GlyphAtlasEntry),
      (first.Contains x y ∨ ∃ other ∈ rest, other.Contains x y) →
      (rest.foldl unionAtlasEntries first).Contains x y := by
    intro rest
    induction rest with
    | nil =>
      rintro first (hfirst | ⟨other, hother, _⟩)
      · exact hfirst
      · cases hother
    | cons next rest ih =>
      intro first hany
      rw [List.foldl_cons]
      apply ih
      rcases hany with hfirst | ⟨other, hother, hcontains⟩
      · exact .inl (contains_union_left hx hy hfirst)
      · rcases List.mem_cons.mp hother with rfl | hrest
        · exact .inl (contains_union_right hx hy hcontains)
        · exact .inr ⟨other, hrest, hcontains⟩
  cases entries with
  | nil => cases hentry
  | cons first rest =>
    refine ⟨_, rfl, hfold rest first ?_⟩
    rcases List.mem_cons.mp hentry with rfl | hrest
    · exact .inl h
    · exact .inr ⟨entry, hrest, h⟩

end Union

namespace GlyphAtlas

variable {Key : Type}

/-- Nothing was resized, and what differs was painted in one of the recent regions. -/
structure Unresized (first atlas : GlyphAtlas Key) : Prop where
  width : atlas.width = first.width
  height : atlas.height = first.height
  format : atlas.format = first.format
  regions : ∃ recent, atlas.dirtyRegions = first.dirtyRegions ++ recent ∧
    (∀ region ∈ recent, first.modified < region.1) ∧
    ∀ x y c, x < atlas.width → y < atlas.height → c < atlas.format.depth →
      atlas.byte x y c ≠ first.byte x y c → ∃ region ∈ recent, region.2.Contains x y

/-- What the counters and the regions say at a later moment about the first one. -/
structure Since (first atlas : GlyphAtlas Key) : Prop where
  counted : atlas.modified = atlas.modifications
  resized_le : atlas.resized ≤ atlas.modified
  versions : ∀ region ∈ atlas.dirtyRegions, region.1 ≤ atlas.modified
  modified_mono : first.modified ≤ atlas.modified
  resized_mono : first.resized ≤ atlas.resized
  same : atlas.resized = first.resized → Unresized first atlas

/-- The counters are exact while there are fewer modifications than 64 bits count. -/
structure SinceCounted (first atlas : GlyphAtlas Key) : Prop where
  sized : atlas.Sized
  mono : first.modifications ≤ atlas.modifications
  since : atlas.modifications < 2 ^ 64 → Since first atlas

section Since

variable {first atlas after : GlyphAtlas Key} {entry : GlyphAtlasEntry} {source : BlitSource}

private theorem saturatingAdd_one {modified : ℕ} (h : modified + 1 < 2 ^ 64) :
    saturatingAdd u64Max modified 1 = modified + 1 :=
  saturatingAdd_of_le (by rw [u64Max]; omega)

/-- A reservation changes none of it. -/
theorem Since.reserve (h : SameSurface atlas after) (hsince : Since first atlas) :
    Since first after where
  counted := by rw [h.modified, h.modifications, hsince.counted]
  resized_le := by rw [h.resized, h.modified]; exact hsince.resized_le
  versions := by rw [h.dirtyRegions, h.modified]; exact hsince.versions
  modified_mono := by rw [h.modified]; exact hsince.modified_mono
  resized_mono := by rw [h.resized]; exact hsince.resized_mono
  same hsame := by
    have ⟨hwidth, hheight, hformat, recent, hregions, hnew, hdiffers⟩ :=
      hsince.same (h.resized ▸ hsame)
    refine ⟨h.width.trans hwidth, h.height.trans hheight, h.format.trans hformat, recent,
      h.dirtyRegions.trans hregions, hnew, ?_⟩
    intro x y c hx hy hc hne
    rw [h.width] at hx
    rw [h.height] at hy
    rw [h.format] at hc
    rw [h.byte] at hne
    exact hdiffers x y c hx hy hc hne

/-- A larger or a recycled surface is uploaded as a whole. -/
theorem Since.of_resized (hmodifications : atlas.modifications + 1 < 2 ^ 64)
    (hsince : Since first atlas)
    (hmodified : after.modified = saturatingAdd u64Max atlas.modified 1)
    (hcounted : after.modifications = atlas.modifications + 1)
    (hresized : after.resized = saturatingAdd u64Max atlas.resized 1)
    (hregions : after.dirtyRegions ⊆ atlas.dirtyRegions) : Since first after := by
  have hcount := hsince.counted
  have hle := hsince.resized_le
  have hmono := hsince.resized_mono
  have hmono' := hsince.modified_mono
  rw [saturatingAdd_one (by omega)] at hmodified
  rw [saturatingAdd_one (by omega)] at hresized
  refine ⟨by omega, by omega, ?_, by omega, by omega, fun hsame ↦ by omega⟩
  intro region hregion
  have hversion := hsince.versions region (hregions hregion)
  omega

private theorem Since.blit (hmodifications : atlas.modifications + 1 < 2 ^ 64)
    (hsized : atlas.Sized)
    (hsince : Since first atlas) (hin : atlas.spills entry source = false) :
    Since first (atlas.blit entry source) := by
  have hcount := hsince.counted
  have hle := hsince.resized_le
  have hmono := hsince.modified_mono
  have hone : saturatingAdd u64Max atlas.modified 1 = atlas.modified + 1 :=
    saturatingAdd_one (by omega)
  have hmodified : (atlas.blit entry source).modified = atlas.modified + 1 := hone
  have hmodifications' : (atlas.blit entry source).modifications = atlas.modifications + 1 := rfl
  have hregions : (atlas.blit entry source).dirtyRegions =
      atlas.dirtyRegions ++ [(atlas.modified + 1, entry)] := by rw [← hone]; rfl
  have hresized : (atlas.blit entry source).resized = atlas.resized := rfl
  refine ⟨by omega, by omega, ?_, by omega, hsince.resized_mono, ?_⟩
  · intro region hregion
    rw [hregions, List.mem_append, List.mem_singleton] at hregion
    rw [hmodified]
    rcases hregion with hold | rfl
    · exact Nat.le_succ_of_le (hsince.versions region hold)
    · exact Nat.le_refl _
  · intro hsame
    have ⟨hwidth, hheight, hformat, recent, hrecent, hnew, hdiffers⟩ := hsince.same hsame
    refine ⟨hwidth, hheight, hformat, recent ++ [(atlas.modified + 1, entry)], ?_, ?_, ?_⟩
    · rw [hregions, hrecent, List.append_assoc]
    · intro region hregion
      rw [List.mem_append, List.mem_singleton] at hregion
      rcases hregion with hold | rfl
      · exact hnew region hold
      · exact Nat.lt_succ_of_le hmono
    · intro x y c hx hy hc hne
      by_cases hcontains : entry.Contains x y
      · exact ⟨_, List.mem_append_right _ (List.mem_singleton_self _), hcontains⟩
      · rw [hsized.byte_blit_of_not_spills hin hx hc hcontains] at hne
        have ⟨region, hregion, hin'⟩ := hdiffers x y c hx hy hc hne
        exact ⟨region, List.mem_append_left _ hregion, hin'⟩

/-! ### Over calls -/

private theorem SinceCounted.placed (h : SinceCounted first atlas) : atlas.Placed :=
  h.sized.placed

private theorem SinceCounted.reserve (width height : ℕ) (h : SinceCounted first atlas) :
    SinceCounted first (atlas.reserve width height).2 := by
  have hspec := h.placed.reserve width height
  have hmodifications := hspec.surface.modifications
  refine ⟨hspec.surface.sized hspec.placed h.sized, hmodifications ▸ h.mono, fun hcounted ↦ ?_⟩
  rw [hmodifications] at hcounted
  exact (h.since hcounted).reserve hspec.surface

private theorem SinceCounted.blit (h : SinceCounted first atlas)
    (hin : atlas.spills entry source = false) : SinceCounted first (atlas.blit entry source) := by
  refine ⟨h.sized.blit, Nat.le_succ_of_le h.mono, fun hmodifications ↦ ?_⟩
  have hmodifications' : atlas.modifications + 1 < 2 ^ 64 := hmodifications
  exact (h.since (by omega)).blit hmodifications' h.sized hin

private theorem SinceCounted.tryGrow (h : SinceCounted first atlas) {width height byteLimit : ℕ}
    (hgrow : atlas.tryGrowWithByteLimit width height byteLimit = .ok after) :
    SinceCounted first after := by
  rcases tryGrowWithByteLimit_eq_ok hgrow with ⟨_, rfl⟩ | ⟨_, hbytes, rfl⟩
  · exact h
  · refine ⟨(h.sized.resize (Nat.le_max_right _ _) (Nat.le_max_right _ _) hbytes).1,
      Nat.le_succ_of_le h.mono, fun hmodifications ↦ ?_⟩
    have hmodifications' : atlas.modifications + 1 < 2 ^ 64 := hmodifications
    exact (h.since (by omega)).of_resized hmodifications' rfl rfl rfl fun _ hregion ↦ hregion

private theorem SinceCounted.recycle (h : SinceCounted first atlas) :
    SinceCounted first atlas.recycle := by
  refine ⟨h.sized.recycle, Nat.le_succ_of_le h.mono, fun hmodifications ↦ ?_⟩
  have hmodifications' : atlas.modifications + 1 < 2 ^ 64 := hmodifications
  exact (h.since (by omega)).of_resized hmodifications' rfl rfl rfl nofun

/-- What is recorded beside the surface does not matter. -/
theorem SinceCounted.of_entries {entries : List (Key × GlyphAtlasRecord)}
    (h : SinceCounted first atlas) : SinceCounted first { atlas with entries } := by
  refine ⟨⟨⟨h.placed.width_pos, h.placed.height_pos, h.placed.bytes,
    ⟨h.placed.packed.inside, h.placed.packed.disjoint⟩, h.placed.shelf, h.placed.memo⟩,
    h.sized.length⟩, h.mono, fun hmodifications ↦ ?_⟩
  have hsince := h.since hmodifications
  refine ⟨hsince.counted, hsince.resized_le, hsince.versions, hsince.modified_mono,
    hsince.resized_mono, fun hsame ↦ ?_⟩
  have hunresized := hsince.same hsame
  exact ⟨hunresized.width, hunresized.height, hunresized.format, hunresized.regions⟩

variable [DecidableEq Key]

private theorem SinceCounted.insert {fuel : ℕ} {key : Key} {raster : GlyphRaster}
    {record : GlyphAtlasRecord} (h : SinceCounted first atlas)
    (hinsert : atlas.insertOrGetRaster fuel key raster = some (record, after)) :
    SinceCounted first after := by
  cases hlookup : atlas.entries.lookup key with
  | some present =>
    rw [insertOrGetRaster_of_present hlookup] at hinsert
    obtain ⟨_, rfl⟩ := Prod.mk.inj (Option.some.inj hinsert)
    exact h
  | none =>
    have ⟨base, entry, hpainted, _, hafter⟩ := insertOrGetRaster_of_absent
      (fun _ h ↦ h.placed) (fun _ width height h ↦ h.reserve width height)
      (fun _ _ _ _ h hgrow ↦ h.tryGrow (growForGlyph_true hgrow)) (fun _ h ↦ h.recycle)
      h hlookup hinsert
    have hbase := hpainted.keeps fun _ h ↦ h.reserve _ _
    have hinside := hpainted.inside fun _ h ↦ h.placed
    have hspills : base.spills entry ⟨raster.pixels, entry.width, 0, 0, false⟩ = false := by
      rw [spills, overhangs_eq_false hinside.1, Bool.false_and]
    rw [hafter]
    exact (hbase.blit hspills).of_entries

/-- No row that the call paints hangs over the right edge. -/
def Contained (atlas : GlyphAtlas Key) : AtlasCall Key → Prop
  | .set entry alpha => atlas.spills entry ⟨alpha, entry.width, 0, 0, false⟩ = false
  | .setFromLarger entry alpha sourceWidth sourceX sourceY =>
    atlas.spills entry ⟨alpha, sourceWidth, sourceX, sourceY, true⟩ = false
  | _ => True

/-- Whether a call stays inside is decidable. -/
instance (atlas : GlyphAtlas Key) (call : AtlasCall Key) : Decidable (atlas.Contained call) :=
  match call with
  | .set _ _ | .setFromLarger _ _ _ _ _ => inferInstanceAs (Decidable (_ = _))
  | .insert _ _ _ | .reserve _ _ | .grow _ _ _ | .recycle => inferInstanceAs (Decidable True)

private theorem SinceCounted.call (h : SinceCounted first atlas) {call : AtlasCall Key}
    (hallowed : atlas.Contained call) (hcall : atlas.call call = some after) :
    SinceCounted first after := by
  cases call with
  | insert fuel key raster =>
    have ⟨⟨record, after'⟩, hinsert, heq⟩ := Option.map_eq_some_iff.mp hcall
    rw [← heq]
    exact h.insert hinsert
  | reserve width height =>
    rw [← Option.some.inj hcall]
    exact h.reserve width height
  | set entry alpha =>
    rw [← Option.some.inj hcall]
    exact h.blit hallowed
  | setFromLarger entry alpha sourceWidth sourceX sourceY =>
    rw [← Option.some.inj hcall]
    exact h.blit hallowed
  | grow width height byteLimit =>
    rw [GlyphAtlas.call] at hcall
    split at hcall
    case h_1 grown hgrow =>
      rw [← Option.some.inj hcall]
      exact h.tryGrow hgrow
    case h_2 =>
      rw [← Option.some.inj hcall]
      exact h
  | recycle =>
    rw [← Option.some.inj hcall]
    exact h.recycle

private theorem SinceCounted.reaches (h : SinceCounted first atlas)
    (hrun : Reaches GlyphAtlas.call Contained atlas after) : SinceCounted first after :=
  hrun.invariant h fun _ _ _ h hallowed hcall ↦ h.call hallowed hcall

omit [DecidableEq Key] in
/-- Every moment is a first one. -/
theorem Since.restart (h : Since first atlas) : Since atlas atlas where
  counted := h.counted
  resized_le := h.resized_le
  versions := h.versions
  modified_mono := Nat.le_refl _
  resized_mono := Nat.le_refl _
  same _ := ⟨rfl, rfl, rfl, [], (List.append_nil _).symm, nofun,
    fun _ _ _ _ _ _ hne ↦ absurd rfl hne⟩

omit [DecidableEq Key] in
private theorem SinceCounted.restart (h : SinceCounted first atlas) : SinceCounted atlas atlas where
  sized := h.sized
  mono := Nat.le_refl _
  since hmodifications := (h.since hmodifications).restart

omit [DecidableEq Key] in
private theorem Constructible.sinceCounted (h : atlas.Constructible) :
    SinceCounted atlas atlas := by
  have hplaced := h.placed
  have ⟨width, height, format, byteLimit, hok⟩ := h
  have ⟨hfit, heq⟩ := tryWithFormat_eq_ok hok
  refine ⟨⟨hplaced, ?_⟩, Nat.le_refl _, fun _ ↦ ?_⟩
  · rw [heq]
    exact List.length_replicate
  · rw [heq]
    exact ⟨rfl, Nat.le_refl 0, nofun, Nat.le_refl 0, Nat.le_refl 0,
      fun _ ↦ ⟨rfl, rfl, rfl, [], rfl, nofun, fun _ _ _ _ _ _ hne ↦ absurd rfl hne⟩⟩

end Since

/-! ### What is uploaded -/

section Uploads

variable {init first atlas : GlyphAtlas Key} {x y c : ℕ}

/-- The regions since the first moment are those behind the partition point. -/
theorem Unresized.dirtyRectSince_eq (h : Unresized first atlas) (hfirst : Since first first) :
    ∃ recent : List (ℕ × GlyphAtlasEntry),
      atlas.dirtyRectSince first.modified = reduce unionAtlasEntries (recent.map Prod.snd) ∧
      ∀ x y c, x < atlas.width → y < atlas.height → c < atlas.format.depth →
        atlas.byte x y c ≠ first.byte x y c → ∃ region ∈ recent, region.2.Contains x y := by
  have ⟨recent, hrecent, hnew, hdiffers⟩ := h.regions
  refine ⟨recent, ?_, hdiffers⟩
  have hstart : partitionPoint (fun region : ℕ × GlyphAtlasEntry ↦
      decide (region.1 ≤ first.modified)) atlas.dirtyRegions = first.dirtyRegions.length := by
    rw [hrecent]
    apply partitionPoint_append
    · intro region hregion
      exact decide_eq_true (hfirst.versions region hregion)
    · intro region hregion
      exact decide_eq_false (Nat.not_le.mpr (hnew region hregion))
  rw [dirtyRectSince, hstart, hrecent, List.drop_left]

/-- Every pixel that changed without resizing lies in the dirty rectangle. -/
theorem SinceCounted.exists_dirtyRect (h : SinceCounted first atlas)
    (hfirst : SinceCounted first first) (hcounted : atlas.modifications < 2 ^ 64)
    (hresized : atlas.resized = first.resized)
    (hne : first.atlasPixelChannel x y c ≠ atlas.atlasPixelChannel x y c) :
    ∃ rect, atlas.dirtyRectSince first.modified = some rect ∧ rect.Contains x y := by
  have hunresized := (h.since hcounted).same hresized
  have ⟨recent, hrect, hdiffers⟩ := hunresized.dirtyRectSince_eq
    (hfirst.since (Nat.lt_of_le_of_lt h.mono hcounted))
  rw [hfirst.sized.atlasPixelChannel_eq, h.sized.atlasPixelChannel_eq, ← hunresized.width,
    ← hunresized.height, ← hunresized.format] at hne
  by_cases hin : x < atlas.width ∧ y < atlas.height ∧ c < atlas.format.depth
  · rw [if_pos hin, if_pos hin] at hne
    have ⟨region, hregion, hcontains⟩ := hdiffers x y c hin.1 hin.2.1 hin.2.2 (Ne.symm hne)
    have ⟨hw, hh⟩ := h.placed.isU32
    rw [hrect]
    exact exists_reduce_contains (by omega) (by omega)
      (List.mem_map.mpr ⟨region, hregion, rfl⟩) hcontains
  · rw [if_neg hin, if_neg hin] at hne
    exact absurd rfl hne

/-- Without a dirty rectangle the pixels are the same. -/
theorem SinceCounted.pixels_eq (h : SinceCounted first atlas)
    (hfirst : SinceCounted first first) (hcounted : atlas.modifications < 2 ^ 64)
    (hresized : atlas.resized = first.resized)
    (hclean : atlas.dirtyRectSince first.modified = none) : atlas.pixels = first.pixels := by
  have hunresized := (h.since hcounted).same hresized
  have hlength : atlas.pixels.length = first.pixels.length := by
    rw [h.sized.length, hfirst.sized.length, hunresized.width, hunresized.height,
      hunresized.format]
  apply List.ext_getElem?
  intro i
  by_cases hi : i < atlas.pixels.length
  · rw [h.sized.length] at hi
    obtain ⟨x, y, c, hx, hy, hc, hindex⟩ := exists_byteIndex hi
    by_contra hne
    have hchannels : first.atlasPixelChannel x y c ≠ atlas.atlasPixelChannel x y c := by
      rw [hfirst.sized.atlasPixelChannel_eq, h.sized.atlasPixelChannel_eq, ← hunresized.width,
        ← hunresized.height, ← hunresized.format, if_pos ⟨hx, hy, hc⟩, if_pos ⟨hx, hy, hc⟩,
        byte, byte, ← hunresized.width, ← hunresized.format, hindex]
      exact Ne.symm hne
    obtain ⟨rect, hdirty, _⟩ := h.exists_dirtyRect hfirst hcounted hresized hchannels
    rw [hclean] at hdirty
    cases hdirty
  · rw [List.getElem?_eq_none (by omega), List.getElem?_eq_none (by omega)]

end Uploads
end GlyphAtlas

/-! ### A renderer -/

/-- Whether a pixel is inside is decidable. -/
instance (entry : GlyphAtlasEntry) (x y : ℕ) : Decidable (entry.Contains x y) :=
  decidable_of_iff _ GlyphAtlasEntry.contains_iff.symm

/-- What a renderer keeps of the atlas that it uploaded last. -/
structure AtlasRenderer where
  modified : ℕ
  resized : ℕ
  shown : ℕ → ℕ → ℕ → Option UInt8

variable {Key : Type}

/-- A renderer that has uploaded everything. -/
def AtlasRenderer.ofAtlas (atlas : GlyphAtlas Key) : AtlasRenderer :=
  ⟨atlas.modified, atlas.resized, atlas.atlasPixelChannel⟩

/-- Everything is uploaded where the atlas was resized since, and else the dirty rectangle. -/
def AtlasRenderer.upload (renderer : AtlasRenderer) (atlas : GlyphAtlas Key) : AtlasRenderer where
  modified := atlas.modified
  resized := atlas.resized
  shown :=
    if atlas.resized = renderer.resized then
      match atlas.dirtyRectSince renderer.modified with
      | some rect => fun x y c ↦
        if rect.Contains x y then atlas.atlasPixelChannel x y c else renderer.shown x y c
      | none => renderer.shown
    else atlas.atlasPixelChannel

/-- An upload shows the atlas where the dirty rectangle holds all that is shown otherwise. -/
theorem AtlasRenderer.upload_eq {renderer : AtlasRenderer} {atlas : GlyphAtlas Key}
    (h : atlas.resized = renderer.resized → ∀ x y c,
      renderer.shown x y c ≠ atlas.atlasPixelChannel x y c →
      ∃ rect, atlas.dirtyRectSince renderer.modified = some rect ∧ rect.Contains x y) :
    renderer.upload atlas = .ofAtlas atlas := by
  simp only [upload, ofAtlas, mk.injEq, true_and]
  by_cases hresized : atlas.resized = renderer.resized
  · rw [if_pos hresized]
    have hdirty := h hresized
    ext1 x
    ext1 y
    ext1 c
    by_contra hne
    cases hclean : atlas.dirtyRectSince renderer.modified with
    | none =>
      rw [hclean] at hne
      have ⟨rect, hrect, _⟩ := hdirty x y c hne
      rw [hclean] at hrect
      cases hrect
    | some rect =>
      rw [hclean] at hne
      dsimp only at hne
      by_cases hin : rect.Contains x y
      · exact hne (if_pos hin)
      · rw [if_neg hin] at hne
        have ⟨rect', hrect', hcontains⟩ := hdirty x y c hne
        rw [hclean, Option.some.injEq] at hrect'
        exact hin (hrect' ▸ hcontains)
  · rw [if_neg hresized]

/-- An upload to a renderer that shows the atlas of an earlier moment. -/
theorem AtlasRenderer.upload_ofAtlas {first atlas : GlyphAtlas Key}
    (hfirst : GlyphAtlas.SinceCounted first first) (h : GlyphAtlas.SinceCounted first atlas)
    (hcounted : atlas.modifications < 2 ^ 64) :
    (AtlasRenderer.ofAtlas first).upload atlas = .ofAtlas atlas :=
  upload_eq fun hresized _ _ _ hne ↦ h.exists_dirtyRect hfirst hcounted hresized hne

/-- An atlas and its renderer, between two calls or frames. -/
structure RenderedAtlas (Key : Type) where
  atlas : GlyphAtlas Key
  renderer : AtlasRenderer

namespace RenderedAtlas

variable [DecidableEq Key]

/-- A call of the atlas, or else a frame of the renderer. -/
def step (rendered : RenderedAtlas Key) : Option (AtlasCall Key) → Option (RenderedAtlas Key)
  | some call => (rendered.atlas.call call).map fun atlas ↦ { rendered with atlas }
  | none => some { rendered with renderer := rendered.renderer.upload rendered.atlas }

/-- No row that the call paints hangs over the right edge. -/
def Contained (rendered : RenderedAtlas Key) (call : Option (AtlasCall Key)) : Prop :=
  ∀ atlasCall, call = some atlasCall → rendered.atlas.Contained atlasCall

/-- The renderer shows the atlas as it was at a first moment. -/
def Follows (rendered : RenderedAtlas Key) : Prop :=
  ∃ first : GlyphAtlas Key, GlyphAtlas.SinceCounted first first ∧
    GlyphAtlas.SinceCounted first rendered.atlas ∧
    (first.modifications < 2 ^ 64 → rendered.renderer = .ofAtlas first)

private theorem Follows.step {rendered after : RenderedAtlas Key} (h : rendered.Follows)
    {call : Option (AtlasCall Key)} (hallowed : rendered.Contained call)
    (hstep : rendered.step call = some after) : after.Follows := by
  have ⟨first, hfirst, hsince, hshown⟩ := h
  cases call with
  | none =>
    rw [← Option.some.inj hstep]
    refine ⟨rendered.atlas, hsince.restart, hsince.restart, fun hcounted ↦ ?_⟩
    rw [hshown (Nat.lt_of_le_of_lt hsince.mono hcounted)]
    exact AtlasRenderer.upload_ofAtlas hfirst hsince hcounted
  | some call =>
    have ⟨atlas, hcall, heq⟩ := Option.map_eq_some_iff.mp hstep
    rw [← heq]
    exact ⟨first, hfirst, hsince.call (hallowed call rfl) hcall, hshown⟩

end RenderedAtlas

section Runs

variable [DecidableEq Key]

/-- Between two moments without resizing the dirty rectangle holds what changed, and a renderer
that uploads it shows the atlas. -/
theorem GlyphAtlas.dirtyRectSince_covers {init : GlyphAtlas Key} (hinit : init.Constructible) :
    (∀ first atlas : GlyphAtlas Key, Reaches call Contained init first →
      Reaches call Contained first atlas → atlas.modifications < 2 ^ 64 →
      atlas.resized = first.resized →
      (∀ x y c, first.atlasPixelChannel x y c ≠ atlas.atlasPixelChannel x y c →
        ∃ rect, atlas.dirtyRectSince first.modified = some rect ∧ rect.Contains x y) ∧
      (atlas.dirtyRectSince first.modified = none → atlas.pixels = first.pixels)) ∧
    ∀ rendered : RenderedAtlas Key,
      Reaches RenderedAtlas.step RenderedAtlas.Contained ⟨init, .ofAtlas init⟩ rendered →
      rendered.atlas.modifications < 2 ^ 64 →
      (rendered.renderer.upload rendered.atlas).shown = rendered.atlas.atlasPixelChannel := by
  have hbegin := hinit.sinceCounted
  constructor
  · intro first atlas hrun hrun' hcounted hresized
    have hfirst := (hbegin.reaches hrun).restart
    have hsince := hfirst.reaches hrun'
    exact ⟨fun x y c hne ↦ hsince.exists_dirtyRect hfirst hcounted hresized hne,
      hsince.pixels_eq hfirst hcounted hresized⟩
  · intro rendered hrun hcounted
    have hfollows : rendered.Follows := hrun.invariant ⟨init, hbegin, hbegin, fun _ ↦ rfl⟩
      fun _ _ _ h hallowed hstep ↦ h.step hallowed hstep
    have ⟨first, hfirst, hsince, hshown⟩ := hfollows
    rw [hshown (Nat.lt_of_le_of_lt hsince.mono hcounted),
      AtlasRenderer.upload_ofAtlas hfirst hsince hcounted]
    rfl

/-- A surface of 4 by 4 pixels that was grown to 8 by 8. -/
private def grownAtlas : GlyphAtlas ℕ :=
  (GlyphAtlas.fromPixels 4 4 .alpha (.replicate 16 0)).resize 8 8 64 4 8

/-- A glyph is inserted and another one painted in a corner after the surface was grown, and a
renderer that uploaded before the growth shows them. -/
theorem GlyphAtlas.dirtyRectSince_covers_sample :
    ∃ init : GlyphAtlas ℕ, init.Constructible ∧
      (∃ atlas, Reaches call Contained init grownAtlas ∧ Reaches call Contained grownAtlas atlas ∧
        ∃ rect, atlas.dirtyRectSince grownAtlas.modified = some rect ∧ rect.Contains 1 1 ∧
          rect.Contains 7 6) ∧
      ∃ rendered : RenderedAtlas ℕ,
        Reaches RenderedAtlas.step RenderedAtlas.Contained ⟨init, .ofAtlas init⟩ rendered ∧
        (rendered.renderer.upload rendered.atlas).shown 7 6 0 = some 9 := by
  have hinit : (fromPixels 4 4 .alpha (.replicate 16 0) : GlyphAtlas ℕ).Constructible :=
    ⟨4, 4, .alpha, 16, rfl⟩
  refine ⟨_, hinit, ?_, ?_⟩
  · have hgrown : Reaches call Contained (fromPixels 4 4 .alpha (.replicate 16 0) : GlyphAtlas ℕ)
        grownAtlas := .step (e := .grow 8 8 usizeMax) .init trivial rfl
    obtain ⟨atlas, hrun, hgoal⟩ := exists_reaches_of_runEvents
      (fun _ _ htest ↦ of_decide_eq_true htest)
      (show (runEvents call (fun atlas call ↦ decide (atlas.Contained call)) grownAtlas
        [.insert 0 0 ⟨[7], false, 1, 1, (0, 0)⟩, .set ⟨7, 6, 1, 1⟩ [9]]).map (fun atlas ↦
          decide (atlas.modifications < 2 ^ 64 ∧ atlas.resized = grownAtlas.resized ∧
            grownAtlas.atlasPixelChannel 1 1 0 ≠ atlas.atlasPixelChannel 1 1 0 ∧
            grownAtlas.atlasPixelChannel 7 6 0 ≠ atlas.atlasPixelChannel 7 6 0)) = some true by
        decide +kernel)
    obtain ⟨hcounted, hresized, hfirst, hcorner⟩ := of_decide_eq_true hgoal
    have hcovers := ((dirtyRectSince_covers hinit).1 _ _ hgrown hrun hcounted hresized).1
    have ⟨rect, hrect, hcontains⟩ := hcovers 1 1 0 hfirst
    have ⟨rect', hrect', hcontains'⟩ := hcovers 7 6 0 hcorner
    obtain rfl := Option.some.inj (hrect.symm.trans hrect')
    exact ⟨atlas, hgrown, hrun, rect, hrect, hcontains, hcontains'⟩
  · have htest : ∀ (rendered : RenderedAtlas ℕ) (call : Option (AtlasCall ℕ)),
        (call.all fun call ↦ decide (rendered.atlas.Contained call)) = true →
          rendered.Contained call := by
      intro rendered call htest atlasCall hcall
      rw [hcall] at htest
      exact of_decide_eq_true htest
    obtain ⟨rendered, hrun, hgoal⟩ := exists_reaches_of_runEvents htest
      (show (runEvents RenderedAtlas.step
        (fun rendered call ↦ call.all fun call ↦ decide (rendered.atlas.Contained call))
        ⟨fromPixels 4 4 .alpha (.replicate 16 0),
          .ofAtlas (fromPixels 4 4 .alpha (.replicate 16 0) : GlyphAtlas ℕ)⟩
        [some (.insert 0 0 ⟨[7], false, 1, 1, (0, 0)⟩), none, some (.grow 8 8 usizeMax),
          some (.set ⟨7, 6, 1, 1⟩ [9])]).map (fun rendered ↦
            decide (rendered.atlas.modifications < 2 ^ 64 ∧
              rendered.atlas.atlasPixelChannel 7 6 0 = some 9)) = some true by decide +kernel)
    obtain ⟨hcounted, hpixel⟩ := of_decide_eq_true hgoal
    refine ⟨rendered, hrun, ?_⟩
    rw [(dirtyRectSince_covers hinit).2 rendered hrun hcounted, hpixel]

/-- A rectangle that hangs over the right edge is painted into the next row. -/
theorem GlyphAtlas.not_dirtyRectSince_covers :
    ¬ ∀ init first atlas : GlyphAtlas ℕ, init.Constructible → Reaches call anyStep init first →
      Reaches call anyStep first atlas → atlas.modifications < 2 ^ 64 →
      atlas.resized = first.resized →
      ∀ x y c, first.atlasPixelChannel x y c ≠ atlas.atlasPixelChannel x y c →
        ∃ rect, atlas.dirtyRectSince first.modified = some rect ∧ rect.Contains x y := by
  intro h
  have hinit : (fromPixels 4 4 .alpha (.replicate 16 0) : GlyphAtlas ℕ).Constructible :=
    ⟨4, 4, .alpha, 16, rfl⟩
  have hrun : Reaches call anyStep (fromPixels 4 4 .alpha (.replicate 16 0) : GlyphAtlas ℕ)
      ((fromPixels 4 4 .alpha (.replicate 16 0)).set ⟨3, 0, 2, 1⟩ [1, 1]) :=
    .step (e := .set ⟨3, 0, 2, 1⟩ [1, 1]) .init trivial rfl
  have ⟨rect, hrect, hcontains⟩ :=
    h _ _ _ hinit .init hrun (by decide) rfl 0 1 0 (by decide +kernel)
  have hdirty : (((fromPixels 4 4 .alpha (.replicate 16 0) : GlyphAtlas ℕ).set ⟨3, 0, 2, 1⟩
      [1, 1]).dirtyRectSince 0) = some ⟨3, 0, 2, 1⟩ := by decide +kernel
  rw [show (fromPixels 4 4 .alpha (.replicate 16 0) : GlyphAtlas ℕ).modified = 0 from rfl, hdirty,
    Option.some.injEq] at hrect
  rw [← hrect] at hcontains
  exact absurd hcontains (by decide)

end Runs
end Bootty.Ui
