import Bootty.Base.FirstFit
import Bootty.Base.Machine
import Bootty.Ui.GlyphAtlas

/-!
# Packing the glyph atlas

What is reserved on an atlas (`crates/bootty-ui/src/terminal_text_atlas/atlas.rs:352–461`) lies
inside a border of one pixel and does not overlap. The search of the gaps finds the first place in
reading order that a scan of every position would find, and the memo of a failed search is right
until the surface grows or is recycled.
-/

namespace Bootty.Ui

open Bootty.Base

private theorem u32Max_pos : 1 ≤ u32Max := by decide

/-- The rectangle of an entry. -/
def GlyphAtlasEntry.rect (entry : GlyphAtlasEntry) : Rect :=
  ⟨entry.x, entry.y, entry.width, entry.height⟩

/-- Away from the largest coordinate the code compares edges as they are. -/
theorem rectsOverlap_iff {a b : GlyphAtlasEntry}
    (ha : a.x + a.width ≤ u32Max ∧ a.y + a.height ≤ u32Max)
    (hb : b.x + b.width ≤ u32Max ∧ b.y + b.height ≤ u32Max) :
    rectsOverlap a b = true ↔ a.rect.Overlaps b.rect := by
  simp only [rectsOverlap, saturatingAdd_of_le ha.1, saturatingAdd_of_le ha.2,
    saturatingAdd_of_le hb.1, saturatingAdd_of_le hb.2, Bool.and_eq_true, decide_eq_true_eq,
    Rect.Overlaps, Rect.right, Rect.bottom, GlyphAtlasEntry.rect, and_assoc]

namespace GlyphAtlas

variable {Key : Type}

/-- The surface inside its border. -/
def inner (atlas : GlyphAtlas Key) : Region := ⟨1, 1, atlas.width - 1, atlas.height - 1⟩

/-- The allocations lie inside the border and do not overlap. -/
structure Packed (atlas : GlyphAtlas Key) : Prop where
  inside : ∀ used ∈ atlas.allocations, 1 ≤ used.x ∧ 1 ≤ used.y ∧
    used.x + used.width + 1 ≤ atlas.width ∧ used.y + used.height + 1 ≤ atlas.height
  disjoint : atlas.allocations.Pairwise fun a b ↦ ¬ a.rect.Overlaps b.rect

/-- A rectangle of the size at the position lies inside the border and overlaps no allocation. -/
def Free (atlas : GlyphAtlas Key) (width height x y : ℕ) : Prop :=
  FreeAt atlas.inner (atlas.allocations.map GlyphAtlasEntry.rect) width height x y

/-- The dimensions are numbers of 32 bits. -/
def IsU32 (atlas : GlyphAtlas Key) : Prop := atlas.width ≤ u32Max ∧ atlas.height ≤ u32Max

variable {entry : GlyphAtlasEntry}

section Search

variable {atlas : GlyphAtlas Key} {width height x y : ℕ}

private theorem clear_iff (hu32 : atlas.IsU32) (hpacked : atlas.Packed)
    (hwidth : entry.x + entry.width + 1 ≤ atlas.width)
    (hheight : entry.y + entry.height + 1 ≤ atlas.height) :
    atlas.clear entry = true ↔
      ∀ rect ∈ atlas.allocations.map GlyphAtlasEntry.rect, ¬ rect.Overlaps entry.rect := by
  have ⟨hw, hh⟩ := hu32
  simp only [clear, List.all_eq_true, Bool.not_eq_true', List.forall_mem_map]
  apply forall₂_congr
  intro used hused
  have ⟨_, _, hright, hbottom⟩ := hpacked.inside used hused
  have hiff : rectsOverlap used entry = true ↔ used.rect.Overlaps entry.rect :=
    rectsOverlap_iff ⟨by omega, by omega⟩ ⟨by omega, by omega⟩
  rw [← hiff, Bool.not_eq_true]

/-- Inside the border a rectangle that is clear is free. -/
theorem free_iff_clear (hu32 : atlas.IsU32) (hpacked : atlas.Packed) (hx : 1 ≤ x) (hy : 1 ≤ y)
    (hwidth : x + width + 1 ≤ atlas.width) (hheight : y + height + 1 ≤ atlas.height) :
    atlas.Free width height x y ↔ atlas.clear ⟨x, y, width, height⟩ = true := by
  rw [clear_iff hu32 hpacked hwidth hheight]
  constructor
  · intro hfree
    exact hfree.clear
  · intro hclear
    exact ⟨hx, hy, by simp only [inner]; omega, by simp only [inner]; omega, hclear⟩

private theorem pairwise_flushCoordinates (edges : List ℕ) (last : ℕ) :
    (flushCoordinates edges last).Pairwise (· ≤ ·) :=
  List.Pairwise.sublist (List.dedup_sublist _) (List.pairwise_insertionSort _ _)

private theorem mem_flushCoordinates {edges : List ℕ} {last a : ℕ} :
    a ∈ flushCoordinates edges last ↔ (a = 1 ∨ a ∈ edges) ∧ 1 ≤ a ∧ a ≤ last := by
  simp [flushCoordinates, List.mem_insertionSort]

/-- The positions that the search looks at. -/
def Flush (atlas : GlyphAtlas Key) (width height x y : ℕ) : Prop :=
  x ∈ flushCoordinates (atlas.allocations.map fun used ↦ saturatingAdd u32Max used.x used.width)
    (atlas.width - 1 - width) ∧
  y ∈ flushCoordinates (atlas.allocations.map fun used ↦ saturatingAdd u32Max used.y used.height)
    (atlas.height - 1 - height)

/-- What the search finds is the first free position among those it looks at. -/
theorem isFirst_of_firstFitInGaps (hu32 : atlas.IsU32) (hpacked : atlas.Packed)
    (h : atlas.firstFitInGaps width height = some entry) :
    entry.width = width ∧ entry.height = height ∧
      IsFirst (fun x y ↦ atlas.Flush width height x y ∧ atlas.Free width height x y)
        entry.x entry.y := by
  have ⟨x, y, hfirst, hmake⟩ := isFirst_of_scan (pairwise_flushCoordinates _ _)
    (pairwise_flushCoordinates _ _) h
  have hiff : ∀ x y, atlas.Flush width height x y →
      (atlas.Free width height x y ↔ atlas.clear ⟨x, y, width, height⟩ = true) := by
    intro x y hflush
    have ⟨_, hx, hx'⟩ := mem_flushCoordinates.mp hflush.1
    have ⟨_, hy, hy'⟩ := mem_flushCoordinates.mp hflush.2
    exact free_iff_clear hu32 hpacked hx hy (by omega) (by omega)
  rw [← hmake]
  refine ⟨rfl, rfl, ?_⟩
  have hflush : atlas.Flush width height x y := ⟨hfirst.1.1, hfirst.1.2.1⟩
  apply hfirst.restrict ⟨hflush, (hiff x y hflush).mpr hfirst.1.2.2⟩
  intro x y ⟨hflush, hfree⟩
  exact ⟨hflush.1, hflush.2, (hiff x y hflush).mp hfree⟩

/-- The first free position of all is among those that the search looks at. -/
theorem flush_of_isFirst (hu32 : atlas.IsU32) (hpacked : atlas.Packed)
    (h : IsFirst (atlas.Free width height) x y) : atlas.Flush width height x y := by
  have ⟨hw, hh⟩ := hu32
  have ⟨hleft, htop, hright, hbottom, _⟩ := h.1
  simp only [inner] at hleft htop hright hbottom
  constructor
  · rw [mem_flushCoordinates]
    refine ⟨?_, hleft, by omega⟩
    rcases h.flush_left with hedge | ⟨rect, hrect, hedge⟩
    · exact .inl hedge
    · right
      have ⟨used, hused, hsame⟩ := List.mem_map.mp hrect
      have ⟨_, _, hin, _⟩ := hpacked.inside used hused
      rw [hedge, ← hsame]
      exact List.mem_map.mpr ⟨used, hused, saturatingAdd_of_le (by omega)⟩
  · rw [mem_flushCoordinates]
    refine ⟨?_, htop, by omega⟩
    rcases h.flush_top with hedge | ⟨rect, hrect, hedge⟩
    · exact .inl hedge
    · right
      have ⟨used, hused, hsame⟩ := List.mem_map.mp hrect
      have ⟨_, _, _, hin⟩ := hpacked.inside used hused
      rw [hedge, ← hsame]
      exact List.mem_map.mpr ⟨used, hused, saturatingAdd_of_le (by omega)⟩

/-- The search finds nothing exactly when nothing is free. -/
theorem firstFitInGaps_eq_none_iff (hu32 : atlas.IsU32) (hpacked : atlas.Packed) :
    atlas.firstFitInGaps width height = none ↔ ∀ x y, ¬ atlas.Free width height x y := by
  constructor
  · intro hnone x y hfree
    have ⟨x, y, hfirst⟩ := exists_isFirst hfree
    have hflush := flush_of_isFirst hu32 hpacked hfirst
    have hclear := scan_eq_none_iff.mp hnone x hflush.1 y hflush.2
    have ⟨hleft, htop, hright, hbottom, _⟩ := hfirst.1
    simp only [inner] at hleft htop hright hbottom
    have hiff : atlas.Free width height x y ↔ atlas.clear ⟨x, y, width, height⟩ = true :=
      free_iff_clear hu32 hpacked hleft htop (by omega) (by omega)
    rw [hiff.mp hfirst.1] at hclear
    cases hclear
  · intro hfull
    cases hfound : atlas.firstFitInGaps width height with
    | none => rfl
    | some entry =>
      have ⟨_, _, hfirst⟩ := isFirst_of_firstFitInGaps hu32 hpacked hfound
      exact absurd hfirst.1.2 (hfull _ _)

/-- The search finds the first of all free positions. -/
theorem firstFitInGaps_eq_some_iff (hu32 : atlas.IsU32) (hpacked : atlas.Packed) :
    atlas.firstFitInGaps width height = some entry ↔
      entry.width = width ∧ entry.height = height ∧
        IsFirst (atlas.Free width height) entry.x entry.y := by
  have hfound : ∀ found, atlas.firstFitInGaps width height = some found →
      found.width = width ∧ found.height = height ∧
        IsFirst (atlas.Free width height) found.x found.y := by
    intro found hfound
    have ⟨hwidth, hheight, hflushed⟩ := isFirst_of_firstFitInGaps hu32 hpacked hfound
    have ⟨x, y, hfirst⟩ := exists_isFirst hflushed.1.2
    have hrestricted : IsFirst
        (fun x y ↦ atlas.Flush width height x y ∧ atlas.Free width height x y) x y :=
      hfirst.restrict ⟨flush_of_isFirst hu32 hpacked hfirst, hfirst.1⟩ fun _ _ h ↦ h.2
    have ⟨hx, hy⟩ := hflushed.unique hrestricted
    rw [← hx, ← hy] at hfirst
    exact ⟨hwidth, hheight, hfirst⟩
  constructor
  · exact hfound entry
  · rintro ⟨hwidth, hheight, hfirst⟩
    cases hsearch : atlas.firstFitInGaps width height with
    | none =>
      have hfull := (firstFitInGaps_eq_none_iff hu32 hpacked).mp hsearch
      exact absurd hfirst.1 (hfull _ _)
    | some found =>
      have ⟨hwidth', hheight', hfirst'⟩ := hfound found hsearch
      have ⟨hx, hy⟩ := hfirst'.unique hfirst
      have ⟨x, y, w, h⟩ := entry
      have ⟨x', y', w', h'⟩ := found
      simp_all

end Search

/-! ### Over calls -/

/-- What holds of the surface and of what is reserved on it. -/
structure Placed (atlas : GlyphAtlas Key) : Prop where
  width_pos : 1 ≤ atlas.width
  height_pos : 1 ≤ atlas.height
  bytes : atlas.width * atlas.height * atlas.format.depth ≤ u32Max
  packed : atlas.Packed
  shelf : 1 ≤ atlas.nextX ∧ 1 ≤ atlas.nextY
  memo : ∀ failed, atlas.noFitAtLeast = some failed → ∀ x y, ¬ atlas.Free failed.1 failed.2 x y

section Placed

variable {atlas after : GlyphAtlas Key} {width height x y : ℕ}

theorem Placed.isU32 (h : atlas.Placed) : atlas.IsU32 := by
  have hbytes := h.bytes
  have hdepth := atlas.format.depth_pos
  have hw := h.width_pos
  have hh := h.height_pos
  constructor
  · calc atlas.width ≤ atlas.width * (atlas.height * atlas.format.depth) :=
          Nat.le_mul_of_pos_right _ (Nat.mul_pos hh hdepth)
      _ ≤ u32Max := by rwa [← Nat.mul_assoc]
  · calc atlas.height ≤ atlas.height * (atlas.width * atlas.format.depth) :=
          Nat.le_mul_of_pos_right _ (Nat.mul_pos hw hdepth)
      _ ≤ u32Max := by rwa [← Nat.mul_assoc, Nat.mul_comm atlas.height]

/-- The size is checked against the surface. -/
theorem Placed.fits_iff (h : atlas.Placed) :
    atlas.fits width height = true ↔ width + 2 ≤ atlas.width ∧ height + 2 ≤ atlas.height := by
  have ⟨hw, hh⟩ := h.isU32
  simp only [fits, checkedAdd, Bool.and_eq_true]
  split <;> split <;> simp <;> omega

private theorem Free.fits (h : atlas.Free width height x y) :
    width + 2 ≤ atlas.width ∧ height + 2 ≤ atlas.height := by
  have ⟨hleft, htop, hright, hbottom, _⟩ := h
  simp only [inner] at hleft htop hright hbottom
  omega

/-- What is covered by the memo is not free. -/
theorem Placed.not_free_of_knownFull (h : atlas.Placed)
    (hfull : atlas.knownFull width height = true) : ¬ atlas.Free width height x y := by
  intro hfree
  rw [knownFull, Option.any_eq_true] at hfull
  have ⟨failed, hfailed, hcovers⟩ := hfull
  simp only [Bool.and_eq_true, decide_eq_true_eq] at hcovers
  exact h.memo failed hfailed x y (hfree.shrink hcovers.1 hcovers.2)

/-- An allocation that was free keeps the others apart. -/
theorem Packed.append (h : atlas.Packed)
    (hfree : atlas.Free entry.width entry.height entry.x entry.y)
    (hallocations : after.allocations = atlas.allocations ++ [entry])
    (hwidth : after.width = atlas.width) (hheight : after.height = atlas.height) :
    after.Packed where
  inside used hused := by
    have ⟨hleft, htop, hright, hbottom, _⟩ := hfree
    simp only [inner] at hleft htop hright hbottom
    rw [hallocations, List.mem_append, List.mem_singleton] at hused
    rw [hwidth, hheight]
    rcases hused with hold | rfl
    · exact h.inside used hold
    · omega
  disjoint := by
    rw [hallocations, List.pairwise_append]
    refine ⟨h.disjoint, List.pairwise_singleton _ _, ?_⟩
    intro used hused other hother
    rw [List.mem_singleton.mp hother]
    exact hfree.clear _ (List.mem_map_of_mem hused)

/-- More allocations leave less free. -/
theorem Free.of_append {entries : List GlyphAtlasEntry} (h : after.Free width height x y)
    (hallocations : after.allocations = atlas.allocations ++ entries)
    (hwidth : after.width = atlas.width) (hheight : after.height = atlas.height) :
    atlas.Free width height x y := by
  unfold Free
  have hinner : atlas.inner = after.inner := by rw [inner, inner, hwidth, hheight]
  rw [hinner]
  apply FreeAt.mono h (Nat.le_refl _) (Nat.le_refl _) (Nat.le_refl _) (Nat.le_refl _)
  · intro rect hrect
    rw [hallocations, List.map_append]
    exact List.mem_append_left _ hrect

/-! #### Reserving -/

/-- What is the same before and after a reservation. -/
structure SameSurface (atlas after : GlyphAtlas Key) : Prop where
  width : after.width = atlas.width
  height : after.height = atlas.height
  format : after.format = atlas.format
  entries : after.entries = atlas.entries
  pixels : after.pixels = atlas.pixels
  modified : after.modified = atlas.modified
  dirtyRegions : after.dirtyRegions = atlas.dirtyRegions
  resized : after.resized = atlas.resized
  modifications : after.modifications = atlas.modifications

private theorem SameSurface.trans {last : GlyphAtlas Key} (h : SameSurface atlas after)
    (h' : SameSurface after last) : SameSurface atlas last where
  width := h'.width.trans h.width
  height := h'.height.trans h.height
  format := h'.format.trans h.format
  entries := h'.entries.trans h.entries
  pixels := h'.pixels.trans h.pixels
  modified := h'.modified.trans h.modified
  dirtyRegions := h'.dirtyRegions.trans h.dirtyRegions
  resized := h'.resized.trans h.resized
  modifications := h'.modifications.trans h.modifications

/-- An attempt to take a free place for a size. -/
structure Attempted (atlas : GlyphAtlas Key) (width height : ℕ)
    (taken : Option GlyphAtlasEntry) (after : GlyphAtlas Key) : Prop where
  surface : SameSurface atlas after
  placed : after.Placed
  allocations : after.allocations = atlas.allocations ++ taken.toList
  free : ∀ entry, taken = some entry → entry.width = width ∧ entry.height = height ∧
    atlas.Free width height entry.x entry.y

/-- Only the surface and the allocations say what is free. -/
theorem SameSurface.free_iff (h : SameSurface atlas after)
    (hallocations : after.allocations = atlas.allocations) :
    after.Free width height x y ↔ atlas.Free width height x y := by
  rw [Free, Free, inner, inner, h.width, h.height, hallocations]

/-- An attempt that finds nothing. -/
theorem Attempted.none (h : SameSurface atlas after) (hplaced : after.Placed)
    (hallocations : after.allocations = atlas.allocations) :
    Attempted atlas width height none after where
  surface := h
  placed := hplaced
  allocations := by rw [hallocations, Option.toList_none, List.append_nil]
  free := nofun

/-- A changed shelf leaves the rest as it is. -/
theorem Placed.of_shelf (h : atlas.Placed) {nextX nextY rowHeight : ℕ} (hx : 1 ≤ nextX)
    (hy : 1 ≤ nextY) : Placed { atlas with nextX, nextY, rowHeight } :=
  ⟨h.width_pos, h.height_pos, h.bytes, ⟨h.packed.inside, h.packed.disjoint⟩, ⟨hx, hy⟩, h.memo⟩

private theorem Placed.wrapShelf (h : atlas.Placed) (width : ℕ) :
    (atlas.wrapShelf width).Placed := by
  rw [GlyphAtlas.wrapShelf]
  split
  · apply h.of_shelf (Nat.le_refl 1)
    exact le_saturatingAdd h.shelf.2 u32Max_pos
  · exact h

private theorem wrapShelf_same (atlas : GlyphAtlas Key) (width : ℕ) :
    SameSurface atlas (atlas.wrapShelf width) ∧
      (atlas.wrapShelf width).allocations = atlas.allocations ∧
      (atlas.wrapShelf width).noFitAtLeast = atlas.noFitAtLeast := by
  rw [wrapShelf]
  split <;> exact ⟨⟨rfl, rfl, rfl, rfl, rfl, rfl, rfl, rfl, rfl⟩, rfl, rfl⟩

/-- Behind the wrap the shelf has room in its row. -/
theorem nextX_wrapShelf_le (hfits : width + 2 ≤ atlas.width) :
    (atlas.wrapShelf width).nextX ≤ atlas.width - 1 - width := by
  rw [wrapShelf]
  split
  · dsimp only
    omega
  · omega

/-- An allocation of what is free, whatever becomes of the shelf. -/
theorem Placed.allocate (h : atlas.Placed) (entry : GlyphAtlasEntry) (nextX rowHeight : ℕ)
    (hfree : atlas.Free entry.width entry.height entry.x entry.y) (hx : 1 ≤ nextX) :
    Attempted atlas entry.width entry.height (some entry)
      { atlas with allocations := atlas.allocations ++ [entry], nextX, rowHeight } where
  surface := ⟨rfl, rfl, rfl, rfl, rfl, rfl, rfl, rfl, rfl⟩
  placed := {
    width_pos := h.width_pos
    height_pos := h.height_pos
    bytes := h.bytes
    packed := h.packed.append hfree rfl rfl rfl
    shelf := ⟨hx, h.shelf.2⟩
    memo := fun failed hfailed x y hfree' ↦
      h.memo failed hfailed x y (hfree'.of_append rfl rfl rfl) }
  allocations := rfl
  free other hother := by
    obtain rfl := Option.some.inj hother
    exact ⟨rfl, rfl, hfree⟩

/-- The shelf takes a free place, or it only moves on. -/
theorem Placed.reserveNextShelfSlot (h : atlas.Placed) (hwidth : width + 2 ≤ atlas.width)
    (hheight : height + 2 ≤ atlas.height) {slot : Option GlyphAtlasEntry}
    (hslot : atlas.reserveNextShelfSlot width height = (slot, after)) :
    Attempted atlas width height slot after := by
  have hwrapped := h.wrapShelf width
  have ⟨hsame, hallocations, _⟩ := wrapShelf_same atlas width
  have hroom := nextX_wrapShelf_le hwidth
  have hw := hsame.width
  have hh := hsame.height
  rw [GlyphAtlas.reserveNextShelfSlot] at hslot
  split at hslot
  case isTrue =>
    obtain ⟨rfl, rfl⟩ := Prod.mk.inj hslot
    exact .none hsame hwrapped hallocations
  case isFalse hrow =>
    split at hslot
    case isTrue hclear =>
      obtain ⟨rfl, rfl⟩ := Prod.mk.inj hslot
      have hx := hwrapped.shelf.1
      have hfree := (free_iff_clear hwrapped.isU32 hwrapped.packed hx hwrapped.shelf.2
        (by omega) (by omega)).mpr hclear
      have htaken := hwrapped.allocate ⟨_, _, width, height⟩
        (saturatingAdd u32Max (saturatingAdd u32Max (atlas.wrapShelf width).nextX width) 1)
        (max (atlas.wrapShelf width).rowHeight (saturatingAdd u32Max height 1)) hfree
        (le_saturatingAdd (le_saturatingAdd hx u32Max_pos) u32Max_pos)
      refine ⟨hsame.trans htaken.surface, htaken.placed, ?_, ?_⟩
      · rw [htaken.allocations, hallocations]
      · intro entry hentry
        have ⟨hwidth', hheight', hfree'⟩ := htaken.free entry hentry
        exact ⟨hwidth', hheight', (hsame.free_iff hallocations).mp hfree'⟩
    case isFalse =>
      obtain ⟨rfl, rfl⟩ := Prod.mk.inj hslot
      exact .none hsame hwrapped hallocations

/-- A reservation takes a free place, or there is none. -/
structure Reserved (atlas : GlyphAtlas Key) (width height : ℕ)
    (reserved : Option GlyphAtlasEntry) (after : GlyphAtlas Key) : Prop
    extends Attempted atlas width height reserved after where
  none_iff : reserved = none ↔ ∀ x y, ¬ atlas.Free width height x y

/-- A place that was taken was free. -/
theorem Attempted.reserved (h : Attempted atlas width height (some entry) after) :
    Reserved atlas width height (some entry) after where
  toAttempted := h
  none_iff := by
    have ⟨_, _, hfree⟩ := h.free entry rfl
    exact iff_of_false nofun fun hfull ↦ hfull _ _ hfree

/-- Where the shelf has no place, the gaps are searched, and a failure is remembered. -/
theorem Placed.place (h : atlas.Placed) (hwidth : width + 2 ≤ atlas.width)
    (hheight : height + 2 ≤ atlas.height) :
    Reserved atlas width height (atlas.place width height).1 (atlas.place width height).2 := by
  rw [GlyphAtlas.place]
  split
  case h_1 entry shelved hslot => exact (h.reserveNextShelfSlot hwidth hheight hslot).reserved
  case h_2 shelved hslot =>
    have hshelf := h.reserveNextShelfSlot hwidth hheight hslot
    have hplaced := hshelf.placed
    have hallocations : shelved.allocations = atlas.allocations := by
      simpa using hshelf.allocations
    have hiff : ∀ x y, shelved.Free width height x y ↔ atlas.Free width height x y :=
      fun x y ↦ hshelf.surface.free_iff hallocations
    split
    case h_1 entry hgap =>
      have ⟨hw, hh, hfirst⟩ :=
        (firstFitInGaps_eq_some_iff hplaced.isU32 hplaced.packed).mp hgap
      have hfree := hfirst.1
      rw [← hw, ← hh] at hfree
      have htaken := hplaced.allocate entry shelved.nextX shelved.rowHeight hfree hplaced.shelf.1
      apply Attempted.reserved
      refine ⟨hshelf.surface.trans htaken.surface, htaken.placed, ?_, ?_⟩
      · rw [htaken.allocations, hallocations]
      · intro other hother
        obtain rfl := Option.some.inj hother
        exact ⟨hw, hh, (hiff _ _).mp hfirst.1⟩
    case h_2 hgap =>
      have hfull := (firstFitInGaps_eq_none_iff hplaced.isU32 hplaced.packed).mp hgap
      have hsurface := hshelf.surface
      constructor
      · apply Attempted.none
        · exact ⟨hsurface.width, hsurface.height, hsurface.format, hsurface.entries,
            hsurface.pixels, hsurface.modified, hsurface.dirtyRegions, hsurface.resized,
            hsurface.modifications⟩
        · refine ⟨hplaced.width_pos, hplaced.height_pos, hplaced.bytes,
            ⟨hplaced.packed.inside, hplaced.packed.disjoint⟩, hplaced.shelf, ?_⟩
          intro failed hfailed
          obtain rfl := Option.some.inj hfailed
          exact hfull
        · exact hallocations
      · exact iff_of_true rfl fun x y hfree ↦ hfull x y ((hiff x y).mpr hfree)

/-- What `reserve` does from a well formed atlas. -/
theorem Placed.reserve (h : atlas.Placed) (width height : ℕ) :
    Reserved atlas (max width 1) (max height 1) (atlas.reserve width height).1
      (atlas.reserve width height).2 := by
  have hsame : SameSurface atlas atlas := ⟨rfl, rfl, rfl, rfl, rfl, rfl, rfl, rfl, rfl⟩
  rw [GlyphAtlas.reserve]
  split
  case isTrue hunfit =>
    refine ⟨.none hsame h rfl, iff_of_true rfl fun x y hfree ↦ ?_⟩
    rw [Bool.not_eq_true', ← Bool.not_eq_true, h.fits_iff] at hunfit
    exact hunfit hfree.fits
  case isFalse hfit =>
    rw [Bool.not_eq_true', Bool.not_eq_false, h.fits_iff] at hfit
    split
    case isTrue hknown =>
      exact ⟨.none hsame h rfl, iff_of_true rfl fun x y ↦ h.not_free_of_knownFull hknown⟩
    case isFalse => exact h.place hfit.1 hfit.2

/-! #### Growing and recycling -/

/-- The atlas is large enough as it is, or it gets the larger dimensions. -/
theorem tryGrowWithByteLimit_eq_ok {byteLimit : ℕ}
    (h : atlas.tryGrowWithByteLimit width height byteLimit = .ok after) :
    (width ≤ atlas.width ∧ height ≤ atlas.height) ∧ after = atlas ∨
      ¬ (width ≤ atlas.width ∧ height ≤ atlas.height) ∧
        max width atlas.width * max height atlas.height * atlas.format.depth ≤ u32Max ∧
        after = atlas.resize (max width atlas.width) (max height atlas.height)
          (max width atlas.width * max height atlas.height * atlas.format.depth)
          (atlas.width * atlas.format.depth) (max width atlas.width * atlas.format.depth) := by
  have hdepth := atlas.format.depth_pos
  rw [tryGrowWithByteLimit] at h
  split at h
  case isTrue hsame =>
    left
    exact ⟨⟨by omega, by omega⟩, (Except.ok.inj h).symm⟩
  case isFalse hlarger =>
    split at h
    case h_1 => cases h
    case h_2 byteLen hbytes =>
      split at h
      case isTrue => cases h
      case isFalse =>
        split at h
        case h_1 oldStride newStride hold hnew =>
          obtain ⟨hfit, hlen⟩ := (atlasByteLen_eq_some hdepth).mp hbytes
          obtain ⟨_, holdLen⟩ := (atlasByteLen_eq_some hdepth).mp hold
          obtain ⟨_, hnewLen⟩ := (atlasByteLen_eq_some hdepth).mp hnew
          right
          refine ⟨by omega, hfit, ?_⟩
          rw [← Except.ok.inj h, ← hlen, ← holdLen, ← hnewLen, Nat.mul_one, Nat.mul_one]
        case h_2 => cases h

/-- A surface whose bytes can be counted is grown to. -/
theorem Placed.grow_isOk (h : atlas.Placed)
    (hbytes : max width atlas.width * max height atlas.height * atlas.format.depth ≤ u32Max) :
    ∃ after, atlas.grow width height = .ok after := by
  have hdepth := atlas.format.depth_pos
  have hw := h.width_pos
  have hh := h.height_pos
  rw [GlyphAtlas.grow, tryGrowWithByteLimit]
  split
  · exact ⟨_, rfl⟩
  · have hstride : ∀ w, w * max height atlas.height * atlas.format.depth ≤ u32Max →
        atlasByteLen w 1 atlas.format.depth = some (w * 1 * atlas.format.depth) := by
      intro w hfit
      refine (atlasByteLen_eq_some hdepth).mpr ⟨?_, rfl⟩
      refine Nat.le_trans (Nat.mul_le_mul_right _ (Nat.mul_le_mul_left w ?_)) hfit
      omega
    have hold : atlas.width * max height atlas.height * atlas.format.depth ≤ u32Max :=
      Nat.le_trans (Nat.mul_le_mul_right _ (Nat.mul_le_mul_right _ (Nat.le_max_right _ _))) hbytes
    have hlimit : ¬ usizeMax < max width atlas.width * max height atlas.height *
        atlas.format.depth := by
      have hmax : u32Max ≤ usizeMax := by decide
      omega
    rw [(atlasByteLen_eq_some hdepth).mpr ⟨hbytes, rfl⟩]
    dsimp only
    rw [if_neg hlimit, hstride _ hold, hstride _ hbytes]
    exact ⟨_, rfl⟩

theorem Placed.resize (h : atlas.Placed) {byteLen oldStride newStride : ℕ}
    (hwidth : atlas.width ≤ width) (hheight : atlas.height ≤ height)
    (hbytes : width * height * atlas.format.depth ≤ u32Max) :
    (atlas.resize width height byteLen oldStride newStride).Placed where
  width_pos := Nat.le_trans h.width_pos hwidth
  height_pos := Nat.le_trans h.height_pos hheight
  bytes := hbytes
  packed := {
    inside := fun used hused ↦ by
      have ⟨hx, hy, hright, hbottom⟩ := h.packed.inside used hused
      exact ⟨hx, hy, Nat.le_trans hright hwidth, Nat.le_trans hbottom hheight⟩
    disjoint := h.packed.disjoint }
  shelf := h.shelf
  memo := nofun

/-- A growth keeps what is placed. -/
theorem Placed.tryGrow (h : atlas.Placed) {byteLimit : ℕ}
    (hgrow : atlas.tryGrowWithByteLimit width height byteLimit = .ok after) : after.Placed := by
  rcases tryGrowWithByteLimit_eq_ok hgrow with ⟨_, rfl⟩ | ⟨_, hbytes, rfl⟩
  · exact h
  · exact h.resize (Nat.le_max_right _ _) (Nat.le_max_right _ _) hbytes

theorem Placed.recycle (h : atlas.Placed) : atlas.recycle.Placed where
  width_pos := h.width_pos
  height_pos := h.height_pos
  bytes := h.bytes
  packed := ⟨by simp [GlyphAtlas.recycle, touch], by simp [GlyphAtlas.recycle, touch]⟩
  shelf := ⟨Nat.le_refl 1, Nat.le_refl 1⟩
  memo := nofun

/-- A recycled surface has a place for what fits it. -/
theorem Placed.free_recycle (h : atlas.Placed) (hfits : atlas.fits width height = true) :
    atlas.recycle.Free width height 1 1 := by
  have ⟨hwidth, hheight⟩ := h.fits_iff.mp hfits
  refine ⟨Nat.le_refl 1, Nat.le_refl 1, ?_, ?_, nofun⟩ <;>
    simp only [inner, GlyphAtlas.recycle, touch] <;> omega

/-- Painting and recording what was painted do not move anything. -/
theorem Placed.blit (h : atlas.Placed) (entry : GlyphAtlasEntry) (source : BlitSource) :
    (atlas.blit entry source).Placed :=
  ⟨h.width_pos, h.height_pos, h.bytes, ⟨h.packed.inside, h.packed.disjoint⟩, h.shelf, h.memo⟩

end Placed
end GlyphAtlas
end Bootty.Ui
