import Bootty.Terminal.FrameWire
import Bootty.Base.ListEdits
import Mathlib.Algebra.Order.BigOperators.Group.List

/-!
# Images on the wire

Which placements of a frame are sent is a property of the frame alone: `accept` charges each
image once, in the order of the placements, and leaves out what exceeds a budget. While the
encoder goes through the placements, every key it hands out belongs to an image that the
decoder has from an earlier frame or that is pending.
-/

namespace Bootty.Terminal

open Bootty.Base

variable [vt : VtLibrary]

/-! ### Admission -/

/-- The budget an image takes. -/
def imageCost (bytes : List UInt8) : Nat := bytes.length + imageEntryBytes

/-- An image that is neither too large by itself nor with the images admitted before it. -/
def fits (used : Nat) (bytes : List UInt8) : Prop :=
  bytes.length ≤ maxImageContentBytes ∧ imageCost bytes ≤ maxFrameImageBytes - used

/-- Whether an image fits is decidable. -/
instance (used : Nat) (bytes : List UInt8) : Decidable (fits used bytes) :=
  inferInstanceAs (Decidable (_ ∧ _))

/-- The placements whose image is within the budgets; an image counts once. -/
def accept : Nat → List Nat → List KittyImagePlacement → List KittyImagePlacement
  | _, _, [] => []
  | used, seen, p :: ps =>
    if p.imageId ∈ seen then p :: accept used seen ps
    else if fits used p.data then p :: accept (used + imageCost p.data) (p.imageId :: seen) ps
    else accept used seen ps

/-- The frame without the placements that exceed the image budgets. -/
def RenderFrame.admitted (frame : RenderFrame) : RenderFrame :=
  { frame with images := { frame.images with placements := accept 0 [] frame.images.placements } }

omit vt in
private theorem charge_le_iff (used : Nat) (bytes : List UInt8) :
    (bytes.length ≤ maxImageContentBytes ∧
      saturatingAdd bytes.length imageEntryBytes ≤ maxFrameImageBytes - used) ↔ fits used bytes := by
  unfold fits saturatingAdd imageCost usizeMax maxFrameImageBytes
  omega

omit vt in
private theorem saturatingAdd_of_fits {used : Nat} {bytes : List UInt8} (h : fits used bytes)
    (hused : used ≤ maxFrameImageBytes) :
    saturatingAdd used (saturatingAdd bytes.length imageEntryBytes) = used + imageCost bytes := by
  have hmax : maxFrameImageBytes = 64 * 1024 * 1024 := rfl
  unfold fits imageCost at h
  unfold saturatingAdd imageCost usizeMax
  omega

/-! ### The encoder's loop -/

/-- What the encoder knows in the middle of a frame: `known` is its map at the start of the
frame and `data` the content of each image of the frame. -/
structure Charged (known : Nat → Option (ImageKey × List UInt8)) (data : Nat → List UInt8)
    (seen : List Nat) (encoder : FrameEncoder) : Prop where
  seen_eq : encoder.frameImages.map (·.imageId) = seen
  nodup : seen.Nodup
  bytes_eq : encoder.frameImageBytes = (seen.map fun id ↦ imageCost (data id)).sum
  bytes_le : encoder.frameImageBytes ≤ maxFrameImageBytes
  image : ∀ key ∈ encoder.frameImages, encoder.images key.imageId = some (key, data key.imageId)
  source : ∀ key ∈ encoder.frameImages, known key.imageId = some (key, data key.imageId) ∨
    ⟨key, data key.imageId⟩ ∈ encoder.pending
  pending : ∀ content ∈ encoder.pending,
    content.key.generation = encoder.sequence ∧ content.bytes = data content.key.imageId
  pending_sublist : (encoder.pending.map (·.key)).Sublist encoder.frameImages.reverse
  unseen : ∀ id ∉ seen, encoder.images id = none ∨ encoder.images id = known id

/-- The images known at the start of a frame have older keys of their own. -/
def Older (known : Nat → Option (ImageKey × List UInt8)) (sequence : Nat) : Prop :=
  ∀ id key bytes, known id = some (key, bytes) → key.imageId = id ∧ key.generation < sequence

namespace Charged

variable {known : Nat → Option (ImageKey × List UInt8)} {data : Nat → List UInt8}
  {seen : List Nat} {encoder : FrameEncoder} {p : KittyImagePlacement}

private theorem reference_seen (h : Charged known data seen encoder)
    (hdata : p.data = data p.imageId) (hseen : p.imageId ∈ seen) :
    ∃ key ∈ encoder.frameImages, key.imageId = p.imageId ∧
      encoder.referenceImage p = (some key, encoder) := by
  rw [← h.seen_eq] at hseen
  obtain ⟨key, hkey, hid⟩ := List.mem_map.mp hseen
  have himage := h.image key hkey
  rw [hid, ← hdata] at himage
  refine ⟨key, hkey, hid, ?_⟩
  simp [FrameEncoder.referenceImage, FrameEncoder.imageKey, himage, hkey]

/-- An image that has not been charged gets a key that the frame has not used; if the decoder
does not know it, it is new. -/
private theorem imageKey_unseen (h : Charged known data seen encoder)
    (holder : Older known encoder.sequence) (hseen : p.imageId ∉ seen) :
    ∃ key, key.imageId = p.imageId ∧ key ∉ encoder.frameImages ∧
      encoder.imageKey p = (key, { encoder with
        images := Function.update encoder.images p.imageId (some (key, p.data)) }) ∧
      ((encoder.images p.imageId).map Prod.fst = some key ∧ known p.imageId = some (key, p.data) ∨
        (encoder.images p.imageId).map Prod.fst ≠ some key ∧
          key.generation = encoder.sequence) := by
  have hfresh : ∀ key : ImageKey, key.imageId = p.imageId → key ∉ encoder.frameImages := by
    intro key hid hmem
    apply hseen
    rw [← h.seen_eq, ← hid]
    exact List.mem_map_of_mem hmem
  cases himage : encoder.images p.imageId with
  | none =>
    refine ⟨⟨p.imageId, encoder.sequence⟩, rfl, hfresh _ rfl, ?_, ?_⟩
    · simp [FrameEncoder.imageKey, himage]
    · simp
  | some entry =>
    obtain ⟨key, bytes⟩ := entry
    have hknown : known p.imageId = some (key, bytes) := by
      rcases h.unseen _ hseen with hnone | hsame
      · rw [hnone] at himage
        cases himage
      · rw [← hsame, himage]
    obtain ⟨hid, hgeneration⟩ := holder _ _ _ hknown
    by_cases hbytes : bytes = p.data
    · subst hbytes
      refine ⟨key, hid, hfresh _ hid, ?_, ?_⟩
      · simp only [FrameEncoder.imageKey, himage, if_true]
        rw [← himage, Function.update_eq_self]
      · exact .inl ⟨by simp, hknown⟩
    · refine ⟨⟨p.imageId, encoder.sequence⟩, rfl, hfresh _ rfl, ?_, ?_⟩
      · simp [FrameEncoder.imageKey, himage, hbytes]
      · refine .inr ⟨?_, rfl⟩
        simp only [Option.map_some, ne_eq, Option.some.injEq]
        rintro rfl
        exact absurd hgeneration (Nat.lt_irrefl _)

private theorem reference_fits (h : Charged known data seen encoder)
    (holder : Older known encoder.sequence) (hdata : p.data = data p.imageId)
    (hseen : p.imageId ∉ seen) (hfits : fits encoder.frameImageBytes p.data) :
    ∃ key next, encoder.referenceImage p = (some key, next) ∧ key.imageId = p.imageId ∧
      next.frameImages = key :: encoder.frameImages ∧ next.sequence = encoder.sequence ∧
      next.frameImageBytes = encoder.frameImageBytes + imageCost p.data ∧
      Charged known data (p.imageId :: seen) next := by
  obtain ⟨key, hid, hnew, hkey, hcases⟩ := h.imageKey_unseen holder hseen
  have hcharge := (charge_le_iff encoder.frameImageBytes p.data).mpr hfits
  have hsum := saturatingAdd_of_fits hfits h.bytes_le
  have hle : imageCost p.data ≤ maxFrameImageBytes - encoder.frameImageBytes := hfits.2
  have hreference := FrameEncoder.referenceImage.eq_def encoder p
  simp only [hkey, if_neg hnew, if_pos hcharge, hsum] at hreference
  refine ⟨key, _, hreference, hid, rfl, rfl, rfl, ?_⟩
  have hother : ∀ other ∈ encoder.frameImages, other.imageId ≠ p.imageId := by
    intro other hmem heq
    apply hseen
    rw [← h.seen_eq, ← heq]
    exact List.mem_map_of_mem hmem
  have hpending : ∀ content ∈ (if (encoder.images p.imageId).map Prod.fst ≠ some key then
      encoder.pending ++ [⟨key, p.data⟩] else encoder.pending),
        content ∈ encoder.pending ∨ content = ⟨key, p.data⟩ ∧
          key.generation = encoder.sequence := by
    intro content hmem
    rcases hcases with ⟨hsame, -⟩ | ⟨hdiff, hgeneration⟩
    · rw [if_neg (by simpa using hsame)] at hmem
      exact .inl hmem
    · rw [if_pos hdiff, List.mem_append, List.mem_singleton] at hmem
      rcases hmem with hmem | rfl
      · exact .inl hmem
      · exact .inr ⟨rfl, hgeneration⟩
  refine ⟨?_, ?_, ?_, ?_, ?_, ?_, ?_, ?_, ?_⟩
  · simp [hid, h.seen_eq]
  · exact List.nodup_cons.mpr ⟨hseen, h.nodup⟩
  · simp only [List.map_cons, List.sum_cons, ← hdata, h.bytes_eq]
    omega
  · simp only
    have := h.bytes_le
    omega
  · intro other hmem
    rcases List.mem_cons.mp hmem with rfl | hmem
    · simp [hid, hdata]
    · simp only
      rw [Function.update_of_ne (hother other hmem)]
      exact h.image other hmem
  · intro other hmem
    rcases List.mem_cons.mp hmem with rfl | hmem
    · rcases hcases with ⟨-, hknown⟩ | ⟨hdiff, -⟩
      · left
        rw [hid, hknown, hdata]
      · right
        simp only [if_pos hdiff, hid, ← hdata]
        exact List.mem_append_right _ (List.mem_singleton_self _)
    · rcases h.source other hmem with hknown | hsent
      · exact .inl hknown
      · right
        simp only
        split
        · exact List.mem_append_left _ hsent
        · exact hsent
  · intro content hmem
    rcases hpending content hmem with hold | ⟨rfl, hgeneration⟩
    · exact h.pending content hold
    · exact ⟨hgeneration, by rw [hid]; exact hdata⟩
  · simp only [List.reverse_cons]
    split
    · rw [List.map_append]
      exact h.pending_sublist.append (List.Sublist.refl _)
    · exact h.pending_sublist.trans (List.sublist_append_left _ _)
  · intro id hnotMem
    rw [List.mem_cons, not_or] at hnotMem
    simp only
    rw [Function.update_of_ne hnotMem.1]
    exact h.unseen id hnotMem.2

private theorem reference_rejected (h : Charged known data seen encoder)
    (holder : Older known encoder.sequence) (hseen : p.imageId ∉ seen)
    (hfits : ¬ fits encoder.frameImageBytes p.data) :
    ∃ next, encoder.referenceImage p = (none, next) ∧
      next.frameImages = encoder.frameImages ∧ next.sequence = encoder.sequence ∧
      next.frameImageBytes = encoder.frameImageBytes ∧ Charged known data seen next := by
  obtain ⟨key, hid, hnew, hkey, -⟩ := h.imageKey_unseen holder hseen
  have hcharge := (charge_le_iff encoder.frameImageBytes p.data).not.mpr hfits
  have hreference := FrameEncoder.referenceImage.eq_def encoder p
  simp only [hkey, if_neg hnew, if_neg hcharge, hid, Function.update_idem] at hreference
  refine ⟨_, hreference, rfl, rfl, rfl, ?_⟩
  refine ⟨h.seen_eq, h.nodup, h.bytes_eq, h.bytes_le, ?_, h.source, h.pending, h.pending_sublist, ?_⟩
  · intro other hmem
    have hne : other.imageId ≠ p.imageId := by
      intro heq
      apply hseen
      rw [← h.seen_eq, ← heq]
      exact List.mem_map_of_mem hmem
    simp only
    rw [Function.update_of_ne hne]
    exact h.image other hmem
  · intro id hnotMem
    simp only
    by_cases hsame : id = p.imageId
    · subst hsame
      exact .inl (Function.update_self _ _ _)
    · rw [Function.update_of_ne hsame]
      exact h.unseen id hnotMem

/-- The placements that go over the wire are the admitted ones, each with the key of its
image. -/
theorem wirePlacements_accept {ps : List KittyImagePlacement}
    (h : Charged known data seen encoder) (holder : Older known encoder.sequence)
    (hdata : ∀ p ∈ ps, p.data = data p.imageId) :
    (∃ seen', Charged known data seen' (encoder.wirePlacements ps).2) ∧
      (encoder.wirePlacements ps).2.sequence = encoder.sequence ∧
      List.Forall₂ (fun p wire ↦ ∃ key ∈ (encoder.wirePlacements ps).2.frameImages,
          key.imageId = p.imageId ∧ p.data = data p.imageId ∧
          wire = FrameEncoder.wirePlacement key p)
        (accept encoder.frameImageBytes seen ps) (encoder.wirePlacements ps).1 ∧
      ∀ key, key ∈ (encoder.wirePlacements ps).2.frameImages ↔
        key ∈ encoder.frameImages ∨ key ∈ (encoder.wirePlacements ps).1.map (·.key) := by
  induction ps generalizing encoder seen with
  | nil => exact ⟨⟨seen, h⟩, rfl, .nil, by simp [FrameEncoder.wirePlacements]⟩
  | cons p ps ih =>
    have hp := hdata p List.mem_cons_self
    have hps : ∀ p ∈ ps, p.data = data p.imageId := fun q hq ↦ hdata q (List.mem_cons_of_mem _ hq)
    by_cases hseen : p.imageId ∈ seen
    · obtain ⟨key, hkey, hid, hreference⟩ := h.reference_seen hp hseen
      obtain ⟨hcharged, hsequence, hforall, hkeys⟩ := ih h holder hps
      have hmem := (hkeys key).mpr (.inl hkey)
      rw [FrameEncoder.wirePlacements, hreference, accept, if_pos hseen]
      refine ⟨hcharged, hsequence, .cons ⟨key, hmem, hid, hp, rfl⟩ hforall, ?_⟩
      intro other
      rw [hkeys other, List.map_cons, List.mem_cons]
      constructor
      · rintro (hold | hsent)
        · exact .inl hold
        · exact .inr (.inr hsent)
      · rintro (hold | rfl | hsent)
        · exact .inl hold
        · exact .inl hkey
        · exact .inr hsent
    · by_cases hfits : fits encoder.frameImageBytes p.data
      · obtain ⟨key, next, hreference, hid, himages, hsequence, hbytes, hnext⟩ :=
          h.reference_fits holder hp hseen hfits
        rw [← hsequence] at holder
        obtain ⟨hcharged, hsequence', hforall, hkeys⟩ := ih hnext holder hps
        rw [hbytes] at hforall
        rw [himages] at hkeys
        have hmem := (hkeys key).mpr (.inl List.mem_cons_self)
        rw [FrameEncoder.wirePlacements, hreference, accept, if_neg hseen, if_pos hfits]
        refine ⟨hcharged, hsequence'.trans hsequence, .cons ⟨key, hmem, hid, hp, rfl⟩ hforall, ?_⟩
        intro other
        rw [hkeys other, List.map_cons, List.mem_cons, List.mem_cons]
        constructor
        · rintro ((rfl | hold) | hsent)
          · exact .inr (.inl rfl)
          · exact .inl hold
          · exact .inr (.inr hsent)
        · rintro (hold | rfl | hsent)
          · exact .inl (.inr hold)
          · exact .inl (.inl rfl)
          · exact .inr hsent
      · obtain ⟨next, hreference, himages, hsequence, hbytes, hnext⟩ :=
          h.reference_rejected holder hseen hfits
        rw [← hsequence] at holder
        obtain ⟨hcharged, hsequence', hforall, hkeys⟩ := ih hnext holder hps
        rw [hbytes] at hforall
        rw [himages] at hkeys
        rw [FrameEncoder.wirePlacements, hreference, accept, if_neg hseen, if_neg hfits]
        exact ⟨hcharged, hsequence'.trans hsequence, hforall, hkeys⟩

end Charged

/-! ### The decoder's table -/

/-- What the images of a table take of the retained budget. -/
def tableCost (table : ImageTable) : Nat := (table.map fun entry ↦ imageCost entry.2).sum

omit vt in
/-- What a table of images costs. -/
theorem tableCost_eq (table : ImageTable) :
    tableCost table = (table.map (·.2.length)).sum + table.length * imageEntryBytes := by
  induction table with
  | nil => rfl
  | cons entry table ih =>
    simp only [tableCost, List.map_cons, List.sum_cons, List.length_cons, imageCost] at ih ⊢
    rw [ih, Nat.add_mul]
    omega

/-- An image under a new key is retained as long as the budget allows it. -/
theorem insertImage_eq_ok {decoder : FrameDecoder} {content : ImageContent}
    (hnew : content.key ∉ decoder.images.map Prod.fst)
    (hcost : tableCost decoder.images + imageCost content.bytes ≤ maxRetainedImageBytes) :
    decoder.insertImage content =
      .ok { decoder with images := (content.key, content.bytes) :: decoder.images } := by
  have hmax : maxRetainedImageBytes = 128 * 1024 * 1024 := rfl
  rw [tableCost_eq, hmax] at hcost
  unfold imageCost at hcost
  have hlookup : decoder.images.lookup content.key = none := by
    rw [List.lookup_eq_none_iff]
    intro entry hentry
    rw [bne_iff_ne]
    intro heq
    exact hnew (List.mem_map.mpr ⟨entry, hentry, heq.symm⟩)
  have hkeep : decoder.images.filter (fun entry ↦ entry.1 != content.key) = decoder.images := by
    rw [List.filter_eq_self]
    intro entry hentry
    simp only [bne_iff_ne]
    intro heq
    exact hnew (List.mem_map.mpr ⟨entry, hentry, heq⟩)
  simp only [FrameDecoder.insertImage, hlookup, hkeep, Option.elim_none]
  rw [if_neg]
  unfold entryCost saturatingAdd usizeMax
  rw [hmax]
  omega

/-- Images under distinct new keys are all retained as long as the budget allows it. -/
theorem foldlM_insertImage (decoder : FrameDecoder) {contents : List ImageContent}
    (hnew : ∀ content ∈ contents, content.key ∉ decoder.images.map Prod.fst)
    (hnodup : (contents.map (·.key)).Nodup)
    (hcost : tableCost decoder.images + (contents.map fun content ↦ imageCost content.bytes).sum ≤
      maxRetainedImageBytes) :
    ∃ next, contents.foldlM FrameDecoder.insertImage decoder = .ok next ∧
      next.previous = decoder.previous ∧
      next.images.Perm (contents.map (fun content ↦ (content.key, content.bytes)) ++
        decoder.images) := by
  induction contents generalizing decoder with
  | nil => exact ⟨decoder, rfl, rfl, List.Perm.refl _⟩
  | cons content contents ih =>
    obtain ⟨hhead, htail⟩ := List.nodup_cons.mp hnodup
    rw [List.map_cons, List.sum_cons] at hcost
    have hinsert := insertImage_eq_ok (hnew content List.mem_cons_self) (by omega)
    let inserted : FrameDecoder :=
      { decoder with images := (content.key, content.bytes) :: decoder.images }
    have hothers : ∀ other ∈ contents, other.key ∉ inserted.images.map Prod.fst := by
      intro other hother
      rw [List.map_cons, List.mem_cons, not_or]
      refine ⟨?_, hnew other (List.mem_cons_of_mem _ hother)⟩
      intro heq
      exact hhead (List.mem_map.mpr ⟨other, hother, heq⟩)
    have hrest : tableCost inserted.images +
        (contents.map fun content ↦ imageCost content.bytes).sum ≤ maxRetainedImageBytes := by
      simp only [inserted, tableCost, List.map_cons, List.sum_cons] at hcost ⊢
      omega
    obtain ⟨next, hnext, hprevious, hperm⟩ := ih inserted hothers htail hrest
    refine ⟨next, ?_, hprevious, ?_⟩
    · rw [List.foldlM_cons, hinsert, ok_bind]
      exact hnext
    · refine hperm.trans ?_
      rw [List.map_cons, List.cons_append]
      exact List.perm_middle

/-! ### The two sides of a frame -/

namespace Charged

variable {known : Nat → Option (ImageKey × List UInt8)} {data : Nat → List UInt8}
  {seen : List Nat} {encoder : FrameEncoder}

private theorem nodup_frameImages (h : Charged known data seen encoder) :
    encoder.frameImages.Nodup := by
  have hn := h.nodup
  rw [← h.seen_eq] at hn
  exact hn.of_map _

private theorem sum_le (h : Charged known data seen encoder) {keys : List ImageKey}
    (hn : keys.Nodup) (hsub : keys ⊆ encoder.frameImages) :
    (keys.map fun key ↦ imageCost (data key.imageId)).sum ≤ maxFrameImageBytes := by
  obtain ⟨sorted, hperm, hsublist⟩ := List.subperm_of_subset hn hsub
  calc (keys.map fun key ↦ imageCost (data key.imageId)).sum
      = (sorted.map fun key ↦ imageCost (data key.imageId)).sum := (hperm.map _).sum_eq.symm
    _ ≤ (encoder.frameImages.map fun key ↦ imageCost (data key.imageId)).sum :=
        (hsublist.map _).sum_le_sum (fun _ _ ↦ Nat.zero_le _)
    _ = encoder.frameImageBytes := by
        rw [h.bytes_eq, ← h.seen_eq, List.map_map]
        rfl
    _ ≤ maxFrameImageBytes := h.bytes_le

/-- Images are sent for the frame. -/
theorem pending_keys (h : Charged known data seen encoder) {content : ImageContent}
    (hmem : content ∈ encoder.pending) : content.key ∈ encoder.frameImages := by
  have hkey := h.pending_sublist.subset (List.mem_map_of_mem hmem)
  exact List.mem_reverse.mp hkey

theorem pending_nodup (h : Charged known data seen encoder) :
    (encoder.pending.map (·.key)).Nodup :=
  (List.nodup_reverse.mpr h.nodup_frameImages).sublist h.pending_sublist

/-- They fit the budget. -/
theorem pending_cost (h : Charged known data seen encoder) :
    (encoder.pending.map fun content ↦ imageCost content.bytes).sum ≤ maxFrameImageBytes := by
  have hbytes : (encoder.pending.map fun content ↦ imageCost content.bytes) =
      (encoder.pending.map (·.key)).map fun key ↦ imageCost (data key.imageId) := by
    rw [List.map_map]
    apply List.map_congr_left
    intro content hmem
    simp only [Function.comp_apply, (h.pending content hmem).2]
  rw [hbytes]
  apply h.sum_le h.pending_nodup
  intro key hkey
  obtain ⟨content, hmem, rfl⟩ := List.mem_map.mp hkey
  exact h.pending_keys hmem

/-- A table of images of the frame is within the frame's budget. -/
theorem tableCost_le (h : Charged known data seen encoder) {table : ImageTable}
    (hn : (table.map Prod.fst).Nodup)
    (hentry : ∀ entry ∈ table, entry.1 ∈ encoder.frameImages ∧ entry.2 = data entry.1.imageId) :
    tableCost table ≤ maxFrameImageBytes := by
  have hbytes : (table.map fun entry ↦ imageCost entry.2) =
      (table.map Prod.fst).map fun key ↦ imageCost (data key.imageId) := by
    rw [List.map_map]
    apply List.map_congr_left
    intro entry hmem
    simp only [Function.comp_apply, (hentry entry hmem).2]
  rw [tableCost, hbytes]
  apply h.sum_le hn
  intro key hkey
  obtain ⟨entry, hmem, rfl⟩ := List.mem_map.mp hkey
  exact (hentry entry hmem).1

/-- An image that keeps a key of the frame is the image that the key was handed out for. -/
theorem image_of_mem (h : Charged known data seen encoder) (holder : Older known encoder.sequence)
    {id : Nat} {key : ImageKey} {bytes : List UInt8} (himage : encoder.images id = some (key, bytes))
    (hkey : key ∈ encoder.frameImages) : key.imageId = id ∧ bytes = data key.imageId := by
  have hid : key.imageId = id := by
    by_cases hseen : id ∈ seen
    · rw [← h.seen_eq] at hseen
      obtain ⟨other, hother, rfl⟩ := List.mem_map.mp hseen
      have hsame := h.image other hother
      rw [himage, Option.some.injEq, Prod.mk.injEq] at hsame
      rw [hsame.1]
    · rcases h.unseen id hseen with hnone | hsame
      · rw [hnone] at himage
        cases himage
      · rw [hsame] at himage
        exact (holder id key bytes himage).1
  have hown := h.image key hkey
  rw [hid, himage, Option.some.injEq, Prod.mk.injEq] at hown
  exact ⟨hid, by rw [hid]; exact hown.2⟩

end Charged

/-- A placement is read back from the wire when its image is there. -/
theorem placement_wirePlacement (hformat : ImageFormatRoundTrip vt) {decoder : FrameDecoder}
    {key : ImageKey} {p : KittyImagePlacement} (hid : key.imageId = p.imageId)
    (hlookup : decoder.images.lookup key = some p.data) :
    decoder.placement (FrameEncoder.wirePlacement key p) = .ok p := by
  have hlayer : layerOf (layerCode p.layer) = .ok p.layer := by
    cases p.layer <;> rfl
  simp only [FrameDecoder.placement, FrameEncoder.wirePlacement, hlookup, context_some, ok_bind,
    hlayer, hformat p.imageFormat, sourceOf, hid]
  rfl

end Bootty.Terminal
