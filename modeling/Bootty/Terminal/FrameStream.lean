import Bootty.Terminal.FrameImages
import Bootty.Terminal.FrameRows

/-!
# The frame stream is lossless

Encoder and decoder stay in step: after every frame the decoder shows the last frame that was
encoded, less the placements that exceed an image budget, and it has every image that the
encoder believes it has. Sequence numbers are compared by size, so this ends when they wrap.
-/

namespace Bootty.Terminal

open Bootty.Base

section Vt

variable [vt : VtLibrary]

/-! ### Both ends -/

/-- The decoded frame presents a frame less its placements over budget. -/
structure Shows (decoded frame : RenderFrame) : Prop where
  state : decoded.toFrameState = frame.toFrameState
  cells : decoded.cells = frame.cells
  text : decoded.text = frame.text
  images : decoded.images = frame.admitted.images

/-- The two ends after a frame: images that the encoder will not send again are retained, and
the last frame, its sequence number and its rows are the same on both sides. -/
structure Synced (encoder : FrameEncoder) (decoder : FrameDecoder) : Prop where
  pending : encoder.pending = []
  images : ∀ id key bytes, encoder.images id = some (key, bytes) →
    key.imageId = id ∧ (key, bytes) ∈ decoder.images
  nodup : (decoder.images.map Prod.fst).Nodup
  generations : ∀ entry ∈ decoder.images, entry.1.generation ≤ encoder.sequence
  cost : tableCost decoder.images ≤ maxFrameImageBytes
  frames : encoder.previous = none ∧ encoder.published = none ∨ ∃ frame decoded,
    encoder.published = some frame ∧
    encoder.previous = some (encoder.sequence, frame.cols, rows frame) ∧
    decoder.previous = some (encoder.sequence, decoded) ∧ Shows decoded frame

private theorem synced_fresh : Synced {} {} where
  pending := rfl
  images := by
    intro id key bytes h
    cases h
  nodup := List.nodup_nil
  generations := by
    intro entry h
    cases h
  cost := Nat.zero_le _
  frames := .inl ⟨rfl, rfl⟩

/-! ### One frame -/

/-- The content of an image of the frame. -/
private def frameData (frame : RenderFrame) (id : Nat) : List UInt8 :=
  ((frame.images.placements.find? (·.imageId == id)).map (·.data)).getD []

variable {frame : RenderFrame}

private theorem data_eq (h : frame.WellFormed) {p : KittyImagePlacement}
    (hp : p ∈ frame.images.placements) : p.data = frameData frame p.imageId := by
  cases hfind : frame.images.placements.find? (·.imageId == p.imageId) with
  | none =>
    have := List.find?_eq_none.mp hfind p hp
    simp at this
  | some q =>
    have hid : q.imageId = p.imageId := by simpa using List.find?_some hfind
    rw [frameData, hfind]
    exact (h.sharedData q (List.mem_of_find?_eq_some hfind) p hp hid).symm

/-- The encoder as it starts on the placements of a frame. -/
private def atFrame (encoder : FrameEncoder) : FrameEncoder :=
  { encoder with sequence := encoder.sequence + 1, frameImageBytes := 0, frameImages := [] }

variable {encoder : FrameEncoder}

private theorem encode_eq (hsequence : encoder.sequence + 1 < 2 ^ 64) (frame : RenderFrame) :
    let wire := (atFrame encoder).wirePlacements frame.images.placements
    let keys := wire.1.map (·.key)
    encoder.encode frame =
      ({ sequence := encoder.sequence + 1
         state :=
          { toFrameState := frame.toFrameState, stats := frame.stats, placements := wire.1
            virtualPlacements := frame.images.virtualPlacements
            virtualPlaceholderRows := frame.images.virtualPlaceholderRows }
         rows := encoder.changedRows frame (rows frame) },
        { wire.2 with
          images := fun id ↦ (wire.2.images id).filter fun entry ↦ keys.contains entry.1
          pending := wire.2.pending.filter fun content ↦ keys.contains content.key
          previous := some (encoder.sequence + 1, frame.cols, rows frame) }) := by
  simp only [FrameEncoder.encode, Nat.mod_eq_of_lt hsequence]
  rfl

private theorem charged_atFrame (hpending : encoder.pending = []) (data : Nat → List UInt8) :
    Charged encoder.images data [] (atFrame encoder) where
  seen_eq := rfl
  nodup := List.nodup_nil
  bytes_eq := rfl
  bytes_le := Nat.zero_le _
  image := by simp [atFrame]
  source := by simp [atFrame]
  pending := by simp [atFrame, hpending]
  pending_sublist := by simp [atFrame, hpending]
  unseen := fun _ _ ↦ .inr rfl

variable {decoder : FrameDecoder}

private theorem older_of_synced (h : Synced encoder decoder) :
    Older encoder.images (encoder.sequence + 1) := by
  intro id key bytes himage
  obtain ⟨hid, hmem⟩ := h.images id key bytes himage
  exact ⟨hid, Nat.lt_succ_of_le (h.generations _ hmem)⟩

private theorem currentRows_eq_ok (h : Synced encoder decoder) {update : FrameUpdate}
    (hsequence : update.sequence = encoder.sequence + 1)
    (hstate : update.state.toFrameState = frame.toFrameState)
    (hrows : update.rows = encoder.changedRows frame (rows frame)) :
    decoder.currentRows update = .ok (rows frame) := by
  rw [FrameDecoder.currentRows, hrows]
  rcases h.frames with ⟨hnone, -⟩ | ⟨old, decoded, -, hprevious, hdecoder, hshows⟩
  · rw [FrameEncoder.changedRows, hnone]
  · simp only [FrameEncoder.changedRows, hprevious]
    by_cases hsame : old.cols = frame.cols ∧ (rows old).length = (rows frame).length
    · have hcols : decoded.cols = frame.cols := by rw [hshows.state, hsame.1]
      have hrowCount : decoded.rows = frame.rows := by
        rw [hshows.state, ← length_rows old, hsame.2, length_rows]
      have hold : rows decoded = rows old := by
        refine rows_congr ?_ hshows.cells hshows.text
        rw [hshows.state]
      rw [if_pos hsame, hdecoder]
      simp only [hsequence, hstate, hcols, hrowCount]
      rw [if_neg (by omega), hold, ← length_rows frame]
      exact applyChanges_eq_ok hsame.2
    · rw [if_neg hsame]

private theorem receive_images {next : FrameEncoder} (h : Synced encoder decoder)
    {data : Nat → List UInt8} {seen : List Nat} (hcharged : Charged encoder.images data seen next)
    (hsequence : next.sequence = encoder.sequence + 1) :
    ∃ received, next.pending.foldlM FrameDecoder.insertImage decoder = .ok received ∧
      received.previous = decoder.previous ∧ (received.images.map Prod.fst).Nodup ∧
      (∀ entry ∈ received.images, entry.1.generation ≤ next.sequence) ∧
      ∀ key ∈ next.frameImages, (key, data key.imageId) ∈ received.images := by
  have hnew : ∀ content ∈ next.pending, content.key ∉ decoder.images.map Prod.fst := by
    intro content hcontent hmem
    obtain ⟨entry, hentry, heq⟩ := List.mem_map.mp hmem
    have hold := h.generations entry hentry
    rw [heq, (hcharged.pending content hcontent).1] at hold
    omega
  have hcost : tableCost decoder.images +
      (next.pending.map fun content ↦ imageCost content.bytes).sum ≤ maxRetainedImageBytes := by
    have hold := h.cost
    have hpending := hcharged.pending_cost
    unfold maxRetainedImageBytes
    omega
  obtain ⟨received, hreceived, hprevious, hperm⟩ :=
    foldlM_insertImage decoder hnew hcharged.pending_nodup hcost
  refine ⟨received, hreceived, hprevious, ?_, ?_, ?_⟩
  · rw [(hperm.map Prod.fst).nodup_iff, List.map_append, List.map_map, List.nodup_append]
    refine ⟨hcharged.pending_nodup, h.nodup, ?_⟩
    rintro _ hsent _ hold rfl
    obtain ⟨content, hcontent, rfl⟩ := List.mem_map.mp hsent
    exact hnew content hcontent hold
  · intro entry hentry
    rcases List.mem_append.mp (hperm.mem_iff.mp hentry) with hsent | hold
    · obtain ⟨content, hcontent, rfl⟩ := List.mem_map.mp hsent
      exact Nat.le_of_eq (hcharged.pending content hcontent).1
    · have := h.generations entry hold
      omega
  · intro key hkey
    apply hperm.mem_iff.mpr
    rcases hcharged.source key hkey with hknown | hsent
    · exact List.mem_append_right _ (h.images _ _ _ hknown).2
    · exact List.mem_append_left _ (List.mem_map.mpr ⟨_, hsent, rfl⟩)

/-- The decoder accepts an update whose rows are those of a well-formed frame and whose
placements it can read. -/
private theorem apply_eq_ok {update : FrameUpdate} {placements : List KittyImagePlacement}
    (hframe : frame.WellFormed) (hstate : update.state.toFrameState = frame.toFrameState)
    (hrows : decoder.currentRows update = .ok (rows frame))
    (hplacements : update.state.placements.mapM decoder.placement = .ok placements) :
    ∃ decoded next, decoder.apply update = .ok next ∧
      next.previous = some (update.sequence, decoded) ∧
      next.images = decoder.images.filter
        (fun entry ↦ (update.state.placements.map (·.key)).contains entry.1) ∧
      decoded.toFrameState = frame.toFrameState ∧ decoded.cells = frame.cells ∧
      decoded.text = frame.text ∧ decoded.images =
        { placements, virtualPlacements := update.state.virtualPlacements
          virtualPlaceholderRows := update.state.virtualPlaceholderRows } := by
  have hwraps : (update.state.rowWraps.length == update.state.rows) = true := by
    rw [hstate, beq_iff_eq]
    exact hframe.rowWraps
  have hlength : ((rows frame).length == update.state.rows) = true := by
    rw [hstate, beq_iff_eq]
    exact length_rows frame
  have hplaced : placeRows update.state.cols 0 [] (rows frame) = .ok (frame.cells, frame.text) := by
    rw [hstate]
    exact placeRows_rows hframe
  simp only [FrameDecoder.apply, hwraps, hlength, ensure, if_true, ok_bind, hrows, hplaced,
    hplacements]
  exact ⟨_, _, rfl, rfl, rfl, hstate, rfl, rfl, rfl⟩

/-- A frame that is encoded keeps both ends in step. -/
theorem transmit_changed (hformat : ImageFormatRoundTrip vt) (h : Synced encoder decoder)
    (hframe : frame.WellFormed) (hsequence : encoder.sequence + 1 < 2 ^ 64)
    (hchanged : (encoder.published.any fun old ↦ old.samePresentation frame) = false) :
    ∃ encoder' decoder', transmit encoder decoder frame = .ok (encoder', decoder') ∧
      Synced encoder' decoder' ∧ encoder'.sequence = encoder.sequence + 1 ∧
      encoder'.published = some frame := by
  have hencode := encode_eq hsequence frame
  have holder := older_of_synced h
  obtain ⟨⟨seen, hcharged⟩, hnextSequence, hforall, hkeys⟩ :=
    (charged_atFrame h.pending (frameData frame)).wirePlacements_accept holder
      fun p hp ↦ data_eq hframe hp
  generalize (atFrame encoder).wirePlacements frame.images.placements = wire
    at hencode hcharged hnextSequence hforall hkeys
  obtain ⟨sent, next⟩ := wire
  have hnextSequence : next.sequence = encoder.sequence + 1 := hnextSequence
  -- The keys on the wire are exactly the images that the frame was charged for.
  have hsent : ∀ key, key ∈ sent.map (·.key) ↔ key ∈ next.frameImages := by
    intro key
    rw [hkeys key]
    simp [atFrame]
  have hpending : next.pending.filter (fun content ↦ (sent.map (·.key)).contains content.key) =
      next.pending := by
    rw [List.filter_eq_self]
    intro content hcontent
    rw [List.contains_iff_mem]
    exact (hsent _).mpr (hcharged.pending_keys hcontent)
  obtain ⟨received, hreceived, hprevious, hnodup, hgenerations, hretained⟩ :=
    receive_images h hcharged hnextSequence
  have hplacements : sent.mapM received.placement = .ok frame.admitted.images.placements := by
    apply mapM_eq_ok
    apply List.Forall₂.flip
    refine List.Forall₂.imp ?_ hforall
    rintro p w ⟨key, hkey, hid, hdata, rfl⟩
    apply placement_wirePlacement hformat hid
    rw [lookup_of_mem hnodup (hretained key hkey), hid, hdata]
  have hrows : received.currentRows (encoder.encode frame).1 = .ok (rows frame) := by
    have hsame : received.currentRows (encoder.encode frame).1 =
        decoder.currentRows (encoder.encode frame).1 := by
      simp only [FrameDecoder.currentRows, hprevious]
    rw [hsame]
    apply currentRows_eq_ok h <;> rw [hencode]
  obtain ⟨decoded, decoder', happly, hdecoded, hkept, hstate, hcells, htext, himages⟩ :=
    apply_eq_ok hframe (by rw [hencode]) hrows (by rw [hencode]; exact hplacements)
  rw [hencode] at happly hdecoded hkept himages
  have hentry : ∀ entry ∈ decoder'.images, entry.1 ∈ next.frameImages ∧ entry ∈ received.images := by
    intro entry hmem
    rw [hkept, List.mem_filter, List.contains_iff_mem] at hmem
    exact ⟨(hsent _).mp hmem.2, hmem.1⟩
  refine ⟨{ (encoder.encode frame).2 with published := some frame, pending := [] }, decoder',
    ?_, ?_, ?_, rfl⟩
  · simp only [transmit, FrameEncoder.encodeChanged, hchanged, Bool.false_eq_true, if_false,
      FrameEncoder.takeImageContents]
    rw [hencode]
    simp only [hpending, hreceived, ok_bind, happly]
    rfl
  · rw [hencode]
    refine ⟨rfl, ?_, ?_, ?_, ?_, .inr ⟨frame, decoded, rfl, ?_, ?_, hstate, hcells, htext, himages⟩⟩
    · intro id key bytes himage
      obtain ⟨himage, hkey⟩ := Option.filter_eq_some_iff.mp himage
      rw [List.contains_iff_mem, hsent] at hkey
      rw [← hnextSequence] at holder
      obtain ⟨hid, rfl⟩ := hcharged.image_of_mem holder himage hkey
      refine ⟨hid, ?_⟩
      rw [hkept, List.mem_filter, List.contains_iff_mem]
      exact ⟨hretained key hkey, (hsent key).mpr hkey⟩
    · rw [hkept]
      exact hnodup.sublist (List.filter_sublist.map _)
    · intro entry hmem
      exact hgenerations entry (hentry entry hmem).2
    · apply hcharged.tableCost_le
      · rw [hkept]
        exact hnodup.sublist (List.filter_sublist.map _)
      · intro entry hmem
        obtain ⟨hkey, hmem⟩ := hentry entry hmem
        refine ⟨hkey, ?_⟩
        exact congrArg Prod.snd (List.inj_on_of_nodup_map hnodup hmem (hretained _ hkey) rfl)
    · simp only [hnextSequence]
    · rw [hdecoded]
      simp only [hnextSequence]
  · rw [hencode]
    exact hnextSequence

/-- A frame with the presentation of the last one is not sent. -/
theorem transmit_same (decoder : FrameDecoder)
    (hsame : (encoder.published.any fun old ↦ old.samePresentation frame) = true) :
    transmit encoder decoder frame = .ok (encoder, decoder) := by
  simp only [transmit, FrameEncoder.encodeChanged, hsame, if_true]

/-! ### Runs -/

/-- The last frame that a sequence of frames publishes. -/
def publishedAfter : Option RenderFrame → List RenderFrame → Option RenderFrame
  | published, [] => published
  | published, frame :: frames =>
    if published.any fun old ↦ old.samePresentation frame then publishedAfter published frames
    else publishedAfter (some frame) frames

/-- The number of updates that a sequence of frames emits. -/
def updates : Option RenderFrame → List RenderFrame → Nat
  | _, [] => 0
  | published, frame :: frames =>
    if published.any fun old ↦ old.samePresentation frame then updates published frames
    else updates (some frame) frames + 1

private theorem publishedAfter_append (published : Option RenderFrame) (xs ys : List RenderFrame) :
    publishedAfter published (xs ++ ys) = publishedAfter (publishedAfter published xs) ys := by
  induction xs generalizing published with
  | nil => rfl
  | cons x xs ih =>
    rw [List.cons_append, publishedAfter, publishedAfter]
    split
    · exact ih published
    · exact ih (some x)

private theorem updates_append (published : Option RenderFrame) (xs ys : List RenderFrame) :
    updates published (xs ++ ys) = updates published xs + updates (publishedAfter published xs) ys := by
  induction xs generalizing published with
  | nil => simp [updates, publishedAfter]
  | cons x xs ih =>
    rw [List.cons_append, updates, updates, publishedAfter]
    split
    · exact ih published
    · rw [ih (some x)]
      omega

/-- A stream whose sequence numbers do not wrap stays in step over every run. -/
theorem transmit_run (hformat : ImageFormatRoundTrip vt) (h : Synced encoder decoder)
    {frames : List RenderFrame} (hframes : ∀ frame ∈ frames, frame.WellFormed)
    (hcount : encoder.sequence + updates encoder.published frames < 2 ^ 64) :
    ∃ encoder' decoder',
      frames.foldlM (fun ends frame ↦ transmit ends.1 ends.2 frame) (encoder, decoder) =
        .ok (encoder', decoder') ∧ Synced encoder' decoder' ∧
      encoder'.sequence = encoder.sequence + updates encoder.published frames ∧
      encoder'.published = publishedAfter encoder.published frames := by
  induction frames generalizing encoder decoder with
  | nil => exact ⟨encoder, decoder, rfl, h, rfl, rfl⟩
  | cons frame frames ih =>
    have htail : ∀ frame ∈ frames, frame.WellFormed := fun f hf ↦ hframes f (List.mem_cons_of_mem _ hf)
    rw [List.foldlM_cons]
    cases hsame : encoder.published.any fun old ↦ old.samePresentation frame with
    | true =>
      rw [updates, if_pos hsame] at hcount
      rw [transmit_same decoder hsame, ok_bind, updates, publishedAfter, if_pos hsame, if_pos hsame]
      exact ih h htail hcount
    | false =>
      rw [updates, if_neg (by simp [hsame])] at hcount
      obtain ⟨next, received, htransmit, hsynced, hsequence, hpublished⟩ :=
        transmit_changed hformat h (hframes frame List.mem_cons_self) (by omega) hsame
      obtain ⟨encoder', decoder', hrun, hfinal, hsequence', hpublished'⟩ :=
        ih hsynced htail (by rw [hsequence, hpublished]; omega)
      rw [htransmit, ok_bind, updates, publishedAfter, if_neg (by simp [hsame]),
        if_neg (by simp [hsame])]
      refine ⟨encoder', decoder', hrun, hfinal, ?_, ?_⟩
      · rw [hsequence', hsequence, hpublished]
        omega
      · rw [hpublished', hpublished]

/-! ### Presentation -/

/-- No placement has a NaN coordinate. -/
def RenderFrame.Numeric (frame : RenderFrame) : Prop :=
  ∀ p ∈ frame.images.placements, p.destination.isNumber = true

omit vt in
private theorem rect_eq_self {r : SurfaceRect Binary32} (h : r.isNumber = true) :
    r.eq r = true := by
  simp only [SurfaceRect.isNumber, Bool.and_eq_true, Bool.not_eq_true'] at h
  obtain ⟨⟨⟨hminX, hminY⟩, hmaxX⟩, hmaxY⟩ := h
  simp [SurfaceRect.eq, Binary32.eq, hminX, hminY, hmaxX, hmaxY]

private theorem eqPlacements_self {ps : List KittyImagePlacement}
    (h : ∀ p ∈ ps, p.destination.isNumber = true) : eqPlacements ps ps = true := by
  induction ps with
  | nil => rfl
  | cons p ps ih =>
    rw [eqPlacements, Bool.and_eq_true]
    refine ⟨?_, ih fun q hq ↦ h q (List.mem_cons_of_mem _ hq)⟩
    simp [KittyImagePlacement.eq, rect_eq_self (h p List.mem_cons_self)]

private theorem eqPlacements_accept {used : Nat} {seen : List Nat} {ps qs : List KittyImagePlacement}
    (h : eqPlacements ps qs = true) :
    eqPlacements (accept used seen ps) (accept used seen qs) = true := by
  induction ps generalizing used seen qs with
  | nil =>
    cases qs with
    | nil => rfl
    | cons q qs => cases h
  | cons p ps ih =>
    cases qs with
    | nil => cases h
    | cons q qs =>
      rw [eqPlacements, Bool.and_eq_true] at h
      obtain ⟨hpq, hrest⟩ := h
      have hfields := hpq
      simp only [KittyImagePlacement.eq, Bool.and_eq_true, beq_iff_eq] at hfields
      have hid : p.imageId = q.imageId := hfields.1.1.1.1.1.1.1.1
      have hdata : p.data = q.data := hfields.2
      rw [accept, accept, hid, hdata]
      split
      · rw [eqPlacements, hpq, ih hrest]
        rfl
      · split
        · rw [eqPlacements, hpq, ih hrest]
          rfl
        · exact ih hrest

/-- What the decoder shows has the presentation of every frame that was not worth sending
after the shown one. -/
private theorem samePresentation_of_shows {decoded shown : RenderFrame} (h : Shows decoded shown)
    (hsame : shown.samePresentation frame = true) :
    decoded.samePresentation frame.admitted = true := by
  simp only [RenderFrame.samePresentation, KittyImageFrame.eq, Bool.and_eq_true, beq_iff_eq] at hsame ⊢
  obtain ⟨⟨⟨hstate, hcells⟩, htext⟩, ⟨hplacements, hvirtual⟩, hplaceholders⟩ := hsame
  rw [h.images]
  refine ⟨⟨⟨h.state.trans hstate, h.cells.trans hcells⟩, h.text.trans htext⟩, ⟨?_, hvirtual⟩,
    hplaceholders⟩
  exact eqPlacements_accept hplacements

private theorem samePresentation_self {decoded : RenderFrame} (h : Shows decoded frame)
    (hnumeric : frame.Numeric) : decoded.samePresentation frame.admitted = true := by
  apply samePresentation_of_shows h
  simp only [RenderFrame.samePresentation, KittyImageFrame.eq, beq_self_eq_true, Bool.true_and,
    Bool.and_true]
  exact eqPlacements_self hnumeric

/-! ### The stream as a whole -/

/-- Every frame of the sequence is accepted, and after it the decoder presents that frame
less the placements over budget. -/
def Lossless (frames : List RenderFrame) : Prop :=
  ∀ before frame after, frames = before ++ frame :: after →
    ∃ encoder decoder decoded, transmitAll (before ++ [frame]) = .ok (encoder, decoder) ∧
      decoder.frame = some decoded ∧ decoded.samePresentation frame.admitted = true

/-- The frame stream is lossless for well-formed frames without NaN coordinates as long as
fewer than `2 ^ 64` updates are emitted. -/
theorem transmit_lossless (hformat : ImageFormatRoundTrip vt) (frames : List RenderFrame)
    (hframes : ∀ frame ∈ frames, frame.WellFormed ∧ frame.Numeric)
    (hcount : updates none frames < 2 ^ 64) : Lossless frames := by
  rintro before frame after rfl
  have hmem : ∀ f ∈ before ++ [frame], f ∈ before ++ frame :: after := by
    intro f hf
    simp only [List.mem_append, List.mem_cons, List.not_mem_nil, or_false] at hf ⊢
    rcases hf with hf | hf
    · exact .inl hf
    · exact .inr (.inl hf)
  have hinitial : updates none (before ++ [frame]) < 2 ^ 64 := by
    have happend := updates_append none (before ++ [frame]) after
    rw [List.append_assoc, List.singleton_append] at happend
    omega
  obtain ⟨encoder, decoder, hrun, hsynced, -, hpublished⟩ :=
    transmit_run hformat synced_fresh (fun f hf ↦ (hframes f (hmem f hf)).1)
      (by simpa using hinitial)
  -- The last published frame is this one, or one with the same presentation.
  have hlast : ∃ shown, encoder.published = some shown ∧
      (shown = frame ∨ shown.samePresentation frame = true) := by
    rw [hpublished, publishedAfter_append, publishedAfter]
    split
    · next hsame =>
      cases hshown : publishedAfter none before with
      | none =>
        rw [hshown] at hsame
        cases hsame
      | some shown =>
        rw [hshown] at hsame
        exact ⟨shown, rfl, .inr hsame⟩
    · exact ⟨frame, rfl, .inl rfl⟩
  obtain ⟨shown, hshown, hcases⟩ := hlast
  rcases hsynced.frames with ⟨-, hnone⟩ | ⟨old, decoded, hold, -, hdecoded, hshows⟩
  · rw [hnone] at hshown
    cases hshown
  · obtain rfl : old = shown := Option.some.inj (hold.symm.trans hshown)
    refine ⟨encoder, decoder, decoded, hrun, by rw [FrameDecoder.frame, hdecoded]; rfl, ?_⟩
    rcases hcases with rfl | hsame
    · exact samePresentation_self hshows (hframes old (hmem old (by simp))).2
    · exact samePresentation_of_shows hshows hsame

private theorem transmit_wraps (h : Synced encoder decoder)
    (hsequence : encoder.sequence + 1 = 2 ^ 64) {old : RenderFrame}
    (hpublished : encoder.published = some old) (hchanged : old.samePresentation frame = false)
    (hcols : old.cols = frame.cols) (hrows : old.rows = frame.rows)
    (hwraps : frame.rowWraps.length = frame.rows) (himages : frame.images.placements = []) :
    transmit encoder decoder frame = .error .wrongBase := by
  rcases h.frames with ⟨-, hnone⟩ | ⟨shown, decoded, hshown, hprevious, hdecoded, -⟩
  · rw [hnone] at hpublished
    cases hpublished
  · obtain rfl : shown = old := Option.some.inj (hshown.symm.trans hpublished)
    have hlength : (rows shown).length = (rows frame).length := by
      rw [length_rows, length_rows, hrows]
    have hupdate : encoder.changedRows frame (rows frame) = .rows encoder.sequence
        (((List.range frame.rows).zip (rows frame)).filter fun entry ↦
          (rows shown)[entry.1]? != some entry.2) := by
      simp only [FrameEncoder.changedRows, hprevious, hcols, hlength, and_self, if_true]
    simp only [transmit, FrameEncoder.encodeChanged, hpublished, Option.any_some, hchanged,
      Bool.false_eq_true, if_false, FrameEncoder.encode, himages, FrameEncoder.wirePlacements,
      FrameEncoder.takeImageContents, h.pending, List.filter_nil, List.foldlM_nil, hupdate,
      hsequence]
    simp only [pure, Except.pure, ok_bind, FrameDecoder.apply, ensure, hwraps, beq_self_eq_true,
      if_true, FrameDecoder.currentRows, hdecoded]
    simp only [ne_eq, not_true_eq_false, Nat.mod_self, Nat.zero_le, true_or, or_true, if_true]
    rfl

end Vt

/-! ### Two frames, and where the stream ends -/

/-- Enumerations by their codes. -/
instance codedVt : VtLibrary where
  CursorVisualStyle := Fin 4
  Underline := Fin 6
  ImageFormat := Fin 5
  decidableCursorVisualStyle := inferInstance
  decidableUnderline := inferInstance
  decidableImageFormat := inferInstance
  imageFormatCode format := format.val
  imageFormatOf code := if h : code.toNat < 5 then some ⟨code.toNat, h⟩ else none

private theorem imageFormatRoundTrip_coded : ImageFormatRoundTrip codedVt := by
  intro format
  change (if h : (format.val : Int).toNat < 5 then some (⟨(format.val : Int).toNat, h⟩ : Fin 5)
    else none) = some format
  simp

/-- The underline of a code. -/
def underlineOf (code : Nat) : Fin 6 := Fin.ofNat 6 code

/-- One cell and one image. -/
private def sampleFrame (destination : SurfaceRect Binary32) (letter : Char) : RenderFrame :=
  { cols := 1, rows := 1, rowWraps := [false], text := [letter]
    cells :=
      [{ x := 0, y := 0, textStart := 0, textLen := 1, fg := none, bg := none, hyperlink := none
         style := ⟨false, false, false, false, false, false, false, false, underlineOf 0⟩ }]
    images :=
      { placements := [{ imageId := 1, placementId := 1, layer := .aboveText, imageWidth := 1
                         imageHeight := 1, imageFormat := (0 : Fin 5), source := ⟨0, 0, 1, 1⟩, destination
                         data := [255, 255, 255] }] } }

private theorem wellFormed_sampleFrame (destination : SurfaceRect Binary32) (letter : Char) :
    (sampleFrame destination letter).WellFormed where
  rowMajor := List.pairwise_singleton _ _
  inside := by simp [sampleFrame]
  contiguous := ⟨rfl, rfl⟩
  textFits := by
    change 1 ≤ usizeMax
    decide
  rowWraps := rfl
  sharedData := by
    intro p hp q hq _
    rw [List.mem_singleton.mp hp, List.mem_singleton.mp hq]

private def origin : SurfaceRect Binary32 :=
  ⟨Scalar.literal 0, Scalar.literal 0, Scalar.literal 8, Scalar.literal 16⟩

private theorem numeric_sampleFrame (letter : Char) : (sampleFrame origin letter).Numeric := by
  intro p hp
  rw [List.mem_singleton.mp hp]
  change origin.isNumber = true
  decide +kernel

/-- A frame and a change of its text. -/
theorem transmit_lossless_pair : Lossless [sampleFrame origin 'a', sampleFrame origin 'b'] := by
  apply transmit_lossless imageFormatRoundTrip_coded
  · intro frame hframe
    simp only [List.mem_cons, List.not_mem_nil, or_false] at hframe
    rcases hframe with rfl | rfl
    · exact ⟨wellFormed_sampleFrame _ _, numeric_sampleFrame _⟩
    · exact ⟨wellFormed_sampleFrame _ _, numeric_sampleFrame _⟩
  · decide +kernel

/-- An empty frame that differs from the one before and the one after it. -/
private def pulse (i : Nat) : RenderFrame := { searchPulse := i % 2 }

private def pulses (count : Nat) : List RenderFrame := (List.range count).map pulse

private theorem pulses_succ (count : Nat) : pulses (count + 1) = pulses count ++ [pulse count] := by
  simp [pulses, List.range_succ]

private theorem pulse_changes (i : Nat) : (pulse i).samePresentation (pulse (i + 1)) = false := by
  by_contra hsame
  rw [Bool.not_eq_false, RenderFrame.samePresentation] at hsame
  simp only [Bool.and_eq_true, beq_iff_eq, pulse, FrameState.mk.injEq] at hsame
  omega

private theorem publishedAfter_pulses (count : Nat) :
    publishedAfter none (pulses (count + 1)) = some (pulse count) := by
  induction count with
  | zero => rfl
  | succ count ih =>
    rw [pulses_succ, publishedAfter_append, ih]
    simp [publishedAfter, pulse_changes]

private theorem updates_pulses (count : Nat) : updates none (pulses count) = count := by
  induction count with
  | zero => rfl
  | succ count ih =>
    rw [pulses_succ, updates_append, ih]
    cases count with
    | zero => rfl
    | succ i =>
      rw [publishedAfter_pulses]
      simp [updates, pulse_changes]

private theorem wellFormed_pulse (i : Nat) : (pulse i).WellFormed ∧ (pulse i).Numeric := by
  refine ⟨⟨List.Pairwise.nil, ?_, rfl, Nat.zero_le _, rfl, ?_⟩, ?_⟩
  · intro cell hcell
    cases hcell
  · intro p hp
    cases hp
  · intro p hp
    cases hp

private theorem not_lossless_pulses {count : Nat} (hcount : count + 2 = 2 ^ 64) :
    ¬ Lossless (pulses (count + 2)) := by
  intro h
  obtain ⟨_, _, _, hrun, -, -⟩ := h _ _ [] (pulses_succ (count + 1))
  have hwell : ∀ frame ∈ pulses (count + 1), frame.WellFormed := by
    intro frame hframe
    obtain ⟨i, -, rfl⟩ := List.mem_map.mp hframe
    exact (wellFormed_pulse i).1
  have hupdates := updates_pulses (count + 1)
  obtain ⟨encoder, decoder, hinitial, hsynced, hsequence, hpublished⟩ :=
    transmit_run imageFormatRoundTrip_coded synced_fresh hwell (by
      change 0 + updates none (pulses (count + 1)) < 2 ^ 64
      omega)
  have hsequence : encoder.sequence + 1 = 2 ^ 64 := by
    rw [hsequence]
    change 0 + updates none (pulses (count + 1)) + 1 = 2 ^ 64
    omega
  have hpublished : encoder.published = some (pulse count) :=
    hpublished.trans (publishedAfter_pulses count)
  have hwraps := transmit_wraps hsynced hsequence hpublished (pulse_changes count) rfl rfl rfl rfl
  rw [transmitAll, List.foldlM_append, hinitial, ok_bind, List.foldlM_cons, hwraps] at hrun
  cases hrun

/-- A NaN is not equal to itself, so no decoded frame presents this one. -/
private def nanFrame : RenderFrame :=
  sampleFrame ⟨Binary32.nan, Binary32.nan, Binary32.nan, Binary32.nan⟩ 'a'

private def presents (frame : RenderFrame) : Bool :=
  match transmitAll [frame] with
  | .ok ends => ends.2.frame.any fun decoded ↦ decoded.samePresentation frame.admitted
  | .error _ => false

private theorem not_lossless_nanFrame : ¬ Lossless [nanFrame] := by
  intro h
  obtain ⟨encoder, decoder, decoded, hrun, hframe, hsame⟩ := h [] nanFrame [] rfl
  have hpresents : presents nanFrame = true := by
    rw [List.nil_append] at hrun
    simp only [presents, hrun, hframe, Option.any_some, hsame]
  have hnot : presents nanFrame = false := by decide +kernel
  rw [hnot] at hpresents
  cases hpresents

/-- The stream loses a frame when its `2 ^ 64`th update wraps the sequence number, and it
cannot present a NaN coordinate. -/
theorem not_transmit_lossless :
    ((∀ frame ∈ pulses (2 ^ 64), frame.WellFormed ∧ frame.Numeric) ∧
      ¬ Lossless (pulses (2 ^ 64))) ∧ nanFrame.WellFormed ∧ ¬ Lossless [nanFrame] := by
  obtain ⟨count, hcount⟩ : ∃ count, count + 2 = 2 ^ 64 := ⟨2 ^ 64 - 2, by omega⟩
  rw [← hcount]
  refine ⟨⟨?_, not_lossless_pulses hcount⟩, wellFormed_sampleFrame _ _, not_lossless_nanFrame⟩
  intro frame hframe
  obtain ⟨i, -, rfl⟩ := List.mem_map.mp hframe
  exact wellFormed_pulse i

end Bootty.Terminal
