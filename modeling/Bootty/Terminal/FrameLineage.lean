import Bootty.Terminal.HostileUpdates

/-!
# Frame lineages

Model of `FrameLineage`, `crates/bootty-terminal/src/terminal_frame.rs:9–30`, and of the part of
`FrameDecoder::apply` that sets it, `frame_wire.rs:456–466`. A lineage says which frame the damage
of a frame is relative to. Frames are told apart by shared pointers to nothing; here a pointer is
the number of its allocation. In the frames that any number of decoders return, a frame that follows
another one marks every row that is not the other's.
-/

namespace Bootty.Terminal

open Bootty.Base

/-- `FrameLineage`. -/
structure FrameLineage where
  current : ℕ
  previous : Option ℕ
  deriving DecidableEq

namespace FrameLineage

/-- `advance`, with a new pointer. -/
def advance (lineage : FrameLineage) (fresh : ℕ) : FrameLineage := ⟨fresh, some lineage.current⟩

/-- `follows`. -/
def follows (lineage cached : FrameLineage) : Bool :=
  lineage.current == cached.current || lineage.previous == some cached.current

private theorem follows_iff {lineage cached : FrameLineage} :
    lineage.follows cached = true ↔
      lineage.current = cached.current ∨ lineage.previous = some cached.current := by
  simp [follows]

end FrameLineage

section Vt

variable [vt : VtLibrary]

/-- A frame with its lineage. -/
structure TracedFrame extends RenderFrame where
  lineage : FrameLineage

/-- A decoder and the lineage of its previous frame. -/
structure TracedDecoder where
  decoder : FrameDecoder := {}
  lineage : Option FrameLineage := none

namespace TracedDecoder

/-- `apply`: a full frame begins a lineage, a delta advances that of the previous frame. -/
def apply (traced : TracedDecoder) (fresh : ℕ) (update : FrameUpdate) :
    Except WireError TracedFrame × TracedDecoder :=
  match FrameDecoder.applyCall update traced.decoder with
  | (.error error, decoder) => (.error error, { traced with decoder })
  | (.ok frame, decoder) =>
    let lineage :=
      match update.rows, traced.lineage with
      | .rows _ _, some previous => previous.advance fresh
      | _, _ => ⟨fresh, none⟩
    (.ok { frame with lineage }, ⟨decoder, some lineage⟩)

/-- The decoder is given an image. -/
def insertImage (traced : TracedDecoder) (content : ImageContent) : TracedDecoder :=
  { traced with decoder := (FrameDecoder.insertImageCall content traced.decoder).2 }

end TracedDecoder

/-! ### Rows of decoded frames -/

/-- A frame is made of accepted rows. -/
structure RenderFrame.MadeOf (frame : RenderFrame) (accepted : List WireRow) : Prop where
  placed : placeRows frame.cols 0 [] accepted = .ok (frame.cells, frame.text)
  length : accepted.length = frame.rows
  fits : frame.text.length ≤ usizeMax

/-- A decoded frame has its rows. -/
theorem RenderFrame.MadeOf.rows_eq {frame : RenderFrame} {accepted : List WireRow}
    (h : frame.MadeOf accepted) : Terminal.rows frame = accepted :=
  rows_of_placeRows h.placed h.length h.fits

/-- The rows that `later` does not mark as damaged are those of `earlier`. -/
structure RenderFrame.Succeeds (later earlier : RenderFrame) : Prop where
  rows_eq : later.rows = earlier.rows
  kept : ∀ y : ℕ, later.rowDirty[y]? = some false →
    (Terminal.rows earlier)[y]? = (Terminal.rows later)[y]?

namespace FrameDecoder

variable {decoder next : FrameDecoder} {update : FrameUpdate} {frame : RenderFrame}
  {current : List WireRow}

private theorem Steps.madeOf (h : Steps decoder update frame next current)
    (hfits : frame.text.length ≤ usizeMax) : frame.MadeOf current := by
  constructor
  · rw [h.state]
    exact h.placed
  · rw [h.length, h.state]
  · exact hfits

/-- A delta frame succeeds the frame that the decoder showed last. -/
theorem Steps.succeeds (h : Steps decoder update frame next current)
    (hdelta : update.rows.isFull = false) (hfits : frame.text.length ≤ usizeMax) :
    ∃ sequence earlier, decoder.previous = some (sequence, earlier) ∧ frame.Succeeds earlier := by
  have hdecoded := h.decoded
  unfold currentRows at hdecoded
  cases hrows : update.rows with
  | full rows =>
    rw [hrows] at hdelta
    cases hdelta
  | rows base changes =>
    rw [hrows] at hdecoded
    cases hprevious : decoder.previous with
    | none =>
      rw [hprevious] at hdecoded
      cases hdecoded
    | some previous =>
      obtain ⟨sequence, earlier⟩ := previous
      rw [hprevious] at hdecoded
      dsimp only at hdecoded
      split at hdecoded
      · cases hdecoded
      · next hbase =>
        refine ⟨sequence, earlier, rfl, ?_, ?_⟩
        · rw [h.state]
          by_contra hne
          exact hbase (Or.inr (Or.inr (Or.inr (Ne.symm hne))))
        · intro y hclean
          rw [h.dirty, rowDirty, List.getElem?_mapIdx, hprevious] at hclean
          obtain ⟨row, hrow, hflag⟩ := Option.map_eq_some_iff.mp hclean
          simp only [Bool.or_eq_false_iff, Option.elim_some, bne_eq_false_iff_eq] at hflag
          rw [(h.madeOf hfits).rows_eq, hflag.1.2, hrow]

end FrameDecoder

private theorem RenderFrame.Succeeds.refl (frame : RenderFrame) : frame.Succeeds frame :=
  ⟨rfl, fun _ _ ↦ rfl⟩

namespace TracedDecoder

variable {traced next : TracedDecoder} {fresh : ℕ} {update : FrameUpdate}

private theorem eq_of_apply_eq_error {error : WireError}
    (h : traced.apply fresh update = (.error error, next)) : next = traced := by
  unfold apply at h
  split at h
  · next failure decoder hcall =>
    rw [FrameDecoder.atomic_applyCall update traced.decoder failure decoder hcall] at h
    exact (Prod.mk.inj h).2.symm
  · cases h

/-- The steps of an accepted update, and where its lineage comes from. -/
structure Advances (traced : TracedDecoder) (fresh : ℕ) (update : FrameUpdate)
    (frame : TracedFrame) (next : TracedDecoder) (current : List WireRow) : Prop where
  steps : FrameDecoder.Steps traced.decoder update frame.toRenderFrame next.decoder current
  lineage : next.lineage = some frame.lineage
  fresh : frame.lineage.current = fresh
  delta : ∀ token, frame.lineage.previous = some token →
    update.rows.isFull = false ∧ ∃ previous, traced.lineage = some previous ∧
      previous.current = token

private theorem apply_eq_ok {frame : TracedFrame}
    (h : traced.apply fresh update = (.ok frame, next)) :
    ∃ current, traced.Advances fresh update frame next current := by
  unfold apply at h
  split at h
  · cases h
  · next untraced decoder hcall =>
    have ⟨current, hsteps⟩ := FrameDecoder.applyCall_eq_ok hcall
    have ⟨hframe, hnext⟩ := Prod.mk.inj h
    rw [← hnext, ← Except.ok.inj hframe]
    refine ⟨current, hsteps, rfl, ?_, ?_⟩
    · dsimp only
      split <;> rfl
    · intro token htoken
      dsimp only at htoken
      split at htoken
      · next base changes previous hrows hlineage =>
        rw [hrows]
        exact ⟨rfl, previous, hlineage, Option.some.inj htoken⟩
      · cases htoken

private theorem insertImage_previous (content : ImageContent) :
    (traced.insertImage content).decoder.previous = traced.decoder.previous := by
  rw [insertImage]
  dsimp only
  generalize hcall : FrameDecoder.insertImageCall content traced.decoder = after
  have ⟨result, decoder⟩ := after
  cases result with
  | error error =>
    rw [FrameDecoder.atomic_insertImageCall content traced.decoder error decoder hcall]
  | ok u =>
    have hinserted := FrameDecoder.insertImageCall_eq_ok.mp hcall
    unfold FrameDecoder.insertImage at hinserted
    dsimp only at hinserted
    split at hinserted
    · cases hinserted
    · rw [← Except.ok.inj hinserted]

end TracedDecoder

/-! ### The frames of several decoders -/

/-- Decoders, the frames they have returned in this order, and the number of pointers. -/
structure FrameFeed where
  decoders : ℕ → TracedDecoder := fun _ ↦ {}
  frames : List TracedFrame := []
  tokens : ℕ := 0

namespace FrameFeed

/-- A decoder gets an update; the text of a frame is a vector. -/
def apply (feed : FrameFeed) (index : ℕ) (update : FrameUpdate) : Option FrameFeed :=
  let (result, traced) := (feed.decoders index).apply feed.tokens update
  let feed := { feed with
    decoders := Function.update feed.decoders index traced
    tokens := feed.tokens + 1 }
  match result with
  | .error _ => some feed
  | .ok frame =>
    if frame.text.length ≤ usizeMax then some { feed with frames := feed.frames ++ [frame] }
    else none

/-- One decoder is given an image. -/
def insertImage (feed : FrameFeed) (index : ℕ) (content : ImageContent) : FrameFeed :=
  { feed with
    decoders := Function.update feed.decoders index ((feed.decoders index).insertImage content) }

/-- Frames are told apart by their lineages, and damage is relative to a frame that the same
decoder has returned. -/
structure Traced (feed : FrameFeed) : Prop where
  shown : ∀ index sequence frame,
    (feed.decoders index).decoder.previous = some (sequence, frame) →
      ∃ returned ∈ feed.frames, returned.toRenderFrame = frame ∧
        (feed.decoders index).lineage = some returned.lineage
  allocated : ∀ frame ∈ feed.frames, frame.lineage.current < feed.tokens
  distinct : ∀ frame ∈ feed.frames, ∀ other ∈ feed.frames,
    frame.lineage.current = other.lineage.current → frame = other
  madeOf : ∀ frame ∈ feed.frames, ∃ accepted, frame.toRenderFrame.MadeOf accepted
  succeeds : ∀ frame ∈ feed.frames, ∀ token, frame.lineage.previous = some token →
    ∃ earlier ∈ feed.frames, earlier.lineage.current = token ∧
      frame.toRenderFrame.Succeeds earlier.toRenderFrame

variable {feed next : FrameFeed}

theorem Traced.new : Traced {} := by
  constructor
  · intro index sequence frame h
    cases h
  all_goals
    intro frame h
    cases h

/-- Damage is relative to the frame itself or to the one it follows. -/
theorem Traced.succeeds_of_follows (h : feed.Traced) {frame cached : TracedFrame}
    (hframe : frame ∈ feed.frames) (hcached : cached ∈ feed.frames)
    (hfollows : frame.lineage.follows cached.lineage = true) :
    frame.toRenderFrame.Succeeds cached.toRenderFrame := by
  cases FrameLineage.follows_iff.mp hfollows with
  | inl hcurrent =>
    rw [h.distinct frame hframe cached hcached hcurrent]
    exact .refl cached.toRenderFrame
  | inr hprevious =>
    have ⟨earlier, hearlier, hcurrent, hsucceeds⟩ := h.succeeds frame hframe _ hprevious
    rw [← h.distinct earlier hearlier cached hcached hcurrent]
    exact hsucceeds

theorem Traced.insertImage (h : feed.Traced) (index : ℕ) (content : ImageContent) :
    (feed.insertImage index content).Traced where
  shown := by
    intro other sequence frame hprevious
    by_cases hindex : other = index
    · rw [hindex] at hprevious ⊢
      simp only [FrameFeed.insertImage, Function.update_self] at hprevious ⊢
      rw [TracedDecoder.insertImage_previous] at hprevious
      exact h.shown index sequence frame hprevious
    · simp only [FrameFeed.insertImage, Function.update_of_ne hindex] at hprevious ⊢
      exact h.shown other sequence frame hprevious
  allocated := h.allocated
  distinct := h.distinct
  madeOf := h.madeOf
  succeeds := h.succeeds

/-- What a call of `apply` does to the decoders and frames. -/
theorem apply_cases {index : ℕ} {update : FrameUpdate} (h : feed.apply index update = some next) :
    next = { feed with tokens := feed.tokens + 1 } ∨
      ∃ frame traced current,
        (feed.decoders index).Advances feed.tokens update frame traced current ∧
          frame.text.length ≤ usizeMax ∧
          next = { decoders := Function.update feed.decoders index traced
                   frames := feed.frames ++ [frame], tokens := feed.tokens + 1 } := by
  unfold apply at h
  generalize hcall : (feed.decoders index).apply feed.tokens update = after at h
  have ⟨result, traced⟩ := after
  cases result with
  | error error =>
    have hkept := TracedDecoder.eq_of_apply_eq_error hcall
    have hnext := Option.some.inj h
    left
    rw [← hnext, hkept]
    simp
  | ok frame =>
    have ⟨current, hadvances⟩ := TracedDecoder.apply_eq_ok hcall
    dsimp only at h
    split at h
    · next hfits =>
      exact Or.inr ⟨frame, traced, current, hadvances, hfits, (Option.some.inj h).symm⟩
    · cases h

/-- A feed remembers its frames. -/
theorem subset_of_apply {index : ℕ} {update : FrameUpdate}
    (h : feed.apply index update = some next) : feed.frames ⊆ next.frames := by
  cases apply_cases h with
  | inl hkept =>
    rw [hkept]
    exact List.Subset.refl _
  | inr hreturned =>
    have ⟨frame, traced, current, _, _, hnext⟩ := hreturned
    rw [hnext]
    exact List.subset_append_left _ _

section Returned

variable {index : ℕ} {update : FrameUpdate} {frame : TracedFrame} {traced : TracedDecoder}
  {current : List WireRow}

/-- The pointer of a frame returned is new. -/
theorem Traced.distinct_append (h : feed.Traced) (hfresh : frame.lineage.current = feed.tokens) :
    ∀ left ∈ feed.frames ++ [frame], ∀ right ∈ feed.frames ++ [frame],
      left.lineage.current = right.lineage.current → left = right := by
  have hmem : ∀ other ∈ feed.frames ++ [frame], other ∈ feed.frames ∨ other = frame := by simp
  have hnew : ∀ other ∈ feed.frames, other.lineage.current ≠ frame.lineage.current := by
    intro other hother
    have hbound := h.allocated other hother
    omega
  intro left hleft right hright hcurrent
  cases hmem left hleft with
  | inl holdLeft =>
    cases hmem right hright with
    | inl holdRight => exact h.distinct left holdLeft right holdRight hcurrent
    | inr hframe =>
      rw [hframe] at hcurrent
      exact absurd hcurrent (hnew left holdLeft)
  | inr hframe =>
    rw [hframe] at hcurrent ⊢
    cases hmem right hright with
    | inl holdRight => exact absurd hcurrent.symm (hnew right holdRight)
    | inr hframe' => exact hframe'.symm

/-- The damage of a frame returned is relative to the frame that the decoder returned last. -/
theorem Traced.exists_earlier (h : feed.Traced)
    (hadvances : (feed.decoders index).Advances feed.tokens update frame traced current)
    (hfits : frame.text.length ≤ usizeMax) {token : ℕ}
    (htoken : frame.lineage.previous = some token) :
    ∃ earlier ∈ feed.frames, earlier.lineage.current = token ∧
      frame.toRenderFrame.Succeeds earlier.toRenderFrame := by
  have ⟨hdelta, previous, hlineage, hcurrent⟩ := hadvances.delta token htoken
  have ⟨sequence, earlier, hprevious, hsucceeds⟩ := hadvances.steps.succeeds hdelta hfits
  have ⟨returned, hreturned, hshown, hsame⟩ := h.shown index sequence earlier hprevious
  have heq : previous = returned.lineage := Option.some.inj (hlineage.symm.trans hsame)
  refine ⟨returned, hreturned, ?_, ?_⟩
  · rw [← heq, hcurrent]
  · rw [hshown]
    exact hsucceeds

private theorem Traced.returned (h : feed.Traced)
    (hadvances : (feed.decoders index).Advances feed.tokens update frame traced current)
    (hfits : frame.text.length ≤ usizeMax) :
    Traced { decoders := Function.update feed.decoders index traced
             frames := feed.frames ++ [frame], tokens := feed.tokens + 1 } := by
  have hmem : ∀ other ∈ feed.frames ++ [frame], other ∈ feed.frames ∨ other = frame := by simp
  constructor
  · intro other sequence shown hprevious
    dsimp only at hprevious ⊢
    by_cases hindex : other = index
    · rw [hindex] at hprevious ⊢
      rw [Function.update_self] at hprevious ⊢
      rw [hadvances.steps.shown] at hprevious
      have hshown := (Prod.mk.inj (Option.some.inj hprevious)).2
      exact ⟨frame, by simp, hshown, hadvances.lineage⟩
    · rw [Function.update_of_ne hindex] at hprevious ⊢
      have ⟨returned, hreturned, hshown⟩ := h.shown other sequence shown hprevious
      exact ⟨returned, List.mem_append_left _ hreturned, hshown⟩
  · intro other hother
    apply Nat.lt_succ_of_le
    cases hmem other hother with
    | inl hold => exact Nat.le_of_lt (h.allocated other hold)
    | inr hframe =>
      rw [hframe]
      exact Nat.le_of_eq hadvances.fresh
  · exact h.distinct_append hadvances.fresh
  · intro other hother
    cases hmem other hother with
    | inl hold => exact h.madeOf other hold
    | inr hframe =>
      rw [hframe]
      exact ⟨current, hadvances.steps.madeOf hfits⟩
  · intro other hother token htoken
    have hearlier : ∃ earlier ∈ feed.frames, earlier.lineage.current = token ∧
        other.toRenderFrame.Succeeds earlier.toRenderFrame := by
      cases hmem other hother with
      | inl hold => exact h.succeeds other hold token htoken
      | inr hframe =>
        rw [hframe] at htoken ⊢
        exact h.exists_earlier hadvances hfits htoken
    have ⟨earlier, hreturned, hsucceeds⟩ := hearlier
    exact ⟨earlier, List.mem_append_left _ hreturned, hsucceeds⟩

end Returned

/-- An update keeps the feed traced. -/
theorem Traced.apply (h : feed.Traced) {index : ℕ} {update : FrameUpdate}
    (happly : feed.apply index update = some next) : next.Traced := by
  cases apply_cases happly with
  | inl hkept =>
    rw [hkept]
    exact { h with allocated := fun frame hframe ↦ Nat.lt_succ_of_lt (h.allocated frame hframe) }
  | inr hreturned =>
    have ⟨frame, traced, current, hadvances, hfits, hnext⟩ := hreturned
    rw [hnext]
    exact h.returned hadvances hfits

end FrameFeed
end Vt
end Bootty.Terminal
