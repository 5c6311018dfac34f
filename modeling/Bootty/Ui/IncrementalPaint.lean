import Bootty.Base.Machine
import Bootty.Ui.FramePaint

/-!
# Incremental painting

The row cache of `PaintPlanner`, `crates/bootty-ui/src/paint_plan.rs:329–416`, over runs of a
planner on the frames that any number of decoders return. What is cached are the rows of one of
these frames; a frame that follows it damages every row that differs, so that planning the damaged
rows anew is planning the whole frame.
-/

namespace Bootty.Ui

open Bootty.Base
open Bootty.Terminal (FrameFeed FrameUpdate ImageContent RenderFrame
  TerminalSurface TracedFrame WireRow)

private theorem forall₂_flatMap {α β : Type} {R : α → α → Prop} {P : β → β → Prop} {f : α → List β}
    (hf : ∀ a b, R a b → List.Forall₂ P (f a) (f b)) {as bs : List α} (h : List.Forall₂ R as bs) :
    List.Forall₂ P (as.flatMap f) (bs.flatMap f) := by
  induction h with
  | nil => exact .nil
  | cons hab _ ih => exact List.rel_append (hf _ _ hab) ih

/-- Keys that compare equal differ in their surfaces alone, which are at the same place. -/
theorem RowPaintCacheKey.eq_of_eq {K : Type} [FloatOps K] [DecidableEq K]
    {a b : RowPaintCacheKey K} (h : a.eq b = true) :
    a.surface.Alike b.surface ∧ a = { b with surface := a.surface } := by
  simp only [RowPaintCacheKey.eq, Bool.and_eq_true, beq_iff_eq] at h
  have ⟨⟨⟨⟨⟨⟨hsurface, hcols⟩, hrows⟩, hfont⟩, hheight⟩, hfg⟩, hbg⟩ := h
  refine ⟨TerminalSurface.alike_of_eq hsurface, ?_⟩
  rw [← hcols, ← hrows, ← hfont, ← hheight, ← hfg, ← hbg]

section Planner

variable [lib : PaintLibrary] {K : Type} [FloatOps K]

namespace PaintPlanner

variable {planner : PaintPlanner K} {surface surface' : TerminalSurface K}
  {fontSize textCellHeight : K}

/-- What the rows are planned in depends on the colors of the frame. -/
theorem rowContext_congr {planner' : PaintPlanner K} {frame frame' : RenderFrame}
    (hoffset : planner.underlineOffset = planner'.underlineOffset)
    (hfg : PlanColor.ofRgb frame.colors.foreground = .ofRgb frame'.colors.foreground)
    (hbg : PlanColor.ofRgb frame.colors.background = .ofRgb frame'.colors.background) :
    planner.rowContext frame fontSize textCellHeight =
      planner'.rowContext frame' fontSize textCellHeight := by
  rw [rowContext, rowContext, underlineOffsetOr, underlineOffsetOr, hoffset, hfg, hbg]

variable [DecidableEq K]

/-- The fragments of a planner are those of the rows of a frame. -/
structure Painted (planner : PaintPlanner K) (surface : TerminalSurface K) (frame : RenderFrame)
    (fontSize textCellHeight : K) : Prop where
  length : planner.rowFragments.length = frame.rows
  alike (y : ℕ) (fragment : RowPaintFragment K) : planner.rowFragments[y]? = some fragment →
    fragment.Alike
      (planRowFragment surface frame y (planner.rowContext frame fontSize textCellHeight))

private theorem Painted.lt {frame : RenderFrame}
    (h : planner.Painted surface frame fontSize textCellHeight)
    {y : ℕ} {fragment : RowPaintFragment K} (hfragment : planner.rowFragments[y]? = some fragment) :
    y < frame.rows := by
  rw [← h.length]
  exact (List.getElem?_eq_some_iff.mp hfragment).1

variable {accepted : List WireRow}

/-- The fragments do for a surface at the same place. -/
theorem Painted.congr [LawfulFloatOps K] {frame : RenderFrame}
    (h : planner.Painted surface frame fontSize textCellHeight) (hmade : frame.MadeOf accepted)
    (hsurface : surface.Alike surface') :
    planner.Painted surface' frame fontSize textCellHeight where
  length := h.length
  alike y fragment hfragment := (h.alike y fragment hfragment).trans
    (alike_planRowFragment hmade hmade (h.lt hfragment) rfl hsurface rfl)

/-! ### One incremental plan -/

variable {frame : TracedFrame}

@[simp] theorem underlineOffset_planIncremental :
    (planner.planIncremental surface frame fontSize textCellHeight).1.underlineOffset =
      planner.underlineOffset := by
  dsimp only [planIncremental]
  split <;> rfl

@[simp] theorem rowCacheLineage_planIncremental :
    (planner.planIncremental surface frame fontSize textCellHeight).1.rowCacheLineage =
      some frame.lineage := rfl

/-- A cache that is ready keeps its key. -/
theorem rowCacheKey_planIncremental :
    (planner.planIncremental surface frame fontSize textCellHeight).1.rowCacheKey =
      if planner.cacheReady (cacheKey surface frame.toRenderFrame fontSize textCellHeight) frame then
        planner.rowCacheKey
      else some (cacheKey surface frame.toRenderFrame fontSize textCellHeight) := by
  dsimp only [planIncremental]
  split <;> rfl

/-- Without a cache every row is planned. -/
theorem painted_of_not_ready [LawfulFloatOps K] (hmade : frame.toRenderFrame.MadeOf accepted)
    (hready : planner.cacheReady
      (cacheKey surface frame.toRenderFrame fontSize textCellHeight) frame = false) :
    (planner.planIncremental surface frame fontSize textCellHeight).1.Painted surface
      frame.toRenderFrame fontSize textCellHeight := by
  simp only [planIncremental, hready]
  constructor
  · simp [invalidateIncrementalCache]
  · intro y fragment hfragment
    simp only [invalidateIncrementalCache, Bool.false_eq_true, if_false, Bool.not_false,
      Bool.true_or, if_true, List.getElem?_mapIdx, Option.map_eq_some_iff] at hfragment
    have ⟨empty, hempty, hplanned⟩ := hfragment
    have hy : y < frame.rows := by
      have hlength := (List.getElem?_eq_some_iff.mp hempty).1
      rwa [List.length_replicate] at hlength
    rw [← hplanned]
    exact alike_planRowFragment hmade hmade hy rfl (.refl surface) rfl

/-- With the rows of an earlier frame only the damaged rows are planned. -/
theorem painted_of_ready [LawfulFloatOps K] {accepted' : List WireRow} {earlier : RenderFrame}
    (hmade : frame.toRenderFrame.MadeOf accepted) (hmade' : earlier.MadeOf accepted')
    (hready : planner.cacheReady
      (cacheKey surface frame.toRenderFrame fontSize textCellHeight) frame = true)
    (hcached : planner.Painted surface earlier fontSize textCellHeight)
    (hsucceeds : frame.toRenderFrame.Succeeds earlier)
    (hcontext : planner.rowContext earlier fontSize textCellHeight =
      planner.rowContext frame.toRenderFrame fontSize textCellHeight) :
    (planner.planIncremental surface frame fontSize textCellHeight).1.Painted surface
      frame.toRenderFrame fontSize textCellHeight := by
  simp only [planIncremental, hready]
  constructor
  · simp [hcached.length, hsucceeds.rows_eq]
  · intro y fragment hfragment
    simp only [if_true, Bool.not_true, Bool.false_or, List.getElem?_mapIdx,
      Option.map_eq_some_iff] at hfragment
    have ⟨old, hold, hplanned⟩ := hfragment
    have hy := hcached.lt hold
    rw [← hplanned]
    split
    · rw [← hsucceeds.rows_eq] at hy
      exact alike_planRowFragment hmade hmade hy rfl (.refl surface) rfl
    · next hclean =>
      have hkept : frame.rowDirty[y]? = some false := by
        cases hdirty : frame.rowDirty[y]? with
        | none => simp [hdirty] at hclean
        | some dirty => simpa [hdirty] using hclean
      have hsame := hsucceeds.kept y hkept
      rw [hmade.rows_eq, hmade'.rows_eq] at hsame
      have hfront := hcached.alike y old hold
      rw [hcontext] at hfront
      exact hfront.trans (alike_planRowFragment hmade' hmade hy hsame (.refl surface) rfl)

/-! ### The plan -/

/-- The rows of a planner and of a plan of the whole frame. -/
theorem Painted.forall₂ {frame : RenderFrame}
    (h : planner.Painted surface frame fontSize textCellHeight) :
    List.Forall₂ RowPaintFragment.Alike planner.rowFragments
      ((List.range frame.rows).map fun y ↦ planRowFragment surface frame y
        (planner.rowContext frame fontSize textCellHeight)) := by
  rw [List.forall₂_iff_get]
  refine ⟨by simp [h.length], ?_⟩
  intro y hy _
  have halike := h.alike y planner.rowFragments[y] (List.getElem?_eq_getElem hy)
  simpa using halike

/-- Without overlays the plan of a frame is that of its rows. -/
theorem planWithOptions_plan {frame : RenderFrame} (hmade : frame.MadeOf accepted)
    (htops : DistinctTops surface frame.rows) (hselections : frame.selections = [])
    (hmatches : frame.searchMatches = []) (hactive : frame.activeSearchMatch = none)
    (phase : CursorBlinkPhase K) :
    (planner.planWithOptions surface frame fontSize textCellHeight phase false).plan =
      { surface := surface.gridRect frame.cols frame.rows
        defaultBackground := .ofRgb frame.colors.background
        backgrounds := (List.range frame.rows).flatMap fun y ↦
          (planRowFragment surface frame y
            (planner.rowContext frame fontSize textCellHeight)).backgrounds
        textRuns := (List.range frame.rows).flatMap fun y ↦
          (planRowFragment surface frame y
            (planner.rowContext frame fontSize textCellHeight)).textRuns
        decorations := (List.range frame.rows).flatMap fun y ↦
          (planRowFragment surface frame y
            (planner.rowContext frame fontSize textCellHeight)).decorations
        cursor := planCursor surface frame (.ofRgb frame.colors.foreground)
          (.ofRgb frame.colors.background) textCellHeight phase } := by
  simp only [planWithOptions, planOverlays, hselections, hmatches, hactive, List.isEmpty_nil,
    Option.isNone_none, Bool.and_self, if_true, planBackgrounds_eq hmade htops,
    planTextRuns_eq hmade]
  rfl

/-- Fragments of the rows of a frame make up the plan of the frame. -/
theorem Painted.alike_plan {other : PaintPlanner K}
    (hpainted : (planner.planIncremental surface frame fontSize textCellHeight).1.Painted surface
      frame.toRenderFrame fontSize textCellHeight)
    (hoffset : other.underlineOffset = planner.underlineOffset)
    (hmade : frame.toRenderFrame.MadeOf accepted) (htops : DistinctTops surface frame.rows)
    (hselections : frame.selections = []) (hmatches : frame.searchMatches = [])
    (hactive : frame.activeSearchMatch = none) :
    (planner.planIncremental surface frame fontSize textCellHeight).1.plan.Alike
      (other.planWithCursorBlinkPhaseAndTextCellHeight surface frame.toRenderFrame fontSize
        textCellHeight .visible).plan := by
  have hcontext : (planner.planIncremental surface frame fontSize textCellHeight).1.rowContext
      frame.toRenderFrame fontSize textCellHeight =
        other.rowContext frame.toRenderFrame fontSize textCellHeight :=
    rowContext_congr (underlineOffset_planIncremental.trans hoffset.symm) rfl rfl
  have hrows := hpainted.forall₂
  rw [hcontext] at hrows
  rw [planWithCursorBlinkPhaseAndTextCellHeight,
    planWithOptions_plan hmade htops hselections hmatches hactive]
  have hbackgrounds := forall₂_flatMap (fun _ _ ↦ RowPaintFragment.Alike.backgrounds) hrows
  have htextRuns := forall₂_flatMap (fun _ _ ↦ RowPaintFragment.Alike.textRuns) hrows
  have hdecorations := forall₂_flatMap (fun _ _ ↦ RowPaintFragment.Alike.decorations) hrows
  rw [List.flatMap_map] at hbackgrounds htextRuns hdecorations
  exact ⟨rfl, rfl, hbackgrounds, htextRuns, hdecorations, rfl⟩

/-! ### The cache -/

/-- What is cached are the rows of a frame returned. -/
def CacheOf (planner : PaintPlanner K) (frames : List TracedFrame) : Prop :=
  ∀ key lineage, planner.rowCacheKey = some key → planner.rowCacheLineage = some lineage →
    ∃ frame ∈ frames, frame.lineage = lineage ∧
      key = cacheKey key.surface frame.toRenderFrame key.fontSize key.textCellHeight ∧
      planner.Painted key.surface frame.toRenderFrame key.fontSize key.textCellHeight

/-- The rows of an earlier frame are cached, on a surface at the same place. -/
structure Reuses (planner : PaintPlanner K) (surface : TerminalSurface K) (frame : RenderFrame)
    (fontSize textCellHeight : K) (old : TerminalSurface K) (earlier : RenderFrame) : Prop where
  surface : old.Alike surface
  key : planner.rowCacheKey = some (cacheKey old frame fontSize textCellHeight)
  succeeds : frame.Succeeds earlier
  context : planner.rowContext earlier fontSize textCellHeight =
    planner.rowContext frame fontSize textCellHeight
  painted : planner.Painted old earlier fontSize textCellHeight

variable {feed : FrameFeed}

/-- A cache that is ready has the rows of a frame that the damage is relative to. -/
theorem CacheOf.reuses (h : planner.CacheOf feed.frames) (hfeed : feed.Traced)
    (hframe : frame ∈ feed.frames)
    (hready : planner.cacheReady
      (cacheKey surface frame.toRenderFrame fontSize textCellHeight) frame = true) :
    ∃ earlier ∈ feed.frames, ∃ old, planner.Reuses surface frame.toRenderFrame fontSize
      textCellHeight old earlier.toRenderFrame := by
  simp only [cacheReady, Bool.and_eq_true, Option.any_eq_true] at hready
  have ⟨⟨⟨key, hkey, heq⟩, _⟩, lineage, hlineage, hfollows⟩ := hready
  have ⟨halike, hkeys⟩ := RowPaintCacheKey.eq_of_eq heq
  have ⟨earlier, hearlier, hcached, hmade, hpainted⟩ := h key lineage hkey hlineage
  have hkeyFrame : key = cacheKey key.surface frame.toRenderFrame fontSize textCellHeight := hkeys
  have hfont : key.fontSize = fontSize := congrArg RowPaintCacheKey.fontSize hkeyFrame
  have hheight : key.textCellHeight = textCellHeight :=
    congrArg RowPaintCacheKey.textCellHeight hkeyFrame
  have hsame := hmade.symm.trans hkeyFrame
  rw [hfont, hheight] at hpainted
  refine ⟨earlier, hearlier, key.surface, halike, ?_, ?_, ?_, hpainted⟩
  · rw [hkey, ← hkeyFrame]
  · rw [← hcached] at hfollows
    exact hfeed.succeeds_of_follows hframe hearlier hfollows
  · exact rowContext_congr rfl (congrArg RowPaintCacheKey.defaultForeground hsame)
      (congrArg RowPaintCacheKey.defaultBackground hsame)

private theorem CacheOf.painted_planIncremental [LawfulFloatOps K] (h : planner.CacheOf feed.frames)
    (hfeed : feed.Traced) (hframe : frame ∈ feed.frames) (surface : TerminalSurface K)
    (fontSize textCellHeight : K) :
    (planner.planIncremental surface frame fontSize textCellHeight).1.Painted surface
      frame.toRenderFrame fontSize textCellHeight := by
  have ⟨accepted, hmade⟩ := hfeed.madeOf frame hframe
  cases hready : planner.cacheReady
      (cacheKey surface frame.toRenderFrame fontSize textCellHeight) frame with
  | false => exact painted_of_not_ready hmade hready
  | true =>
    have ⟨earlier, hearlier, old, hreuses⟩ := h.reuses hfeed hframe hready
    have ⟨accepted', hmade'⟩ := hfeed.madeOf earlier hearlier
    exact painted_of_ready hmade hmade' hready (hreuses.painted.congr hmade' hreuses.surface)
      hreuses.succeeds hreuses.context

/-- The rows of the frame are cached, on a surface at the same place. -/
theorem CacheOf.exists_key [LawfulFloatOps K] (h : planner.CacheOf feed.frames)
    (hfeed : feed.Traced) (hframe : frame ∈ feed.frames) (surface : TerminalSurface K)
    (fontSize textCellHeight : K) :
    ∃ cached, surface.Alike cached ∧
      (planner.planIncremental surface frame fontSize textCellHeight).1.rowCacheKey =
        some (cacheKey cached frame.toRenderFrame fontSize textCellHeight) := by
  rw [rowCacheKey_planIncremental]
  split
  · next hready =>
    have ⟨_, _, old, hreuses⟩ := h.reuses hfeed hframe hready
    exact ⟨old, hreuses.surface.symm, hreuses.key⟩
  · exact ⟨surface, .refl surface, rfl⟩

private theorem CacheOf.planIncremental [LawfulFloatOps K] (h : planner.CacheOf feed.frames)
    (hfeed : feed.Traced) (hframe : frame ∈ feed.frames) :
    (planner.planIncremental surface frame fontSize textCellHeight).1.CacheOf feed.frames := by
  have ⟨accepted, hmade⟩ := hfeed.madeOf frame hframe
  have ⟨cached, halike, hcachedKey⟩ := h.exists_key hfeed hframe surface fontSize textCellHeight
  intro key lineage hkey hlineage
  rw [rowCacheLineage_planIncremental] at hlineage
  rw [hcachedKey] at hkey
  rw [← Option.some.inj hkey]
  exact ⟨frame, hframe, Option.some.inj hlineage, rfl,
    (h.painted_planIncremental hfeed hframe _ _ _).congr hmade halike⟩

private theorem CacheOf.of_key_eq_none (h : planner.rowCacheKey = none)
    (frames : List TracedFrame) :
    planner.CacheOf frames := by
  intro key lineage hkey
  rw [h] at hkey
  cases hkey

private theorem CacheOf.mono {frames frames' : List TracedFrame} (h : planner.CacheOf frames)
    (hsubset : frames ⊆ frames') : planner.CacheOf frames' := by
  intro key lineage hkey hlineage
  have ⟨frame, hframe, hcached⟩ := h key lineage hkey hlineage
  exact ⟨frame, hsubset hframe, hcached⟩

/-- An offset set anew empties the cache. -/
theorem CacheOf.setUnderlineOffset {frames : List TracedFrame} (h : planner.CacheOf frames)
    (offset : K) : (planner.setUnderlineOffset offset).CacheOf frames := by
  rw [PaintPlanner.setUnderlineOffset]
  split
  · exact .of_key_eq_none rfl frames
  · exact h

end PaintPlanner

/-! ### Runs -/

/-- Decoders with the frames they have returned, and a planner. -/
structure Screen (K : Type) [FloatOps K] where
  feed : FrameFeed := {}
  planner : PaintPlanner K := .new

/-- What happens to a screen; a frame is given by when it was returned. -/
inductive ScreenEvent (K : Type) where
  | apply (index : ℕ) (update : FrameUpdate)
  | insertImage (index : ℕ) (content : ImageContent)
  | setUnderlineOffset (offset : K)
  | invalidateIncrementalCache
  | planWithOptions (surface : TerminalSurface K) (shown : ℕ) (fontSize textCellHeight : K)
      (phase : CursorBlinkPhase K) (minimumContrast : Bool)
  | planIncremental (surface : TerminalSurface K) (shown : ℕ) (fontSize textCellHeight : K)

namespace Screen

variable [DecidableEq K]

/-- The other full plans are cases of `plan_with_options`. -/
def step (screen : Screen K) : ScreenEvent K → Option (Screen K)
  | .apply index update =>
    (screen.feed.apply index update).map fun feed ↦ { screen with feed }
  | .insertImage index content =>
    some { screen with feed := screen.feed.insertImage index content }
  | .setUnderlineOffset offset =>
    some { screen with planner := screen.planner.setUnderlineOffset offset }
  | .invalidateIncrementalCache =>
    some { screen with planner := screen.planner.invalidateIncrementalCache }
  | .planWithOptions surface shown fontSize textCellHeight phase minimumContrast =>
    (screen.feed.frames[shown]?).map fun frame ↦
      { screen with
        planner := screen.planner.planWithOptions surface frame.toRenderFrame fontSize
          textCellHeight phase minimumContrast }
  | .planIncremental surface shown fontSize textCellHeight =>
    (screen.feed.frames[shown]?).map fun frame ↦
      { screen with
        planner := (screen.planner.planIncremental surface frame fontSize textCellHeight).1 }

/-- What every action keeps. -/
structure Sound (screen : Screen K) : Prop where
  traced : screen.feed.Traced
  cache : screen.planner.CacheOf screen.feed.frames

private theorem Sound.new : Sound ({} : Screen K) :=
  ⟨.new, .of_key_eq_none rfl _⟩

private theorem Sound.step [LawfulFloatOps K] {screen screen' : Screen K} (h : screen.Sound)
    {event : ScreenEvent K} (hstep : screen.step event = some screen') : screen'.Sound := by
  cases event with
  | apply index update =>
    have ⟨feed, hfeed, hscreen⟩ := Option.map_eq_some_iff.mp hstep
    rw [← hscreen]
    exact ⟨h.traced.apply hfeed, h.cache.mono (FrameFeed.subset_of_apply hfeed)⟩
  | insertImage index content =>
    rw [← Option.some.inj hstep]
    exact ⟨h.traced.insertImage index content, h.cache⟩
  | setUnderlineOffset offset =>
    rw [← Option.some.inj hstep]
    exact ⟨h.traced, h.cache.setUnderlineOffset offset⟩
  | invalidateIncrementalCache =>
    rw [← Option.some.inj hstep]
    exact ⟨h.traced, .of_key_eq_none rfl _⟩
  | planWithOptions surface shown fontSize textCellHeight phase minimumContrast =>
    have ⟨frame, _, hscreen⟩ := Option.map_eq_some_iff.mp hstep
    rw [← hscreen]
    exact ⟨h.traced, .of_key_eq_none rfl _⟩
  | planIncremental surface shown fontSize textCellHeight =>
    have ⟨frame, hframe, hscreen⟩ := Option.map_eq_some_iff.mp hstep
    rw [← hscreen]
    exact ⟨h.traced, h.cache.planIncremental h.traced (List.mem_of_getElem? hframe)⟩

private theorem sound_of_reaches [LawfulFloatOps K] {screen : Screen K}
    (h : Reaches step anyStep {} screen) : screen.Sound :=
  h.invariant .new fun _ _ _ hsound _ hstep ↦ hsound.step hstep

/-- After any run a frame without overlays is planned row by row as it is planned at once, by any
planner with the same underline offset. -/
theorem planIncremental_eq_plan {screen : Screen K} (hreaches : Reaches step anyStep {} screen)
    {frame : TracedFrame} (hframe : frame ∈ screen.feed.frames)
    (hselections : frame.selections = []) (hmatches : frame.searchMatches = [])
    (hactive : frame.activeSearchMatch = none) {surface : TerminalSurface K}
    (htops : DistinctTops surface frame.rows) (fontSize textCellHeight : K)
    {other : PaintPlanner K} (hoffset : other.underlineOffset = screen.planner.underlineOffset) :
    let incremental :=
      (screen.planner.planIncremental surface frame fontSize textCellHeight).1.plan
    let full := (other.planWithCursorBlinkPhaseAndTextCellHeight surface frame.toRenderFrame
      fontSize textCellHeight .visible).plan
    (LawfulFloatOps K → incremental.Alike full) ∧ (ExactEq K → incremental = full) := by
  have halike (hlawful : LawfulFloatOps K) :
      (screen.planner.planIncremental surface frame fontSize textCellHeight).1.plan.Alike
        (other.planWithCursorBlinkPhaseAndTextCellHeight surface frame.toRenderFrame fontSize
          textCellHeight .visible).plan := by
    have hsound := sound_of_reaches hreaches
    have ⟨accepted, hmade⟩ := hsound.traced.madeOf frame hframe
    have hpainted := hsound.cache.painted_planIncremental hsound.traced hframe surface fontSize
      textCellHeight
    exact hpainted.alike_plan hoffset hmade htops hselections hmatches hactive
  exact ⟨halike, fun hexact ↦ (halike hexact.lawful).eq hexact⟩

end Screen
end Planner

/-! ### A row kept -/

/-- Enumerations by their codes, every character one cell wide. -/
instance codedPaint : PaintLibrary where
  toVtLibrary := Terminal.codedVt
  bar := (0 : Fin 4)
  underline := (2 : Fin 4)
  blockHollow := (3 : Fin 4)
  noUnderline := Terminal.underlineOf 0
  double := Terminal.underlineOf 2
  curly := Terminal.underlineOf 3
  dotted := Terminal.underlineOf 4
  dashed := Terminal.underlineOf 5
  charWidth _ := some 1
  textWidth := List.length

private def letterRow (letter : Char) : WireRow :=
  { text := [letter], cells :=
    [{ x := 0, y := 0, textStart := 0, textLen := 1, fg := none, bg := none, hyperlink := none
       style := ⟨false, false, false, false, false, false, false, false, Terminal.underlineOf 0⟩ }] }

private def lettersUpdate (sequence : ℕ) (rows : Terminal.FrameRows) : FrameUpdate :=
  { sequence, rows, state :=
    { cols := 1, rows := 2, rowWraps := [false, false], stats := {}, placements := []
      virtualPlacements := [], virtualPlaceholderRows := [] } }

private def sampleSurface (K : Type) [FloatOps K] : TerminalSurface K :=
  { rect := ⟨Scalar.literal 0, Scalar.literal 0, Scalar.literal 8, Scalar.literal 32⟩
    padding := ⟨Scalar.literal 0, Scalar.literal 0, Scalar.literal 0, Scalar.literal 0⟩
    cell := ⟨Scalar.literal 8, Scalar.literal 16⟩ }

/-- A frame of two rows is planned, and the lower row changes. -/
private def sampleEvents (K : Type) [FloatOps K] : List (ScreenEvent K) :=
  [.apply 0 (lettersUpdate 1 (.full [letterRow 'a', letterRow 'b'])),
    .planIncremental (sampleSurface K) 0 (Scalar.literal 12) (Scalar.literal 16),
    .apply 0 (lettersUpdate 2 (.rows 1 [(1, letterRow 'c')]))]

/-- The newest frame of the sample, for which the cache is ready. -/
private structure Shows {K : Type} [FloatOps K] [DecidableEq K] (screen : Screen K)
    (frame : TracedFrame) : Prop where
  dirty : frame.rowDirty = [false, true]
  rows : frame.rows = 2
  selections : frame.selections = []
  searchMatches : frame.searchMatches = []
  activeSearchMatch : frame.activeSearchMatch = none
  ready : screen.planner.cacheReady (PaintPlanner.cacheKey (sampleSurface K) frame.toRenderFrame
    (Scalar.literal 12) (Scalar.literal 16)) frame = true

private def showsNewest {K : Type} [FloatOps K] [DecidableEq K] (screen : Screen K) : Bool :=
  screen.feed.frames.any fun frame ↦
    frame.rowDirty == [false, true] && frame.rows == 2 && frame.selections == [] &&
      frame.searchMatches == [] && frame.activeSearchMatch == none &&
      screen.planner.cacheReady (PaintPlanner.cacheKey (sampleSurface K) frame.toRenderFrame
        (Scalar.literal 12) (Scalar.literal 16)) frame

private theorem exists_shows {K : Type} [FloatOps K] [DecidableEq K]
    (h : (runEvents Screen.step anyTest {} (sampleEvents K)).map showsNewest = some true) :
    ∃ screen : Screen K, Reaches Screen.step anyStep {} screen ∧
      ∃ frame ∈ screen.feed.frames, Shows screen frame := by
  have ⟨screen, hreaches, hnewest⟩ := exists_reaches_anyStep h
  have ⟨frame, hframe, hshows⟩ := List.any_eq_true.mp hnewest
  simp only [Bool.and_eq_true, beq_iff_eq] at hshows
  have ⟨⟨⟨⟨⟨hdirty, hrows⟩, hselections⟩, hmatches⟩, hactive⟩, hready⟩ := hshows
  exact ⟨screen, hreaches, frame, hframe, hdirty, hrows, hselections, hmatches, hactive, hready⟩

/-- The upper row comes from the cache, in floats and in exact numbers. -/
theorem planIncremental_eq_plan_sample :
    (∃ screen : Screen Binary32, ∃ frame, Shows screen frame ∧
      (screen.planner.planIncremental (sampleSurface Binary32) frame (Scalar.literal 12)
        (Scalar.literal 16)).1.plan.Alike
      (screen.planner.planWithCursorBlinkPhaseAndTextCellHeight (sampleSurface Binary32)
        frame.toRenderFrame (Scalar.literal 12) (Scalar.literal 16) .visible).plan) ∧
    ∃ screen : Screen ℚ, ∃ frame, Shows screen frame ∧
      (screen.planner.planIncremental (sampleSurface ℚ) frame (Scalar.literal 12)
        (Scalar.literal 16)).1.plan =
      (screen.planner.planWithCursorBlinkPhaseAndTextCellHeight (sampleSurface ℚ)
        frame.toRenderFrame (Scalar.literal 12) (Scalar.literal 16) .visible).plan := by
  constructor
  · have hrun : (runEvents Screen.step anyTest {} (sampleEvents Binary32)).map showsNewest =
        some true := by decide +kernel
    have htops : DistinctTops (sampleSurface Binary32) 2 := by
      unfold DistinctTops
      decide +kernel
    have ⟨screen, hreaches, frame, hframe, hshows⟩ := exists_shows hrun
    rw [← hshows.rows] at htops
    have hsame := Screen.planIncremental_eq_plan hreaches hframe hshows.selections
      hshows.searchMatches hshows.activeSearchMatch htops (Scalar.literal 12) (Scalar.literal 16) rfl
    exact ⟨screen, frame, hshows, hsame.1 inferInstance⟩
  · have hrun : (runEvents Screen.step anyTest {} (sampleEvents ℚ)).map showsNewest =
        some true := by decide +kernel
    have htops : DistinctTops (sampleSurface ℚ) 2 := by
      unfold DistinctTops
      decide +kernel
    have hexact : ExactEq ℚ := fun _ _ h ↦ eq_of_beq h
    have ⟨screen, hreaches, frame, hframe, hshows⟩ := exists_shows hrun
    rw [← hshows.rows] at htops
    have hsame := Screen.planIncremental_eq_plan hreaches hframe hshows.selections
      hshows.searchMatches hshows.activeSearchMatch htops (Scalar.literal 12) (Scalar.literal 16) rfl
    exact ⟨screen, frame, hshows, hsame.2 hexact⟩

end Bootty.Ui
