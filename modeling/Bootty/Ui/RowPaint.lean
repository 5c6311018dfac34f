import Bootty.Ui.PaintPlan
import Mathlib.Data.List.Forall2

/-!
# Painting row by row

A row of a plan depends on the cells of the row and their text alone, and on the surface only up to
what its floats compare equal to. The plan of a frame is the plans of its rows put together, if the
tops of the rows differ.
-/

namespace Bootty.Ui

open Bootty.Base
open Bootty.Terminal (RenderCell RenderFrame SurfaceRect TerminalSurface)

variable {K : Type} [FloatOps K]

/-! ### Plans that cannot be told apart -/

/-- Backgrounds that are painted alike. -/
structure BackgroundRect.Alike (a b : BackgroundRect K) : Prop where
  rect : a.rect.Alike b.rect
  color : a.color = b.color

/-- Lines that are painted alike. -/
structure DecorationLine.Alike (a b : DecorationLine K) : Prop where
  startX : Same a.startX b.startX
  startY : Same a.startY b.startY
  endX : Same a.endX b.endX
  endY : Same a.endY b.endY
  color : a.color = b.color
  style : a.style = b.style

private theorem BackgroundRect.Alike.eq {a b : BackgroundRect K} (h : a.Alike b)
    (hexact : ExactEq K) :
    a = b := by
  cases a
  cases b
  simp only [BackgroundRect.mk.injEq]
  exact ⟨h.rect.eq hexact, h.color⟩

private theorem DecorationLine.Alike.eq {a b : DecorationLine K} (h : a.Alike b)
    (hexact : ExactEq K) :
    a = b := by
  cases a
  cases b
  simp only [DecorationLine.mk.injEq]
  exact ⟨h.startX.eq hexact, h.startY.eq hexact, h.endX.eq hexact, h.endY.eq hexact, h.color,
    h.style⟩

variable {rect : SurfaceRect K}

section Lawful

variable [LawfulFloatOps K]

private theorem BackgroundRect.Alike.trans {a b c : BackgroundRect K} (hab : a.Alike b)
    (hbc : b.Alike c) :
    a.Alike c where
  rect := hab.rect.trans hbc.rect
  color := hab.color.trans hbc.color

private theorem DecorationLine.Alike.trans {a b c : DecorationLine K} (hab : a.Alike b)
    (hbc : b.Alike c) : a.Alike c where
  startX := LawfulFloatOps.trans hab.startX hbc.startX
  startY := LawfulFloatOps.trans hab.startY hbc.startY
  endX := LawfulFloatOps.trans hab.endX hbc.endX
  endY := LawfulFloatOps.trans hab.endY hbc.endY
  color := hab.color.trans hbc.color
  style := hab.style.trans hbc.style

private theorem alike_textRectForRow {rect' : SurfaceRect K} (h : rect.Alike rect')
    (textCellHeight : K) :
    (textRectForRow rect textCellHeight).Alike (textRectForRow rect' textCellHeight) := by
  rw [textRectForRow, textRectForRow]
  have hheight : Same
      (if Scalar.isFinite textCellHeight ∧ Scalar.literal 0 < textCellHeight then
        min textCellHeight rect.height else rect.height)
      (if Scalar.isFinite textCellHeight ∧ Scalar.literal 0 < textCellHeight then
        min textCellHeight rect'.height else rect'.height) := by
    split
    · exact LawfulFloatOps.min (.refl _) h.height
    · exact h.height
  have hoffset := LawfulFloatOps.max
    (LawfulFloatOps.mul (LawfulFloatOps.sub h.height hheight) (.refl (Scalar.literal (1 / 2))))
    (.refl (Scalar.literal 0))
  exact .fromMinSize h.minX (LawfulFloatOps.add h.minY hoffset) h.width hheight

end Lawful

private theorem forall₂_trans {α : Type} {R : α → α → Prop}
    (htrans : ∀ a b c, R a b → R b c → R a c) {as bs cs : List α} (hab : List.Forall₂ R as bs)
    (hbc : List.Forall₂ R bs cs) : List.Forall₂ R as cs := by
  induction hab generalizing cs with
  | nil => exact hbc
  | cons hab _ ih =>
    cases hbc with
    | cons hbc hrest => exact .cons (htrans _ _ _ hab hbc) (ih hrest)

private theorem exists_concat_of_forall₂ {α : Type} {R : α → α → Prop} {init bs : List α} {a : α}
    (h : List.Forall₂ R (init ++ [a]) bs) :
    ∃ init' b, bs = init' ++ [b] ∧ List.Forall₂ R init init' ∧ R a b := by
  induction init generalizing bs with
  | nil =>
    cases h with
    | cons hab hrest =>
      cases hrest with
      | nil => exact ⟨[], _, rfl, .nil, hab⟩
  | cons x init ih =>
    cases h with
    | cons hxy hrest =>
      have ⟨init', b, hbs, hinit, hab⟩ := ih hrest
      exact ⟨_ :: init', b, by rw [hbs]; rfl, .cons hxy hinit, hab⟩

/-! ### Backgrounds -/

/-- The rectangles stand in a row. -/
def InRow (surface : TerminalSurface K) (row : ℕ) (backgrounds : List (BackgroundRect K)) : Prop :=
  ∀ background ∈ backgrounds, background.rect.minY = surface.rowTop row ∧
    background.rect.maxY = surface.rowTop row + surface.cell.height

/-- Whether a rectangle extends the one in front of it. -/
def Extends (last : BackgroundRect K) (rect : SurfaceRect K) (color : PlanColor) : Prop :=
  last.color = color ∧ last.rect.minY = rect.minY ∧ last.rect.maxY = rect.maxY ∧
    FloatOps.abs (last.rect.maxX - rect.minX) ≤ Scalar.literal (1 / 2 ^ 23)

/-- The rectangle, up to the end of another. -/
def BackgroundRect.upTo (last : BackgroundRect K) (rect : SurfaceRect K) : BackgroundRect K :=
  { last with rect := { last.rect with maxX := rect.maxX } }

variable {last : BackgroundRect K}

section Lawful

variable [LawfulFloatOps K] {surface surface' : TerminalSurface K} {row : ℕ}

/-- What extends a rectangle extends one at the same place. -/
theorem extends_congr {last' : BackgroundRect K} (hlast : last.Alike last')
    (hrow : InRow surface row [last]) (hrow' : InRow surface' row [last'])
    (hsurface : surface.Alike surface') (col : ℕ) (color : PlanColor) :
    Extends last (surface.cellRect col row) color ↔
      Extends last' (surface'.cellRect col row) color := by
  have hfront := hrow last List.mem_cons_self
  have hfront' := hrow' last' List.mem_cons_self
  have hgap := LawfulFloatOps.le
    (LawfulFloatOps.abs (LawfulFloatOps.sub hlast.rect.maxX (hsurface.cellRect col row).minX))
    (.refl (Scalar.literal (1 / 2 ^ 23)))
  constructor
  · intro h
    exact ⟨by rw [← hlast.color, h.1], hfront'.1, hfront'.2, hgap.mp h.2.2.2⟩
  · intro h
    exact ⟨by rw [hlast.color, h.1], hfront.1, hfront.2, hgap.mpr h.2.2.2⟩

end Lawful

variable {backgrounds : List (BackgroundRect K)}

section Pushed

variable [DecidableEq K]

private theorem pushBackground_of_extends {color : PlanColor} (h : Extends last rect color)
    (init : List (BackgroundRect K)) :
    pushBackground (init ++ [last]) rect color = init ++ [last.upTo rect] := by
  unfold Extends at h
  rw [pushBackground, List.getLast?_concat]
  dsimp only
  rw [if_pos h, List.dropLast_concat]
  rfl

private theorem pushBackground_of_not_extends {color : PlanColor} (h : ¬ Extends last rect color)
    (init : List (BackgroundRect K)) :
    pushBackground (init ++ [last]) rect color = init ++ [last] ++ [⟨rect, color⟩] := by
  unfold Extends at h
  rw [pushBackground, List.getLast?_concat]
  dsimp only
  rw [if_neg h]

/-- The last rectangle decides. -/
theorem pushBackground_append (h : backgrounds ≠ []) (front : List (BackgroundRect K))
    (rect : SurfaceRect K) (color : PlanColor) :
    pushBackground (front ++ backgrounds) rect color =
      front ++ pushBackground backgrounds rect color := by
  have ⟨init, last, hconcat⟩ := (List.eq_nil_or_concat backgrounds).resolve_left h
  rw [List.concat_eq_append] at hconcat
  rw [hconcat, ← List.append_assoc]
  by_cases hextends : Extends last rect color
  · rw [pushBackground_of_extends hextends, pushBackground_of_extends hextends, List.append_assoc]
  · rw [pushBackground_of_not_extends hextends, pushBackground_of_not_extends hextends]
    simp only [List.append_assoc]

/-- Rectangles of other rows are not extended. -/
theorem pushBackground_of_above {front : List (BackgroundRect K)}
    (h : ∀ background ∈ front, background.rect.minY ≠ rect.minY) (color : PlanColor) :
    pushBackground front rect color = front ++ [⟨rect, color⟩] := by
  cases List.eq_nil_or_concat front with
  | inl hnil =>
    rw [hnil]
    rfl
  | inr hconcat =>
    have ⟨init, last, hconcat⟩ := hconcat
    rw [List.concat_eq_append] at hconcat
    rw [hconcat]
    apply pushBackground_of_not_extends
    intro hextends
    exact h last (by simp [hconcat]) hextends.2.1

private theorem InRow.pushBackground {surface : TerminalSurface K} {row : ℕ}
    (h : InRow surface row backgrounds) (col : ℕ) (color : PlanColor) :
    InRow surface row (pushBackground backgrounds (surface.cellRect col row) color) := by
  have hrect : InRow surface row [⟨surface.cellRect col row, color⟩] := by
    intro background hbackground
    rw [List.mem_singleton.mp hbackground]
    exact ⟨rfl, rfl⟩
  cases List.eq_nil_or_concat backgrounds with
  | inl hnil =>
    rw [hnil]
    exact hrect
  | inr hconcat =>
    have ⟨init, last, hconcat⟩ := hconcat
    rw [List.concat_eq_append] at hconcat
    rw [hconcat] at h ⊢
    by_cases hextends : Extends last (surface.cellRect col row) color
    · rw [pushBackground_of_extends hextends]
      intro background hbackground
      cases List.mem_append.mp hbackground with
      | inl hinit => exact h background (List.mem_append_left _ hinit)
      | inr hlast =>
        rw [List.mem_singleton.mp hlast]
        exact h last (by simp)
    · rw [pushBackground_of_not_extends hextends]
      intro background hbackground
      cases List.mem_append.mp hbackground with
      | inl hinit => exact h background hinit
      | inr hlast => exact hrect background hlast

private theorem pushBackground_ne_nil (backgrounds : List (BackgroundRect K)) (rect : SurfaceRect K)
    (color : PlanColor) : pushBackground backgrounds rect color ≠ [] := by
  rw [pushBackground]
  split
  · simp
  · split <;> simp

/-- Behind rectangles at the same places a rectangle at the same place is pushed alike. -/
theorem alike_pushBackground [LawfulFloatOps K] {surface surface' : TerminalSurface K} {row : ℕ}
    {backgrounds' : List (BackgroundRect K)}
    (h : List.Forall₂ BackgroundRect.Alike backgrounds backgrounds')
    (hrow : InRow surface row backgrounds) (hrow' : InRow surface' row backgrounds')
    (hsurface : surface.Alike surface') (col : ℕ) (color : PlanColor) :
    List.Forall₂ BackgroundRect.Alike
      (pushBackground backgrounds (surface.cellRect col row) color)
      (pushBackground backgrounds' (surface'.cellRect col row) color) := by
  have hrect := hsurface.cellRect col row
  cases List.eq_nil_or_concat backgrounds with
  | inl hnil =>
    rw [hnil] at h ⊢
    cases h with
    | nil => exact .cons ⟨hrect, rfl⟩ .nil
  | inr hconcat =>
    have ⟨init, last, hconcat⟩ := hconcat
    rw [List.concat_eq_append] at hconcat
    rw [hconcat] at h hrow ⊢
    have ⟨init', last', hconcat', hinit, hlast⟩ := exists_concat_of_forall₂ h
    rw [hconcat'] at hrow' ⊢
    have hlastRow : InRow surface row [last] :=
      fun background hbackground ↦ hrow background (List.mem_append_right _ hbackground)
    have hlastRow' : InRow surface' row [last'] :=
      fun background hbackground ↦ hrow' background (List.mem_append_right _ hbackground)
    have hcongr := extends_congr hlast hlastRow hlastRow' hsurface col color
    by_cases hextends : Extends last (surface.cellRect col row) color
    · rw [pushBackground_of_extends hextends, pushBackground_of_extends (hcongr.mp hextends)]
      exact List.rel_append hinit (.cons
        ⟨⟨hlast.rect.minX, hlast.rect.minY, hrect.maxX, hlast.rect.maxY⟩, hlast.color⟩ .nil)
    · rw [pushBackground_of_not_extends hextends,
        pushBackground_of_not_extends (mt hcongr.mpr hextends)]
      exact List.rel_append (List.rel_append hinit (.cons hlast .nil)) (.cons ⟨hrect, rfl⟩ .nil)

end Pushed

variable [lib : PaintLibrary]

/-- Runs that are painted alike. -/
structure TextRun.Alike (a b : TextRun K) : Prop where
  rect : a.rect.Alike b.rect
  cellRect : a.cellRect.Alike b.cellRect
  cells : a.cells = b.cells
  text : a.text = b.text
  attrs : a.attrs = b.attrs

/-- Fragments that are painted alike. -/
structure RowPaintFragment.Alike (a b : RowPaintFragment K) : Prop where
  backgrounds : List.Forall₂ BackgroundRect.Alike a.backgrounds b.backgrounds
  textRuns : List.Forall₂ TextRun.Alike a.textRuns b.textRuns
  decorations : List.Forall₂ DecorationLine.Alike a.decorations b.decorations

/-- The plans are equal but for floats of backgrounds and text that compare equal. -/
structure TerminalPaintPlan.Alike (a b : TerminalPaintPlan K) : Prop where
  surface : a.surface = b.surface
  defaultBackground : a.defaultBackground = b.defaultBackground
  backgrounds : List.Forall₂ BackgroundRect.Alike a.backgrounds b.backgrounds
  textRuns : List.Forall₂ TextRun.Alike a.textRuns b.textRuns
  decorations : List.Forall₂ DecorationLine.Alike a.decorations b.decorations
  cursor : a.cursor = b.cursor

private theorem TextRun.Alike.eq {a b : TextRun K} (h : a.Alike b) (hexact : ExactEq K) :
    a = b := by
  cases a
  cases b
  simp only [TextRun.mk.injEq]
  exact ⟨h.rect.eq hexact, h.cellRect.eq hexact, h.cells, h.text, h.attrs⟩

/-- Where numbers that compare equal are equal, so are such plans. -/
theorem TerminalPaintPlan.Alike.eq {a b : TerminalPaintPlan K} (h : a.Alike b)
    (hexact : ExactEq K) : a = b := by
  have hbackgrounds := h.backgrounds.imp fun _ _ hab ↦ hab.eq hexact
  have htextRuns := h.textRuns.imp fun _ _ hab ↦ hab.eq hexact
  have hdecorations := h.decorations.imp fun _ _ hab ↦ hab.eq hexact
  rw [List.forall₂_eq_eq_eq] at hbackgrounds htextRuns hdecorations
  cases a
  cases b
  simp only [TerminalPaintPlan.mk.injEq]
  exact ⟨h.surface, h.defaultBackground, hbackgrounds, htextRuns, hdecorations, h.cursor⟩

section Lawful

variable [LawfulFloatOps K]

private theorem TextRun.Alike.trans {a b c : TextRun K} (hab : a.Alike b) (hbc : b.Alike c) :
    a.Alike c where
  rect := hab.rect.trans hbc.rect
  cellRect := hab.cellRect.trans hbc.cellRect
  cells := hab.cells.trans hbc.cells
  text := hab.text.trans hbc.text
  attrs := hab.attrs.trans hbc.attrs

theorem RowPaintFragment.Alike.trans {a b c : RowPaintFragment K} (hab : a.Alike b)
    (hbc : b.Alike c) : a.Alike c where
  backgrounds := forall₂_trans (fun _ _ _ ↦ .trans) hab.backgrounds hbc.backgrounds
  textRuns := forall₂_trans (fun _ _ _ ↦ .trans) hab.textRuns hbc.textRuns
  decorations := forall₂_trans (fun _ _ _ ↦ .trans) hab.decorations hbc.decorations

end Lawful

/-! ### Cells with the same ink -/

/-- A cell of a frame and a cell of another one that are painted alike. -/
structure Inked (frame frame' : RenderFrame) (cell cell' : RenderCell) : Prop where
  x : cell.x = cell'.x
  y : cell.y = cell'.y
  fg : cell.fg = cell'.fg
  bg : cell.bg = cell'.bg
  style : cell.style = cell'.style
  text : frame.cellText cell = frame'.cellText cell'

variable {cell : RenderCell}

private theorem Inked.cellColors_eq {frame frame' : RenderFrame} {cell' : RenderCell}
    (h : Inked frame frame' cell cell') (fg bg : PlanColor) :
    cellColors K cell fg bg = cellColors K cell' fg bg := by
  simp only [cellColors, h.fg, h.bg, h.style]

/-- Without overlays the attributes are those of the cell. -/
theorem Inked.attrsFor_eq {frame frame' : RenderFrame} {cell' : RenderCell}
    (h : Inked frame frame' cell cell') {context : TextPlanContext K}
    (hmask : context.overlayMask = []) (text : List Char) :
    attrsFor frame context cell text = attrsFor frame' context cell' text := by
  have hselection : (0 : UInt8) ≠ overlaySelection := by decide
  have hactive : (0 : UInt8) ≠ overlayActiveSearch := by decide
  have hsearch : (0 : UInt8) ≠ overlaySearch := by decide
  simp only [attrsFor, cellOverlay, hmask, List.isEmpty_nil, if_true, paintAttrs, if_neg hselection,
    if_neg hactive, if_neg hsearch, h.cellColors_eq, h.style]

/-! ### Text -/

variable {cells' : List RenderCell}

section Text

variable {frame frame' : RenderFrame} {context : TextPlanContext K}

private theorem extendRun_congr (hmask : context.overlayMask = []) {cells : List RenderCell}
    (h : List.Forall₂ (Inked frame frame') cells cells') (attrs : TextAttrs) (startY endX : ℕ)
    (runText : List Char) :
    (extendRun frame context attrs startY endX runText cells).1 =
        (extendRun frame' context attrs startY endX runText cells').1 ∧
      (extendRun frame context attrs startY endX runText cells).2.1 =
        (extendRun frame' context attrs startY endX runText cells').2.1 ∧
      List.Forall₂ (Inked frame frame')
        (extendRun frame context attrs startY endX runText cells).2.2
        (extendRun frame' context attrs startY endX runText cells').2.2 := by
  induction h generalizing endX runText with
  | nil => exact ⟨rfl, rfl, .nil⟩
  | cons hcell hrest ih =>
    rw [extendRun, extendRun, hcell.attrsFor_eq hmask, hcell.x, hcell.y, hcell.style, hcell.text]
    split
    · exact ⟨rfl, rfl, .cons hcell hrest⟩
    · exact ih _ _

section Lawful

variable [LawfulFloatOps K] {surface surface' : TerminalSurface K}

private theorem alike_textRun (hsurface : surface.Alike surface') (hmask : context.overlayMask = [])
    {first first' : RenderCell} {rest rest' : List RenderCell}
    (hfirst : Inked frame frame' first first')
    (hrest : List.Forall₂ (Inked frame frame') rest rest') :
    (textRun surface frame context first rest).1.Alike
        (textRun surface' frame' context first' rest').1 ∧
      List.Forall₂ (Inked frame frame') (textRun surface frame context first rest).2
        (textRun surface' frame' context first' rest').2 := by
  rw [textRun, textRun, hfirst.attrsFor_eq hmask, hfirst.x, hfirst.y, hfirst.text]
  dsimp only
  split
  · have hrect := hsurface.runRect first'.x first'.y
      (min (first'.x + cellTextWidth (frame'.cellText first')) u16Max - first'.x)
    exact ⟨⟨alike_textRectForRow hrect _, hrect, rfl, rfl, rfl⟩, hrest⟩
  · obtain ⟨hend, htext, hbehind⟩ := extendRun_congr hmask hrest
      (attrsFor frame' context first' (frame'.cellText first')) first'.y
      (min (first'.x + cellTextWidth (frame'.cellText first')) u16Max) (frame'.cellText first')
    rw [hend, htext]
    exact ⟨⟨alike_textRectForRow (hsurface.runRect _ _ _) _, hsurface.runRect _ _ _, rfl, rfl, rfl⟩,
      hbehind⟩

private theorem alike_planDecorations {rect' : SurfaceRect K} (h : rect.Alike rect')
    (attrs : TextAttrs)
    (underlineOffset : K) :
    List.Forall₂ DecorationLine.Alike (planDecorations rect attrs underlineOffset)
      (planDecorations rect' attrs underlineOffset) := by
  have hline : ∀ {y y' : K} (style : DecorationStyle), Same y y' →
      DecorationLine.Alike ⟨rect.minX, y, rect.maxX, y, attrs.fg, style⟩
        ⟨rect'.minX, y', rect'.maxX, y', attrs.fg, style⟩ :=
    fun _ hy ↦ ⟨h.minX, hy, h.maxX, hy, rfl, rfl⟩
  have hunder := LawfulFloatOps.add h.minY (.refl underlineOffset)
  have hstrike := LawfulFloatOps.mulAdd h.height (.refl (Scalar.literal (55 / 100))) h.minY
  have hover := LawfulFloatOps.add h.minY (.refl (Scalar.literal 2))
  unfold planDecorations
  cases underlineStyle attrs.underline with
  | none =>
    cases attrs.strikethrough <;> cases attrs.overline
    · exact .nil
    · exact .cons (hline _ hover) .nil
    · exact .cons (hline _ hstrike) .nil
    · exact .cons (hline _ hstrike) (.cons (hline _ hover) .nil)
  | some style =>
    apply List.Forall₂.cons (hline style hunder)
    cases attrs.strikethrough <;> cases attrs.overline
    · exact .nil
    · exact .cons (hline _ hover) .nil
    · exact .cons (hline _ hstrike) .nil
    · exact .cons (hline _ hstrike) (.cons (hline _ hover) .nil)

/-- Cells with the same ink have the same text runs. -/
theorem alike_planTextRunsFrom (hsurface : surface.Alike surface')
    (hmask : context.overlayMask = []) {cells : List RenderCell}
    (h : List.Forall₂ (Inked frame frame') cells cells') :
    List.Forall₂ TextRun.Alike (planTextRunsFrom surface frame context cells).1
        (planTextRunsFrom surface' frame' context cells').1 ∧
      List.Forall₂ DecorationLine.Alike (planTextRunsFrom surface frame context cells).2
        (planTextRunsFrom surface' frame' context cells').2 := by
  generalize hlength : cells.length = n
  induction n using Nat.strong_induction_on generalizing cells cells' with
  | _ n ih =>
    cases h with
    | nil =>
      rw [planTextRunsFrom, planTextRunsFrom]
      exact ⟨.nil, .nil⟩
    | @cons first first' rest rest' hfirst hrest =>
      rw [planTextRunsFrom, planTextRunsFrom, hfirst.style, hfirst.text]
      split
      · exact ih rest.length (by rw [← hlength]; exact Nat.lt_succ_self _) hrest rfl
      · obtain ⟨hrun, hbehind⟩ := alike_textRun hsurface hmask hfirst hrest
        have hshort := (suffix_textRun surface frame context first rest).length_le
        obtain ⟨hruns, hlines⟩ := ih _ (by rw [← hlength]; exact Nat.lt_succ_of_le hshort) hbehind rfl
        have hdecorations := alike_planDecorations hrun.rect
          (textRun surface frame context first rest).1.attrs context.underlineOffset
        rw [hrun.attrs] at hdecorations
        dsimp only
        rw [hrun.attrs]
        exact ⟨.cons hrun hruns, List.rel_append hdecorations hlines⟩

end Lawful
end Text

/-! ### The backgrounds of a row -/

section Backgrounds

variable [DecidableEq K]

private theorem InRow.pushCellBackground {surface : TerminalSurface K} {row : ℕ}
    (h : InRow surface row backgrounds) (hcell : cell.y = row) (fg bg : PlanColor) :
    InRow surface row (pushCellBackground surface fg bg backgrounds cell) := by
  rw [Ui.pushCellBackground, hcell]
  split
  · exact h
  · exact h.pushBackground cell.x _

/-- A row's cells are painted in its row. -/
theorem inRow_foldl {surface : TerminalSurface K} {row : ℕ} {cells : List RenderCell}
    (hcells : ∀ cell ∈ cells, cell.y = row) (fg bg : PlanColor) (h : InRow surface row backgrounds)
    :
    InRow surface row (cells.foldl (pushCellBackground surface fg bg) backgrounds) := by
  induction cells generalizing backgrounds with
  | nil => exact h
  | cons cell rest ih =>
    have ⟨hcell, hrest⟩ := List.forall_mem_cons.mp hcells
    exact ih hrest (h.pushCellBackground hcell fg bg)

/-- Behind a first rectangle nothing in front of it matters. -/
theorem foldl_pushCellBackground_append (h : backgrounds ≠ []) (surface : TerminalSurface K)
    (fg bg : PlanColor) (front : List (BackgroundRect K)) (cells : List RenderCell) :
    cells.foldl (pushCellBackground surface fg bg) (front ++ backgrounds) =
      front ++ cells.foldl (pushCellBackground surface fg bg) backgrounds := by
  induction cells generalizing backgrounds with
  | nil => rfl
  | cons cell rest ih =>
    rw [List.foldl_cons, List.foldl_cons, pushCellBackground, pushCellBackground]
    split
    · exact ih h
    · rw [pushBackground_append h]
      exact ih (pushBackground_ne_nil _ _ _)

/-- The backgrounds of a row do not depend on those of other rows. -/
theorem foldl_pushCellBackground {surface : TerminalSurface K} {row : ℕ} {cells : List RenderCell}
    (hcells : ∀ cell ∈ cells, cell.y = row) (fg bg : PlanColor)
    {front : List (BackgroundRect K)}
    (hfront : ∀ background ∈ front, background.rect.minY ≠ surface.rowTop row) :
    cells.foldl (pushCellBackground surface fg bg) front =
      front ++ cells.foldl (pushCellBackground surface fg bg) [] := by
  induction cells with
  | nil => simp
  | cons cell rest ih =>
    have ⟨hcell, hrest⟩ := List.forall_mem_cons.mp hcells
    rw [List.foldl_cons, List.foldl_cons, pushCellBackground, pushCellBackground, hcell]
    split
    · exact ih hrest
    · rw [pushBackground_of_above hfront]
      exact foldl_pushCellBackground_append (by simp) surface fg bg front rest

section Lawful

variable [LawfulFloatOps K] {surface surface' : TerminalSurface K} {row : ℕ}

/-- Cells of a row with the same ink have the same backgrounds. -/
theorem alike_foldl_pushCellBackground {frame frame' : RenderFrame} {cells : List RenderCell}
    (h : List.Forall₂ (Inked frame frame') cells cells') (hcells : ∀ cell ∈ cells, cell.y = row)
    (hsurface : surface.Alike surface') (fg bg : PlanColor) {backgrounds' : List (BackgroundRect K)}
    (hbackgrounds : List.Forall₂ BackgroundRect.Alike backgrounds backgrounds')
    (hrow : InRow surface row backgrounds) (hrow' : InRow surface' row backgrounds') :
    List.Forall₂ BackgroundRect.Alike
      (cells.foldl (pushCellBackground surface fg bg) backgrounds)
      (cells'.foldl (pushCellBackground surface' fg bg) backgrounds') := by
  induction h generalizing backgrounds backgrounds' with
  | nil => exact hbackgrounds
  | @cons cell cell' rest rest' hcell _ ih =>
    have ⟨hy, hrest⟩ := List.forall_mem_cons.mp hcells
    have hy' : cell'.y = row := by rw [← hcell.y, hy]
    have hnext := hrow.pushCellBackground hy fg bg
    have hnext' := hrow'.pushCellBackground hy' fg bg
    apply ih hrest _ hnext hnext'
    have hcolor : cellBackground cell fg bg = cellBackground cell' fg bg := by
      simp only [cellBackground, hcell.fg, hcell.bg, hcell.style]
    rw [pushCellBackground, pushCellBackground, hy, hy', hcell.x, hcell.bg, hcell.style, hcolor]
    split
    · exact hbackgrounds
    · exact alike_pushBackground hbackgrounds hrow hrow' hsurface _ _

end Lawful
end Backgrounds
end Bootty.Ui
