import Bootty.Base.FloatOps
import Bootty.Terminal.Geometry

/-!
# Terminal surfaces

Model of the surface of `crates/bootty-terminal/src/geometry.rs:37–126` and `352–500`: where its
grid, its cells and its runs of cells lie. Integers become floats exactly. Surfaces that compare
equal have their rectangles at the same places.
-/

namespace Bootty.Terminal

open Bootty.Base

/-- `CellMetrics`. -/
structure CellMetrics (K : Type) where
  width : K
  height : K

/-- `TerminalPadding`. -/
structure TerminalPadding (K : Type) where
  top : K
  right : K
  bottom : K
  left : K

/-- `SurfacePoint`. -/
structure SurfacePoint (K : Type) where
  x : K
  y : K

/-- `TerminalSurface`. -/
structure TerminalSurface (K : Type) where
  rect : SurfaceRect K
  padding : TerminalPadding K
  cell : CellMetrics K

variable {K : Type} [FloatOps K]

namespace TerminalSurface

/-- `==`. -/
def eq (a b : TerminalSurface K) : Bool :=
  FloatOps.eq a.rect.minX b.rect.minX && FloatOps.eq a.rect.minY b.rect.minY &&
    FloatOps.eq a.rect.maxX b.rect.maxX && FloatOps.eq a.rect.maxY b.rect.maxY &&
    FloatOps.eq a.padding.top b.padding.top && FloatOps.eq a.padding.right b.padding.right &&
    FloatOps.eq a.padding.bottom b.padding.bottom && FloatOps.eq a.padding.left b.padding.left &&
    FloatOps.eq a.cell.width b.cell.width && FloatOps.eq a.cell.height b.cell.height

/-- `content_origin`. -/
def contentOrigin (surface : TerminalSurface K) : SurfacePoint K :=
  ⟨surface.rect.minX + surface.padding.left, surface.rect.minY + surface.padding.top⟩

/-- `grid_rect`. -/
def gridRect (surface : TerminalSurface K) (cols rows : ℕ) : SurfaceRect K :=
  let origin := surface.contentOrigin
  .fromMinSize origin.x origin.y (Scalar.literal cols * surface.cell.width)
    (Scalar.literal rows * surface.cell.height)

/-- The top of a row. -/
def rowTop (surface : TerminalSurface K) (row : ℕ) : K :=
  Scalar.mulAdd (Scalar.literal row) surface.cell.height surface.contentOrigin.y

/-- `cell_rect`. -/
def cellRect (surface : TerminalSurface K) (col row : ℕ) : SurfaceRect K :=
  let origin := surface.contentOrigin
  .fromMinSize (Scalar.mulAdd (Scalar.literal col) surface.cell.width origin.x)
    (surface.rowTop row) surface.cell.width surface.cell.height

/-- `run_rect`. -/
def runRect (surface : TerminalSurface K) (startCol row cells : ℕ) : SurfaceRect K :=
  let origin := surface.contentOrigin
  .fromMinSize (Scalar.mulAdd (Scalar.literal startCol) surface.cell.width origin.x)
    (surface.rowTop row) (Scalar.literal cells * surface.cell.width) surface.cell.height

end TerminalSurface

/-! ### Rectangles at the same place -/

/-- Rectangles that are painted alike. -/
structure SurfaceRect.Alike (a b : SurfaceRect K) : Prop where
  minX : Same a.minX b.minX
  minY : Same a.minY b.minY
  maxX : Same a.maxX b.maxX
  maxY : Same a.maxY b.maxY

/-- The surfaces have the same content origin and the same cells. -/
structure TerminalSurface.Alike (a b : TerminalSurface K) : Prop where
  minX : Same a.rect.minX b.rect.minX
  minY : Same a.rect.minY b.rect.minY
  top : Same a.padding.top b.padding.top
  left : Same a.padding.left b.padding.left
  width : Same a.cell.width b.cell.width
  height : Same a.cell.height b.cell.height

/-- Exact rectangles are equal. -/
theorem SurfaceRect.Alike.eq {a b : SurfaceRect K} (h : a.Alike b) (hexact : ExactEq K) :
    a = b := by
  cases a
  cases b
  simp only [SurfaceRect.mk.injEq]
  exact ⟨h.minX.eq hexact, h.minY.eq hexact, h.maxX.eq hexact, h.maxY.eq hexact⟩

/-- A surface is painted like itself. -/
theorem TerminalSurface.Alike.refl (a : TerminalSurface K) : a.Alike a :=
  ⟨.refl _, .refl _, .refl _, .refl _, .refl _, .refl _⟩

/-- Equal surfaces are painted alike. -/
theorem TerminalSurface.alike_of_eq {a b : TerminalSurface K} (h : a.eq b = true) : a.Alike b := by
  simp only [TerminalSurface.eq, Bool.and_eq_true] at h
  exact {
    minX := Or.inr h.1.1.1.1.1.1.1.1.1
    minY := Or.inr h.1.1.1.1.1.1.1.1.2
    top := Or.inr h.1.1.1.1.1.2
    left := Or.inr h.1.1.2
    width := Or.inr h.1.2
    height := Or.inr h.2 }

section Lawful

variable [LawfulFloatOps K]

/-- Alike rectangles compose. -/
theorem SurfaceRect.Alike.trans {a b c : SurfaceRect K} (hab : a.Alike b) (hbc : b.Alike c) :
    a.Alike c where
  minX := LawfulFloatOps.trans hab.minX hbc.minX
  minY := LawfulFloatOps.trans hab.minY hbc.minY
  maxX := LawfulFloatOps.trans hab.maxX hbc.maxX
  maxY := LawfulFloatOps.trans hab.maxY hbc.maxY

/-- They are made of alike sides. -/
theorem SurfaceRect.Alike.fromMinSize {x x' y y' w w' h h' : K} (hx : Same x x') (hy : Same y y')
    (hw : Same w w') (hh : Same h h') :
    (SurfaceRect.fromMinSize x y w h).Alike (.fromMinSize x' y' w' h') where
  minX := hx
  minY := hy
  maxX := LawfulFloatOps.add hx hw
  maxY := LawfulFloatOps.add hy hh

/-- Alike rectangles are as wide. -/
theorem SurfaceRect.Alike.width {a b : SurfaceRect K} (h : a.Alike b) : Same a.width b.width :=
  LawfulFloatOps.sub h.maxX h.minX

/-- They are as high. -/
theorem SurfaceRect.Alike.height {a b : SurfaceRect K} (h : a.Alike b) : Same a.height b.height :=
  LawfulFloatOps.sub h.maxY h.minY

namespace TerminalSurface.Alike

variable {a b : TerminalSurface K}

/-- It holds both ways. -/
theorem symm (h : a.Alike b) : b.Alike a where
  minX := LawfulFloatOps.symm h.minX
  minY := LawfulFloatOps.symm h.minY
  top := LawfulFloatOps.symm h.top
  left := LawfulFloatOps.symm h.left
  width := LawfulFloatOps.symm h.width
  height := LawfulFloatOps.symm h.height

private theorem column (h : a.Alike b) (col : ℕ) :
    Same (Scalar.mulAdd (Scalar.literal col) a.cell.width a.contentOrigin.x)
      (Scalar.mulAdd (Scalar.literal col) b.cell.width b.contentOrigin.x) :=
  LawfulFloatOps.mulAdd (.refl _) h.width (LawfulFloatOps.add h.minX h.left)

private theorem rowTop (h : a.Alike b) (row : ℕ) : Same (a.rowTop row) (b.rowTop row) :=
  LawfulFloatOps.mulAdd (.refl _) h.height (LawfulFloatOps.add h.minY h.top)

/-- Their cells are alike. -/
theorem cellRect (h : a.Alike b) (col row : ℕ) : (a.cellRect col row).Alike (b.cellRect col row) :=
  .fromMinSize (h.column col) (h.rowTop row) h.width h.height

/-- Their runs are alike. -/
theorem runRect (h : a.Alike b) (startCol row cells : ℕ) :
    (a.runRect startCol row cells).Alike (b.runRect startCol row cells) :=
  .fromMinSize (h.column startCol) (h.rowTop row) (LawfulFloatOps.mul (.refl _) h.width) h.height

end TerminalSurface.Alike
end Lawful
end Bootty.Terminal
