import Bootty.Base.Scalar

/-!
# Surface geometry

Model of the rectangles of `crates/bootty-terminal/src/geometry.rs:212–248`.
-/

namespace Bootty.Terminal

open Bootty.Base

/-- `SurfaceRect`. -/
structure SurfaceRect (K : Type) where
  minX : K
  minY : K
  maxX : K
  maxY : K

namespace SurfaceRect

variable {K : Type} [Scalar K]

/-- `from_min_size`. -/
def fromMinSize (minX minY width height : K) : SurfaceRect K :=
  ⟨minX, minY, minX + width, minY + height⟩

/-- `width`. -/
def width (r : SurfaceRect K) : K := r.maxX - r.minX

/-- `height`. -/
def height (r : SurfaceRect K) : K := r.maxY - r.minY

end SurfaceRect
end Bootty.Terminal
