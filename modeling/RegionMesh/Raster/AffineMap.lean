import RegionMesh.Geometry

/-!
# From samples to the plane

The affine map that places the samples of a raster in the plane.

This is `GeoTransform` of the source.
-/

namespace RegionMesh

/-- An affine map from the columns and rows of a raster to the plane. -/
structure AffineMap where
  /-- The first coordinate of the sample in column 0 of row 0. -/
  xOrigin : Float
  /-- The step of the first coordinate from a column to the next. -/
  xPerColumn : Float
  /-- The step of the first coordinate from a row to the next. -/
  xPerRow : Float
  /-- The second coordinate of the sample in column 0 of row 0. -/
  yOrigin : Float
  /-- The step of the second coordinate from a column to the next. -/
  yPerColumn : Float
  /-- The step of the second coordinate from a row to the next. -/
  yPerRow : Float
deriving Inhabited

namespace AffineMap

/-- The map that places every sample at its own column and row. -/
def unit : AffineMap := ⟨0, 1, 0, 0, 0, 1⟩

/-- The place of a sample. Each coordinate adds the column's part before the row's part. -/
def apply (m : AffineMap) (column row : Nat) : Float × Float :=
  let c := doubleOfCount column
  let r := doubleOfCount row
  (m.xOrigin + c * m.xPerColumn + r * m.xPerRow, m.yOrigin + c * m.yPerColumn + r * m.yPerRow)

end AffineMap

end RegionMesh
