import RegionMesh.Failure

/-!
# Tilings

A raster is read in blocks, the rectangles of a tiling that starts at the first sample. The last block
of each row and column of blocks is cut off at the end of the raster. `Block` and `Tiling` are `Block`
and `BlockLayout` of the source, `Tiling.counts` and `Tiling.block` its `count` and `block`.

Columns and rows are words of 64 bits in the source. No number here is too large for a word if the
size of the raster is not, as a block starts inside the raster and ends at its end at the latest. What
is computed from the end of a block may well be too large (`asWord`).
-/

namespace RegionMesh

/-- What a word of 64 bits keeps of a number. A sum that is too large starts again at zero, where a
build that checks its sums would stop. -/
def asWord (n : Nat) : Nat := n % UInt64.size

/-- A rectangle of samples. -/
structure Block where
  /-- The first column. -/
  x : Nat
  /-- The first row. -/
  y : Nat
  /-- The number of columns. -/
  width : Nat
  /-- The number of rows. -/
  height : Nat
deriving DecidableEq, Inhabited, Repr

/-- The size of the blocks that a raster is read in. -/
structure Tiling where
  /-- The columns of a block. -/
  width : Nat
  /-- The rows of a block. -/
  height : Nat
  /-- A block has columns. -/
  width_pos : 0 < width
  /-- A block has rows. -/
  height_pos : 0 < height
deriving DecidableEq, Repr

namespace Tiling

/-- The tiling with blocks of a size, refused if a block would be empty. -/
def make (width height : Nat) : Except RasterError Tiling :=
  if h : 0 < width ∧ 0 < height then .ok ⟨width, height, h.1, h.2⟩
  else .error (.invalidBlockSize width height)

/-- The least number of parts of a length that cover a whole. -/
def partsToCover (whole part : Nat) : Nat := (whole + part - 1) / part

/-- The number of blocks in each row and in each column of blocks, for a raster of a size. -/
def counts (t : Tiling) (size : Nat × Nat) : Nat × Nat :=
  (partsToCover size.1 t.width, partsToCover size.2 t.height)

/-- The block in a column and a row of the grid of blocks, for a raster of a size. -/
def block (t : Tiling) (size : Nat × Nat) (column row : Nat) : Except RasterError Block :=
  if (t.counts size).1 ≤ column ∨ (t.counts size).2 ≤ row then .error (.blockOutOfRange column row)
  else
    let x := column * t.width
    let y := row * t.height
    .ok ⟨x, y, min t.width (size.1 - x), min t.height (size.2 - y)⟩

/-- The blocks of a raster of a size, by column and row, one row of blocks after another. -/
def rowMajor (t : Tiling) (size : Nat × Nat) : List (Nat × Nat) :=
  (List.range (t.counts size).2).flatMap fun row =>
    (List.range (t.counts size).1).map fun column => (column, row)

end Tiling

end RegionMesh
