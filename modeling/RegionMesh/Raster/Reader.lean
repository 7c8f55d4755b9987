import RegionMesh.Action
import RegionMesh.Failure
import RegionMesh.Geometry
import RegionMesh.Raster.Tiling

/-!
# Readers

What a raster has to offer so that its samples can be turned into a mesh, which is the source's
`RasterReader`: a size, a sequence of blocks, and the rows of the current block.

Any reader can be asked for a block. To read a raster to its end takes one that comes to an end, and
`BlockReader` is a reader that knows how many blocks it has left at most.
-/

namespace RegionMesh

/-- A raster that is read one block at a time. The samples are the vertices of a grid, and every
square of four neighbouring samples is a cell. -/
class RasterReader (ρ : Type) where
  /-- The number of samples in a row, and the number of rows. -/
  size : ρ → Nat × Nat
  /-- Move to the next block. No block, or a block without columns, means that the blocks have all
  been read. -/
  nextBlock : Action Failure ρ (Option Block)
  /-- The samples of a row from the first column of the current block on, up to and including the first
  column behind the block if the raster has one. -/
  row : Nat → Action Failure ρ (List Point)

/-- A reader that comes to an end. -/
class BlockReader (ρ : Type) extends RasterReader ρ where
  /-- A bound on the number of blocks that are still to come. -/
  pending : ρ → Nat
  /-- Every block that is read lowers the bound. -/
  pending_nextBlock (r : ρ) (b : Block) :
    (nextBlock r).1 = .ok (some b) → pending (nextBlock r).2 < pending r
  /-- Reading a row brings no further blocks. -/
  pending_row (r : ρ) (y : Nat) : pending (row y r).2 ≤ pending r

namespace BlockReader

export RasterReader (size nextBlock row)

end BlockReader

end RegionMesh
