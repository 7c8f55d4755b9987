import RegionMesh.Raster.Reader
import RegionMesh.Sink.ById

/-!
# From rasters to meshes

The samples of a raster become vertices, and every square of four neighbouring samples becomes a cell.
The id of the sample in column `x` of row `y` is `x + y * W` in a raster with rows of `W` samples, and a
cell has the id of its first corner.

A block is read together with the row and the column behind it, which close its last cells. Neighbouring
blocks therefore report some vertices twice, and the sink has to know them by their ids.

`BlockReader.readBlock` is `GridSource::read_block` of the source, `BlockReader.readAll` is
`stream_blocks`, and `Mesh.append` and `Mesh.ofReader` are `append_from` and `from_source`. Where a block
ends is computed in words, and cut off at the end of the raster only then. A block whose end is too large
for a word thus ends before it starts, and nothing of it is reported.
-/

namespace RegionMesh

namespace Block

/-- The column behind the last one that is read for a block, in a raster of a size. -/
def columnEnd (b : Block) (size : Nat × Nat) : Nat := min (asWord (b.x + b.width + 1)) size.1

/-- The row behind the last one that is read for a block, in a raster of a size. -/
def rowEnd (b : Block) (size : Nat × Nat) : Nat := min (asWord (b.y + b.height + 1)) size.2

/-- The rows that are read for a block. -/
def rows (b : Block) (size : Nat × Nat) : List Nat := List.range' b.y (b.rowEnd size - b.y)

/-- The columns that are read for a block. -/
def columns (b : Block) (size : Nat × Nat) : List Nat := List.range' b.x (b.columnEnd size - b.x)

/-- The calls that report the samples of row `y` in the columns of a block. -/
def vertexCalls (b : Block) (size : Nat × Nat) (y : Nat) (samples : List Point) : List SinkCall :=
  ((b.columns size).zip samples).map fun (x, p) => .vertex p (x + y * size.1)

/-- The corners of the cell that starts at column `x` of row `y`, in a raster with rows of `w` samples. -/
def cellCorners (w x y : Nat) : Quad :=
  ⟨x + y * w, (x + 1) + y * w, (x + 1) + (y + 1) * w, x + (y + 1) * w⟩

/-- The calls that report the cells of a block. -/
def cellCalls (b : Block) (size : Nat × Nat) : List SinkCall :=
  (List.range' b.y (min (asWord (b.y + b.height)) (b.rowEnd size - 1) - b.y)).flatMap fun y =>
    (List.range' b.x (min (asWord (b.x + b.width)) (b.columnEnd size - 1) - b.x)).map fun x =>
      .cell (cellCorners size.1 x y) (x + y * size.1)

end Block

namespace BlockReader

section OneBlock

variable {ρ σ : Type} [RasterReader ρ] [CellSink σ]

/-- The size of a raster that has samples. -/
def gridSize (r : ρ) : Except RasterError (Nat × Nat) :=
  if (size r).1 = 0 ∨ (size r).2 = 0 then .error .emptyRaster else .ok (size r)

/-- Read row `y` of a block and report its samples. A row that ends before the columns of the block is
refused. -/
def readRow (size : Nat × Nat) (b : Block) (y : Nat) : Action Failure (ρ × σ) Unit := do
  let samples ← Action.onFirst (row y)
  let expected := (b.columns size).length
  if samples.length < expected then throw (.raster (.shortRow y expected samples.length))
  Action.onSecond (CellSink.acceptAll (b.vertexCalls size y samples))

/-- Read the next block and report its samples and then its cells. The answer is `false` when the blocks
have all been read. -/
def readBlock (size : Nat × Nat) : Action Failure (ρ × σ) Bool := do
  match ← Action.onFirst nextBlock with
  | none => return false
  | some b =>
    if b.width = 0 then return false
    (b.rows size).forM (readRow size b)
    Action.onSecond (CellSink.acceptAll (b.cellCalls size))
    return true

end OneBlock

section AllBlocks

variable {ρ σ : Type} [BlockReader ρ] [CellSink σ]

/-- Read and report blocks until they have all been read, at most a number of them. -/
def readBlocks (size : Nat × Nat) : Nat → Action Failure (ρ × σ) Unit
  | 0 => pure ()
  | bound + 1 => do
    if ← readBlock size then readBlocks size bound

/-- Read and report all blocks. The reader's own bound on the blocks to come says when to stop looking for
more. -/
def readAll (size : Nat × Nat) : Action Failure (ρ × σ) Unit := fun s =>
  readBlocks size (pending s.1 + 1) s

end AllBlocks

end BlockReader

namespace Mesh

variable {ρ : Type} [BlockReader ρ]

/-- Append the grid of a raster to a mesh. Vertices are matched by id with those of the mesh and with each
other. If anything fails, the mesh stays as it is. -/
def append (r : ρ) : Action Failure Mesh Unit := fun m =>
  match BlockReader.gridSize r with
  | .error e => (.error (.raster e), m)
  | .ok size =>
    let work : Action Failure IdSink Unit := fun s =>
      let (answer, _, s) := BlockReader.readAll size (r, s)
      (answer, s)
    Editor.inSurface .absolute (IdSink.run work) m

/-- The mesh of the grid of a raster. -/
def ofReader (r : ρ) : Except Failure Mesh :=
  let (answer, m) := append r {}
  answer.map fun _ => m

end Mesh

end RegionMesh
