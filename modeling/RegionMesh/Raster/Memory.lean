import RegionMesh.Raster.AffineMap
import RegionMesh.Raster.Reader
import RegionMesh.Region.FacetClasses

/-!
# Rasters in memory

A raster whose samples are held in memory. It has an optional elevation band and an optional band of
classes, and is read in the blocks of a tiling, one row of blocks after another unless another order is
given.

A `Raster` is a `MemoryRaster` of the source. `Raster.make` and the functions that start with `with`
are its constructor and builder methods, `checkBand` is `check_band`, `cellClasses` is `cell_classes`,
and `nextBlock` and `row` are what it offers as a reader.
-/

namespace RegionMesh

/-- A raster in memory, with the place where reading has got to. -/
structure Raster where
  /-- The number of samples in a row. -/
  width : Nat
  /-- The number of rows. -/
  height : Nat
  /-- The places of the samples. -/
  transform : AffineMap := .unit
  /-- The blocks that the raster is read in. -/
  tiling : Tiling
  /-- The elevations of the samples, row by row. -/
  elevation : Option (Array Float) := none
  /-- The classes of the samples, row by row. -/
  classes : Option (Array Nat) := none
  /-- The blocks to be read, each by its column and row in the grid of blocks. -/
  order : List (Nat × Nat)
  /-- How many blocks of the order have been read. -/
  cursor : Nat := 0
  /-- The block that was read last. -/
  current : Option Block := none

namespace Raster

/-- A raster without bands that is read as a single block. -/
def make (width height : Nat) : Except RasterError Raster :=
  match Tiling.make width height with
  | .ok tiling => .ok { width, height, tiling, order := [(0, 0)] }
  | .error _ => .error .emptyRaster

/-- The number of samples in a row, and the number of rows. -/
def size (r : Raster) : Nat × Nat := (r.width, r.height)

/-- The number of blocks in each row and in each column of blocks. -/
def blockCounts (r : Raster) : Nat × Nat := r.tiling.counts r.size

/-- Start reading from the first block again. -/
def rewind (r : Raster) : Raster := { r with cursor := 0, current := none }

/-- Place the samples by another map. -/
def withTransform (r : Raster) (m : AffineMap) : Raster := { r with transform := m }

/-- Read the raster in the blocks of a tiling, one row of blocks after another, from the start. -/
def withTiling (r : Raster) (t : Tiling) : Raster :=
  { r with tiling := t, order := t.rowMajor r.size }.rewind

/-- Check blocks from a list in which the blocks of `seen` must not occur again: each is in the grid
of blocks, and none comes twice. -/
def checkOrder (counts : Nat × Nat) (seen : List (Nat × Nat)) :
    List (Nat × Nat) → Except RasterError Unit
  | [] => .ok ()
  | b :: rest =>
    if counts.1 ≤ b.1 ∨ counts.2 ≤ b.2 then .error (.blockOutOfRange b.1 b.2)
    else if seen.contains b then .error (.repeatedBlock b.1 b.2)
    else checkOrder counts (b :: seen) rest

/-- Read the blocks in the given order, from the start. Blocks may be left out, but a block read twice
would give its cells twice. -/
def withOrder (r : Raster) (order : List (Nat × Nat)) : Except RasterError Raster := do
  checkOrder r.blockCounts [] order
  return { r with order }.rewind

/-- Check that a band has one value for every sample. -/
def checkBand (r : Raster) (found : Nat) : Except RasterError Unit :=
  if found = r.width * r.height then .ok ()
  else .error (.bandSizeMismatch (r.width * r.height) found)

/-- Give the samples elevations, listed row by row. -/
def withElevation (r : Raster) (band : Array Float) : Except RasterError Raster := do
  r.checkBand band.size
  return { r with elevation := some band }

/-- Give the samples classes, listed row by row. -/
def withClasses (r : Raster) (band : Array Nat) : Except RasterError Raster := do
  r.checkBand band.size
  return { r with classes := some band }

/-- The class of the sample in column `x` of row `y`. -/
def class? (r : Raster) (x y : Nat) : Option Nat :=
  if r.width ≤ x ∨ r.height ≤ y then none
  else r.classes.bind fun band => band[x + y * r.width]?

/-- The classes of the cells. A cell has the id and the class of its first corner. -/
def cellClasses (r : Raster) : FacetClasses Nat :=
  .ofList <| (List.range (r.height - 1)).flatMap fun y =>
    (List.range (r.width - 1)).filterMap fun x =>
      (r.class? x y).map fun c => (x + y * r.width, c)

/-- The elevation of the sample in column `x` of row `y`, zero without an elevation band. -/
def elevationAt (r : Raster) (x y : Nat) : Float :=
  match r.elevation with
  | some band => band.getD (x + y * r.width) 0
  | none => 0

/-- The sample in column `x` of row `y`. -/
def sample (r : Raster) (x y : Nat) : Point :=
  let place := r.transform.apply x y
  ⟨place.1, place.2, r.elevationAt x y⟩

/-- Move to the next block of the order. Behind the last one there is no current block. -/
def nextBlock : Action Failure Raster (Option Block) := fun r =>
  match r.order[r.cursor]? with
  | none => (.ok none, { r with current := none })
  | some (column, row) =>
    match r.tiling.block r.size column row with
    | .ok b => (.ok (some b), { r with cursor := r.cursor + 1, current := some b })
    | .error e => (.error (.raster e), { r with cursor := r.cursor + 1 })

/-- The samples of row `y` in the columns of the current block, and the first column behind the block
if the raster has one. The end of the row is computed in words. -/
def row (y : Nat) : Action Failure Raster (List Point) := fun r =>
  match r.current with
  | none => (.error (.raster .noBlockLoaded), r)
  | some b =>
    if r.height ≤ y then (.error (.raster (.rowOutOfRange y r.height)), r)
    else
      let last := min (asWord (b.x + b.width + 1)) r.width
      (.ok ((List.range' b.x (last - b.x)).map fun x => r.sample x y), r)

instance : BlockReader Raster where
  size := size
  nextBlock := nextBlock
  row := row
  pending r := r.order.length - r.cursor
  pending_nextBlock r b := by
    simp only [nextBlock]
    split
    · simp
    · rename_i h
      have hlt := (List.getElem?_eq_some_iff.1 h).1
      split
      · intro
        show r.order.length - (r.cursor + 1) < r.order.length - r.cursor
        omega
      · simp
  pending_row r y := by
    simp only [row]
    split
    · simp
    · split <;> simp

end Raster

end RegionMesh
