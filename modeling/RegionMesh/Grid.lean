import RegionMesh.Sink.ByPosition

/-!
# Procedural grids

A grid of unit squares, `w` cells wide and `h` cells high. Vertex `j` of row `i` lies at `(j, i, 0)`; the
vertices come first, row by row, and their ids count them. The cell in column `j` of row `i` has the id
`i * w + j` and starts at vertex `j` of row `i`, and all cells turn the same way.

`Grid.feed` is `generate_grid` of the source, and `Mesh.grid` is `QuadMesh::grid`.
-/

namespace RegionMesh

namespace Grid

/-- The place of vertex `j` of row `i` in the sequence of the vertices, which is also its id. -/
def vertexAt (w i j : Nat) : Nat := i * (w + 1) + j

/-- The corners of the cell in column `j` of row `i`. -/
def cornersAt (w i j : Nat) : Quad :=
  ⟨vertexAt w i j, vertexAt w (i + 1) j, vertexAt w (i + 1) (j + 1), vertexAt w i (j + 1)⟩

/-- The calls that report the vertices. -/
def vertexCalls (w h : Nat) : List SinkCall :=
  (List.range (h + 1)).flatMap fun i => (List.range (w + 1)).map fun j =>
    .vertex ⟨doubleOfCount j, doubleOfCount i, 0⟩ (vertexAt w i j)

/-- The calls that report the cells. -/
def cellCalls (w h : Nat) : List SinkCall :=
  (List.range h).flatMap fun i => (List.range w).map fun j => .cell (cornersAt w i j) (i * w + j)

/-- Report a grid to a sink. A grid without cells is refused. -/
def feed {σ : Type} [CellSink σ] (w h : Nat) : Action Failure σ Unit :=
  if w = 0 ∨ h = 0 then throw (.build (.invalidGridSize w h))
  else CellSink.acceptAll (vertexCalls w h ++ cellCalls w h)

end Grid

/-- The mesh of a grid. -/
def Mesh.grid (w h : Nat) : Except Failure Mesh :=
  let (answer, m) := Editor.inSurface .relative (PositionSink.run (Grid.feed w h)) {}
  answer.map fun _ => m

end RegionMesh
