import RegionMesh.Action
import RegionMesh.Failure
import RegionMesh.Geometry

/-!
# Sinks

A sink takes the vertices and the four-cornered cells of a grid one by one, each as a call (`SinkCall`).
Whoever produces a grid can therefore say beforehand which calls it makes, and a sink takes them in
order until the first one that it refuses.

`CellSink` is `SurfaceSink` of the source, with `add_vertex` and `add_face`.
-/

namespace RegionMesh

/-- The corners of a cell. -/
structure Quad where
  /-- The corner that the cell starts at. -/
  first : Nat
  /-- The corner after the first. -/
  second : Nat
  /-- The corner opposite to the first. -/
  third : Nat
  /-- The corner before the first. -/
  fourth : Nat
deriving DecidableEq, Inhabited, Repr

/-- The corners of a cell in order. -/
def Quad.toList (q : Quad) : List Nat := [q.first, q.second, q.third, q.fourth]

/-- A receiver of the vertices and cells of a grid. -/
class CellSink (σ : Type) where
  /-- Take a vertex with an id. -/
  addVertex : Point → Nat → Action Failure σ Unit
  /-- Take a cell with an id. What its corners name is up to the sink. -/
  addCell : Quad → Nat → Action Failure σ Unit

/-- A call on a sink. -/
inductive SinkCall where
  /-- A vertex with its position and id. -/
  | vertex (point : Point) (id : Nat)
  /-- A cell with its corners and id. -/
  | cell (corners : Quad) (id : Nat)

namespace CellSink

variable {σ : Type} [CellSink σ]

/-- Make a call on a sink. -/
def accept : SinkCall → Action Failure σ Unit
  | .vertex p id => addVertex p id
  | .cell corners id => addCell corners id

/-- Make calls on a sink, up to the first one that fails. -/
def acceptAll (calls : List SinkCall) : Action Failure σ Unit := calls.forM accept

end CellSink

end RegionMesh
