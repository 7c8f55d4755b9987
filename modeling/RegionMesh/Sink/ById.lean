import RegionMesh.Editor.Basic
import RegionMesh.Sink.Basic

/-!
# Corners by id

A sink for producers that name vertices by their ids and may report the same vertex more than once. All
vertices of the mesh are indexed by id when the sink is made. A vertex whose id is indexed is not added
again, so the first report of an id counts, and a cell's corner is named by its id.

This is `IdIndexedSink` of the source, and `IdSink.indexedCount` its `num_indexed`.
-/

namespace RegionMesh

/-- An editor with a surface in absolute mode that takes a grid, with an index of its vertices. -/
structure IdSink where
  /-- The editor that builds the mesh. -/
  editor : Editor
  /-- The slots of the vertices by id. -/
  index : Std.TreeMap Nat Nat
deriving Inhabited

namespace IdSink

/-- A sink on an editor, whose surface has to be open in absolute mode. -/
def make (ed : Editor) : Except BuildError IdSink :=
  match ed.mode? with
  | none => .error .surfaceNotOpen
  | some .absolute =>
    .ok ⟨ed, .ofList (ed.mesh.links.liveVertices.map fun v => (ed.mesh.vertexId v, v.slot))⟩
  | some .relative => .error (.wrongIndexingMode .relative)

/-- The number of indexed vertices. -/
def indexedCount (s : IdSink) : Nat := s.index.size

/-- Add a vertex unless its id is indexed. -/
def addVertex (p : Point) (id : Nat) : Action Failure IdSink Unit := fun s =>
  if s.index.contains id then (.ok (), s)
  else
    match Editor.addVertex p id s.editor with
    | (.ok v, editor) => (.ok (), { editor, index := s.index.insert id v.slot })
    | (.error e, editor) => (.error (.build e), { s with editor })

/-- The slots of the corners of a facet, all of which have to be indexed. -/
def slotsOf (s : IdSink) (facet : Nat) (corners : List Nat) : Except BuildError (List Nat) :=
  corners.mapM fun id =>
    match s.index[id]? with
    | some slot => .ok slot
    | none => .error (.unindexedVertexId id facet)

/-- Add a cell whose corners are indexed. -/
def addCell (corners : Quad) (id : Nat) : Action Failure IdSink Unit := fun s =>
  match s.slotsOf id corners.toList with
  | .error e => (.error (.build e), s)
  | .ok slots =>
    match Editor.addFacet slots id s.editor with
    | (.ok _, editor) => (.ok (), { s with editor })
    | (.error e, editor) => (.error (.build e), { s with editor })

instance : CellSink IdSink where
  addVertex := addVertex
  addCell := addCell

/-- Let a new sink on an editor do some work. -/
def run {α : Type} (work : Action Failure IdSink α) : Action Failure Editor α := fun ed =>
  match make ed with
  | .error e => (.error (.build e), ed)
  | .ok s =>
    let (answer, s) := work s
    (answer, s.editor)

end IdSink

end RegionMesh
