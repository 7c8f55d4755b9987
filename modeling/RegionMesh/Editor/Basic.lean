import RegionMesh.Mesh.Basic

/-!
# Editing a mesh

A mesh is edited through surfaces. While a surface is open, vertices and facets are added and facets are
erased; a facet is opened, given its corners one by one, and closed. A surface ends with all its changes
in the mesh, or is rolled back, which restores the mesh to its state before the surface was opened.

An `Editor` is a `MeshBuilder` of the source, and its open surface and facet are the builder's
`Surface` and `OpenFacet`. The calls have the names of the builder's methods, where
`add_vertex_to_facet` is `Editor.addCorner`. `Editor.addFacet` is the sequence of calls that the sinks
make for a cell, and `Editor.inSurface` the opening, the ending and the rollback in which `append_from`
wraps the reading of a raster.
-/

namespace RegionMesh

/-- A facet that is being described. -/
structure OpenFacet where
  /-- The id of the facet. -/
  id : Nat
  /-- The corners given so far. -/
  corners : List Vertex := []
deriving DecidableEq, Inhabited, Repr

/-- A surface that is being built. -/
structure OpenSurface where
  /-- How the indices of corners are read. -/
  mode : Indexing
  /-- The number of vertices when the surface was opened. -/
  firstVertex : Nat
  /-- The mesh when the surface was opened. -/
  snapshot : Mesh
  /-- The facet that is open. -/
  facet : Option OpenFacet := none
  /-- Whether a facet was erased. -/
  erased : Bool := false
deriving Inhabited

/-- A mesh that is being edited. -/
structure Editor where
  /-- The mesh as it is now. -/
  mesh : Mesh := {}
  /-- The surface that is open. -/
  surface : Option OpenSurface := none
deriving Inhabited

/-- A call on an editor. -/
abbrev Edit (α : Type) : Type := Action BuildError Editor α

namespace Editor

/-- Whether a surface is open. -/
def isOpen (ed : Editor) : Bool := ed.surface.isSome

/-- The indexing mode of the open surface. -/
def mode? (ed : Editor) : Option Indexing := ed.surface.map (·.mode)

/-- Stop editing without ending the surface. What it has done to the mesh stays. -/
def abandon (ed : Editor) : Editor := { mesh := ed.mesh }

/-- Carry out a call on the mesh, in an open surface. -/
def onMesh {α : Type} (call : Action BuildError Mesh α) : Edit α := fun ed =>
  let (answer, mesh) := call ed.mesh
  (answer, { ed with mesh })

/-- Open a surface. -/
def beginSurface (mode : Indexing) : Edit Unit := fun ed =>
  match ed.surface with
  | some _ => (.error .surfaceAlreadyOpen, ed)
  | none =>
    let surface : OpenSurface :=
      { mode, firstVertex := ed.mesh.vertexCount, snapshot := ed.mesh }
    (.ok (), { ed with surface })

/-- Add a vertex. -/
def addVertex (p : Point) (id : Nat) : Edit Vertex := fun ed =>
  match ed.surface with
  | none => (.error .surfaceNotOpen, ed)
  | some _ => onMesh (Mesh.addVertex p id) ed

/-- Open a facet. -/
def beginFacet (id : Nat) : Edit Unit := fun ed =>
  match ed.surface with
  | none => (.error .surfaceNotOpen, ed)
  | some s =>
    if s.facet.isSome then (.error .facetAlreadyOpen, ed)
    else if (ed.mesh.findFacet? id).isSome then (.error (.duplicateFacetId id), ed)
    else (.ok (), { ed with surface := some { s with facet := some { id } } })

/-- The first vertex that a corner's index may name and the number of vertices that it may name. -/
def addressable (ed : Editor) (s : OpenSurface) : Nat × Nat :=
  match s.mode with
  | .relative => (s.firstVertex, ed.mesh.vertexCount - s.firstVertex)
  | .absolute => (0, ed.mesh.vertexCount)

/-- Add a corner to the open facet. The index is read by the mode of the surface, and names a vertex that
is not deleted. -/
def addCorner (index : Nat) : Edit Unit := fun ed =>
  match ed.surface with
  | none => (.error .surfaceNotOpen, ed)
  | some s =>
    let (first, count) := ed.addressable s
    let v : Vertex := ⟨first + index⟩
    if count ≤ index ∨ !ed.mesh.links.isLiveVertex v then
      (.error (.vertexIndexOutOfRange index count), ed)
    else
      match s.facet with
      | none => (.error .noOpenFacet, ed)
      | some f =>
        let facet : OpenFacet := { f with corners := f.corners ++ [v] }
        (.ok (), { ed with surface := some { s with facet } })

/-- Close the open facet and add it to the mesh. A facet that does not fit is dropped. -/
def endFacet : Edit Facet := fun ed =>
  match ed.surface with
  | none => (.error .surfaceNotOpen, ed)
  | some s =>
    match s.facet with
    | none => (.error .noOpenFacet, ed)
    | some f =>
      onMesh (Mesh.addFacet f.corners f.id) { ed with surface := some { s with facet := none } }

/-- Delete the facet with an id. -/
def eraseFacet (id : Nat) : Edit Unit := fun ed =>
  match ed.surface with
  | none => (.error .surfaceNotOpen, ed)
  | some s =>
    match ed.mesh.findFacet? id with
    | none => (.error (.unknownFacetId id), ed)
    | some f =>
      (.ok (), { mesh := ed.mesh.deleteFacet f, surface := some { s with erased := true } })

/-- End the surface. If it erased facets, the records of deleted elements are dropped. -/
def endSurface : Edit Unit := fun ed =>
  match ed.surface with
  | none => (.error .surfaceNotOpen, ed)
  | some s =>
    if s.facet.isSome then (.error .facetNotClosed, ed)
    else if s.erased && ed.mesh.links.hasDeleted then (.ok (), { mesh := ed.mesh.compact })
    else (.ok (), { mesh := ed.mesh })

/-- Give the surface up and restore the mesh to its state before the surface was opened. -/
def rollback : Edit Unit := fun ed =>
  match ed.surface with
  | none => (.error .surfaceNotOpen, ed)
  | some s => (.ok (), { mesh := s.snapshot })

/-- Open a facet, give it corners, and close it, up to the first call that fails. -/
def addFacet (corners : List Nat) (id : Nat) : Edit Facet := do
  beginFacet id
  corners.forM addCorner
  endFacet

/-- Carry out work in a surface of its own. The surface ends if the work succeeds, and is rolled back if
it fails. -/
def inSurface (mode : Indexing) (work : Action Failure Editor Unit) : Action Failure Mesh Unit :=
  fun m =>
    let edit : Action Failure Editor Unit := do
      (beginSurface mode).renameFailure .build
      tryCatch work fun e => do
        rollback.renameFailure .build
        throw e
      endSurface.renameFailure .build
    let (answer, ed) := edit { mesh := m }
    (answer, ed.mesh)

end Editor

end RegionMesh
