import Std.Data.TreeMap
import RegionMesh.Connectivity.Attach
import RegionMesh.Connectivity.Compact
import RegionMesh.Connectivity.Detach
import RegionMesh.Geometry

/-!
# Meshes

A mesh is a connectivity whose vertices have positions, and whose vertices and facets have ids. The ids
are chosen by whoever builds the mesh, and need not be dense or in order. No two vertices and no two
facets have the same id at the same time, and an id is free again when its element is deleted.

A `Mesh` is a `QuadMesh` of the source. `Mesh.addVertex`, `addFacet` and `deleteFacet` are its
`add_vertex`, `add_face` and `delete_face`, `compact` is its `garbage_collection`, and `centroid` its
`face_centroid`.
-/

namespace RegionMesh

/-- A halfedge mesh with positions and ids. -/
structure Mesh where
  /-- The links between the elements. -/
  links : Connectivity := {}
  /-- The positions of the vertices, by slot. -/
  points : Array Point := #[]
  /-- The ids of the vertices, by slot. -/
  vertexIds : Array Nat := #[]
  /-- The ids of the facets, by slot. -/
  facetIds : Array Nat := #[]
  /-- The vertices by id. -/
  vertexById : Std.TreeMap Nat Vertex := {}
  /-- The facets by id. -/
  facetById : Std.TreeMap Nat Facet := {}
deriving Inhabited

/-- The first element of a list that stands in the list before. -/
def firstRepeat? {α : Type} [BEq α] (l : List α) : Option α :=
  go [] l
where
  /-- The first element that was seen before, or that stands in the rest before. -/
  go (seen : List α) : List α → Option α
    | [] => none
    | a :: rest => if seen.contains a then some a else go (a :: seen) rest

/-- The handles by id of elements whose ids are listed by slot. Of two elements with one id the later one
counts. -/
def lookupBySlot {α : Type} (handle : Nat → α) (ids : Array Nat) : Std.TreeMap Nat α :=
  .ofList (ids.toList.zipIdx.map fun (id, slot) => (id, handle slot))

namespace Mesh

variable (m : Mesh)

/-! ## Reading -/

/-- The number of vertices, deleted ones included. -/
def vertexCount : Nat := m.links.vertices.size

/-- The number of edges, deleted ones included. -/
def edgeCount : Nat := m.links.edges.size

/-- The number of facets, deleted ones included. -/
def facetCount : Nat := m.links.facets.size

/-- The position of a vertex. -/
def point (v : Vertex) : Point := m.points.getD v.slot default

/-- The id of a vertex. -/
def vertexId (v : Vertex) : Nat := m.vertexIds.getD v.slot 0

/-- The id of a facet. -/
def facetId (f : Facet) : Nat := m.facetIds.getD f.slot 0

/-- The vertex with an id. -/
def findVertex? (id : Nat) : Option Vertex := m.vertexById[id]?

/-- The facet with an id. -/
def findFacet? (id : Nat) : Option Facet := m.facetById[id]?

/-- The mean of the positions of the corners of a facet. -/
def centroid (f : Facet) : Point := .mean ((m.links.corners f).map m.point)

/-! ## Changing -/

/-- Add a vertex with a position and an id that no vertex has. -/
def addVertex (p : Point) (id : Nat) : Action BuildError Mesh Vertex := fun m =>
  if m.vertexById.contains id then (.error (.duplicateVertexId id), m)
  else
    let (v, links) := m.links.addVertex
    (.ok v, { m with
      links
      points := m.points.push p
      vertexIds := m.vertexIds.push id
      vertexById := m.vertexById.insert id v })

/-- Add a facet with at least three different corners and an id that no facet has. -/
def addFacet (corners : List Vertex) (id : Nat) : Action BuildError Mesh Facet := fun m =>
  if corners.length < 3 then (.error (.degenerateFacet id corners.length), m)
  else if m.facetById.contains id then (.error (.duplicateFacetId id), m)
  else
    match firstRepeat? corners with
    | some v => (.error (.repeatedCorner id v), m)
    | none =>
      match Connectivity.addFacet corners m.links with
      | (.error e, links) => (.error e, { m with links })
      | (.ok f, links) => (.ok f, { m with
          links
          facetIds := m.facetIds.push id
          facetById := m.facetById.insert id f })

/-- Delete a facet, and with it the corners that have no edge left. Their ids are free again. -/
def deleteFacet (f : Facet) : Mesh :=
  let corners := m.links.corners f
  let links := m.links.deleteFacet f
  let gone := corners.filter (!links.isLiveVertex ·)
  { m with
    links
    facetById := m.facetById.erase (m.facetId f)
    vertexById := gone.foldl (fun t v => t.erase (m.vertexId v)) m.vertexById }

/-- Drop the records of deleted elements. The handles of the other elements change. -/
def compact : Mesh :=
  let deletedVertices := m.links.vertices.toList.map (·.deleted)
  let deletedFacets := m.links.facets.toList.map (·.deleted)
  let vertexIds := keepUnmarked deletedVertices m.vertexIds
  let facetIds := keepUnmarked deletedFacets m.facetIds
  { links := m.links.compact
    points := keepUnmarked deletedVertices m.points
    vertexIds
    facetIds
    vertexById := lookupBySlot Vertex.mk vertexIds
    facetById := lookupBySlot Facet.mk facetIds }

end Mesh

end RegionMesh
