import Std.Data.TreeSet
import RegionMesh.Connectivity.Check
import RegionMesh.Mesh.Basic

/-!
# Checks and figures of a mesh

Whether the links and the ids of a mesh are in order, and how many elements of which kind it has.

`Mesh.checkLinks` and `checkFacetIds` are `check_topology` and `check_face_ids` of the source's
`QuadMesh`, and `Mesh.Summary` is its `MeshSummary`.
-/

namespace RegionMesh

/-- Figures of a mesh. Deleted elements do not count. -/
structure Mesh.Summary where
  /-- The number of vertices. -/
  vertices : Nat
  /-- The number of edges. -/
  edges : Nat
  /-- The number of facets. -/
  facets : Nat
  /-- The number of halfedges without a facet. -/
  borderHalfedges : Nat
  /-- The number of halfedges with a facet. -/
  interiorHalfedges : Nat
  /-- Whether every facet has four corners. -/
  allQuads : Bool
  /-- The ids of the facets with an edge on the border, in storage order. -/
  borderFacets : List Nat
  /-- Whether links and ids are in order. -/
  valid : Bool
deriving DecidableEq, Inhabited, Repr

namespace Mesh

variable (m : Mesh)

/-- Check the links between the elements. -/
def checkLinks : Except LinkFault Unit := m.links.check

/-- Check that no two facets have the same id. -/
def checkFacetIds : Except LinkFault Unit :=
  go {} (m.links.liveFacets.map m.facetId)
where
  /-- Check that the ids of a list are different from each other and from those that were seen. -/
  go (seen : Std.TreeSet Nat) : List Nat → Except LinkFault Unit
    | [] => .ok ()
    | id :: rest => if seen.contains id then .error (.duplicateFacetId id) else go (seen.insert id) rest

/-- The number of halfedges on the border. -/
def borderHalfedgeCount : Nat := m.links.liveHalfedges.countP m.links.isBorder

/-- Whether a facet has an edge on the border. -/
def touchesBorder (f : Facet) : Bool := (m.links.ring f).path.any fun h => m.links.isBorder h.opposite

/-- The figures of the mesh. -/
def summary : Mesh.Summary where
  vertices := m.links.liveVertices.length
  edges := m.links.liveEdges.length
  facets := m.links.liveFacets.length
  borderHalfedges := m.borderHalfedgeCount
  interiorHalfedges := m.links.liveHalfedges.length - m.borderHalfedgeCount
  allQuads := m.links.liveFacets.all fun f => m.links.facetValence f = 4
  borderFacets := (m.links.liveFacets.filter m.touchesBorder).map m.facetId
  valid := m.checkLinks.isOk && m.checkFacetIds.isOk

end Mesh

end RegionMesh
