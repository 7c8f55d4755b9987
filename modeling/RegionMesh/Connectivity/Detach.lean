import RegionMesh.Connectivity.Walk

/-!
# Detaching a facet

Deleting a facet puts the halfedges of its ring on the border. An edge that has no facet left on either
side is deleted with it, and so is a vertex that has no edge left.

`Connectivity.deleteFacet` is `Topology::delete_face` of the source: `releaseRing` is its loop over the
ring, `removeEdge` the body of its loop over the edges, and `leaveFan` what it does there at either end
of an edge.
-/

namespace RegionMesh

namespace Connectivity

variable (c : Connectivity)

/-- Take a halfedge `h` that is being unlinked out of the fan of its head `v`: if `v` stores the opposite
of `h`, it stores the halfedge that followed `h` instead, and if that is the opposite of `h` too, `v` has
no edge left and is deleted. -/
def leaveFan (v : Vertex) (h following : Halfedge) : Connectivity :=
  if c.outgoing v = some h.opposite then
    if following = h.opposite then (c.setOutgoing v none).deleteVertex v
    else c.setOutgoing v (some following)
  else c

/-- Take an edge out of the loops on both of its sides and delete it. -/
def removeEdge (e : Edge) : Connectivity :=
  let h₀ := e.side false
  let h₁ := e.side true
  let c' := ((c.link (c.prev h₀) (c.next h₁)).link (c.prev h₁) (c.next h₀)).deleteEdge e
  (c'.leaveFan (c.head h₀) h₀ (c.next h₀)).leaveFan (c.head h₁) h₁ (c.next h₁)

/-- Put the halfedges of a ring on the border one after another. The answer lists the edges that have no
facet left. -/
def releaseRing : List Halfedge → Connectivity → List Edge × Connectivity
  | [], c => ([], c)
  | h :: rest, c =>
    let c := c.setFacet h none
    let bare := c.isBorder h.opposite
    let (edges, c) := releaseRing rest c
    (if bare then h.edge :: edges else edges, c)

/-- Delete a facet, the edges that have no facet left, and the corners that have no edge left. -/
def deleteFacet (f : Facet) : Connectivity :=
  let ring := (c.ring f).path
  let corners := ring.map c.head
  let (edges, c) := releaseRing ring c
  let c := edges.foldl removeEdge c
  let c := corners.foldl (fun c v => if c.isLiveVertex v then c.preferBorder v else c) c
  c.markFacetDeleted f

end Connectivity

end RegionMesh
