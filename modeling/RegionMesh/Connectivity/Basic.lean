import RegionMesh.Handle

/-!
# Connectivity

How the vertices, edges and facets of a mesh hang together, without positions and ids. Every halfedge
knows the vertex at its head, the next and the previous halfedge of its loop, and its facet if it has
one; a halfedge without a facet is on the border. A vertex knows one of the halfedges that leave it, and
a facet one of its own.

Deleted elements keep their records until the storage is compacted, so handles stay valid. The links
are changed by `updateHalfedge`, `setOutgoing` and the deletions alone, and what each of them does to
each of the links is stated beside it.

In the source this is `Topology`, and its records are `Halfedge`, `Edge`, `Vertex` and `Face` together
with their `Status`. `Connectivity.head` and `tail` are `to_vertex` and `from_vertex`, `link` is
`set_next_halfedge`, `setOutgoing` is `set_vertex_halfedge`, `pushEdge` and `pushFacet` are `new_edge`
and `new_face`, and the lists of live elements are what `vertices`, `edges`, `halfedges` and `faces`
iterate over.
-/

namespace RegionMesh

/-- The record of one side of an edge. -/
structure HalfedgeRecord where
  /-- The vertex that the halfedge points to. -/
  head : Vertex
  /-- The next halfedge of the loop. -/
  next : Halfedge
  /-- The previous halfedge of the loop. -/
  prev : Halfedge
  /-- The facet on this side of the edge, or none on the border. -/
  facet : Option Facet
deriving DecidableEq, Inhabited, Repr

/-- The record of an edge: its two sides. -/
structure EdgeRecord where
  /-- The first side. -/
  fore : HalfedgeRecord
  /-- The second side. -/
  back : HalfedgeRecord
  /-- Whether the edge is deleted. -/
  deleted : Bool := false
deriving DecidableEq, Inhabited, Repr

/-- The record of a vertex. -/
structure VertexRecord where
  /-- A halfedge that leaves the vertex, or none if no edge meets it. -/
  outgoing : Option Halfedge := none
  /-- Whether the vertex is deleted. -/
  deleted : Bool := false
deriving DecidableEq, Inhabited, Repr

/-- The record of a facet. -/
structure FacetRecord where
  /-- The halfedge at which the ring of the facet starts. -/
  start : Halfedge
  /-- Whether the facet is deleted. -/
  deleted : Bool := false
deriving DecidableEq, Inhabited, Repr

namespace EdgeRecord

/-- One side of an edge: the first for `false`, the second for `true`. -/
def side (e : EdgeRecord) (back : Bool) : HalfedgeRecord := if back then e.back else e.fore

/-- Change one side of an edge. -/
def updateSide (e : EdgeRecord) (back : Bool) (f : HalfedgeRecord → HalfedgeRecord) : EdgeRecord :=
  if back then { e with back := f e.back } else { e with fore := f e.fore }

/-- Changing one side changes that side, and leaves the other. -/
theorem side_updateSide (e : EdgeRecord) (b c : Bool) (f : HalfedgeRecord → HalfedgeRecord) :
    (e.updateSide b f).side c = if b = c then f (e.side c) else e.side c := by
  cases b <;> cases c <;> rfl

/-- An edge is as deleted as before when one of its sides changes. -/
@[simp]
theorem deleted_updateSide (e : EdgeRecord) (b : Bool) (f : HalfedgeRecord → HalfedgeRecord) :
    (e.updateSide b f).deleted = e.deleted := by
  cases b <;> rfl

end EdgeRecord

/-- The links between the elements of a mesh. -/
structure Connectivity where
  /-- The vertices. -/
  vertices : Array VertexRecord := #[]
  /-- The edges, each with its two halfedges. -/
  edges : Array EdgeRecord := #[]
  /-- The facets. -/
  facets : Array FacetRecord := #[]
deriving DecidableEq, Inhabited, Repr

namespace Connectivity

variable (c : Connectivity)

/-! ## Reading -/

/-- The number of halfedges, those of deleted edges included. -/
def halfedgeCount : Nat := 2 * c.edges.size

/-- The record of a halfedge. Behind the storage every halfedge has the same arbitrary record. -/
def record (h : Halfedge) : HalfedgeRecord :=
  match c.edges[h.edge.slot]? with
  | some e => e.side h.back
  | none => default

/-- The vertex that a halfedge points to. -/
def head (h : Halfedge) : Vertex := (c.record h).head

/-- The vertex that a halfedge leaves. -/
def tail (h : Halfedge) : Vertex := c.head h.opposite

/-- The next halfedge of the loop. -/
def next (h : Halfedge) : Halfedge := (c.record h).next

/-- The previous halfedge of the loop. -/
def prev (h : Halfedge) : Halfedge := (c.record h).prev

/-- The facet on the side of a halfedge. -/
def facetOf (h : Halfedge) : Option Facet := (c.record h).facet

/-- The halfedge that a vertex stores as one that leaves it. -/
def outgoing (v : Vertex) : Option Halfedge := c.vertices[v.slot]?.bind (·.outgoing)

/-- The halfedge at which the ring of a facet starts. -/
def start (f : Facet) : Halfedge :=
  match c.facets[f.slot]? with
  | some r => r.start
  | none => default

/-- Whether a halfedge has no facet. -/
def isBorder (h : Halfedge) : Bool := (c.facetOf h).isNone

/-- Whether one of the sides of an edge has no facet. -/
def isBorderEdge (e : Edge) : Bool := e.sides.any c.isBorder

/-- Whether a vertex has no edges, or the halfedge that it stores has no facet. -/
def isBorderVertex (v : Vertex) : Bool :=
  match c.outgoing v with
  | some h => c.isBorder h
  | none => true

/-- Whether a vertex is stored and not deleted. -/
def isLiveVertex (v : Vertex) : Bool := c.vertices[v.slot]?.any (!·.deleted)

/-- Whether an edge is stored and not deleted. -/
def isLiveEdge (e : Edge) : Bool := c.edges[e.slot]?.any (!·.deleted)

/-- Whether a facet is stored and not deleted. -/
def isLiveFacet (f : Facet) : Bool := c.facets[f.slot]?.any (!·.deleted)

/-- The vertices that are not deleted, in storage order. -/
def liveVertices : List Vertex := ((List.range c.vertices.size).map Vertex.mk).filter c.isLiveVertex

/-- The edges that are not deleted, in storage order. -/
def liveEdges : List Edge := ((List.range c.edges.size).map Edge.mk).filter c.isLiveEdge

/-- The halfedges of the edges that are not deleted, in storage order. -/
def liveHalfedges : List Halfedge := c.liveEdges.flatMap Edge.sides

/-- The facets that are not deleted, in storage order. -/
def liveFacets : List Facet := ((List.range c.facets.size).map Facet.mk).filter c.isLiveFacet

/-- Whether any element is deleted. -/
def hasDeleted : Bool :=
  c.vertices.any (·.deleted) || c.edges.any (·.deleted) || c.facets.any (·.deleted)

/-! ## Changing -/

/-- Change the record of a halfedge. -/
def updateHalfedge (h : Halfedge) (f : HalfedgeRecord → HalfedgeRecord) : Connectivity :=
  { c with edges := c.edges.modify h.edge.slot (·.updateSide h.back f) }

/-- Give a halfedge a facet, or put it on the border. -/
def setFacet (h : Halfedge) (f : Option Facet) : Connectivity :=
  c.updateHalfedge h ({ · with facet := f })

/-- Make `n` the next halfedge of `p`, and `p` the previous one of `n`. -/
def link (p n : Halfedge) : Connectivity :=
  (c.updateHalfedge p ({ · with next := n })).updateHalfedge n ({ · with prev := p })

/-- Store a halfedge, or none, as the one that leaves a vertex. -/
def setOutgoing (v : Vertex) (h : Option Halfedge) : Connectivity :=
  { c with vertices := c.vertices.modify v.slot ({ · with outgoing := h }) }

/-- Add a vertex without edges. -/
def addVertex : Vertex × Connectivity :=
  (⟨c.vertices.size⟩, { c with vertices := c.vertices.push {} })

/-- Add an edge between two vertices, each of its sides a loop of its own on the border. -/
def pushEdge (tail head : Vertex) : Connectivity :=
  let e : Edge := ⟨c.edges.size⟩
  { c with
    edges := c.edges.push
      { fore := ⟨head, e.side false, e.side false, none⟩
        back := ⟨tail, e.side true, e.side true, none⟩ } }

/-- Add a facet whose ring starts at a halfedge. -/
def pushFacet (start : Halfedge) : Connectivity := { c with facets := c.facets.push { start } }

/-- Mark a vertex as deleted. -/
def deleteVertex (v : Vertex) : Connectivity :=
  { c with vertices := c.vertices.modify v.slot ({ · with deleted := true }) }

/-- Mark an edge as deleted. -/
def deleteEdge (e : Edge) : Connectivity :=
  { c with edges := c.edges.modify e.slot ({ · with deleted := true }) }

/-- Mark the record of a facet as deleted. -/
def markFacetDeleted (f : Facet) : Connectivity :=
  { c with facets := c.facets.modify f.slot ({ · with deleted := true }) }

/-! ## What the changes do to the links -/

/-- No edge is added when a halfedge changes. -/
@[simp]
theorem size_edges_updateHalfedge (h : Halfedge) (f : HalfedgeRecord → HalfedgeRecord) :
    (c.updateHalfedge h f).edges.size = c.edges.size := by
  simp [updateHalfedge]

/-- Changing a stored halfedge changes its record alone. -/
theorem record_updateHalfedge {h : Halfedge} (hs : h.edge.slot < c.edges.size)
    (f : HalfedgeRecord → HalfedgeRecord) (g : Halfedge) :
    (c.updateHalfedge h f).record g = if g = h then f (c.record g) else c.record g := by
  obtain ⟨⟨i⟩, b⟩ := h
  obtain ⟨⟨j⟩, d⟩ := g
  simp only at hs
  by_cases hij : i = j
  · subst hij
    simp only [record, updateHalfedge, Array.getElem?_modify, if_true, Halfedge.mk.injEq, true_and,
      Array.getElem?_eq_getElem hs, Option.map_some, EdgeRecord.side_updateSide]
    by_cases hbd : b = d
    · simp [hbd]
    · simp [hbd, Ne.symm hbd]
  · simp [record, updateHalfedge, Array.getElem?_modify, hij, Ne.symm hij]

/-- Linking two stored halfedges makes the second the next one of the first, and changes no other next
halfedge. -/
theorem next_link {p n : Halfedge} (hp : p.edge.slot < c.edges.size)
    (hn : n.edge.slot < c.edges.size) (g : Halfedge) :
    (c.link p n).next g = if g = p then n else c.next g := by
  have hn' : n.edge.slot < (c.updateHalfedge p ({ · with next := n })).edges.size := by simpa
  simp only [next, link, record_updateHalfedge _ hn', record_updateHalfedge _ hp]
  split <;> split <;> rfl

/-- Linking two stored halfedges makes the first the previous one of the second, and changes no other
previous halfedge. -/
theorem prev_link {p n : Halfedge} (hp : p.edge.slot < c.edges.size)
    (hn : n.edge.slot < c.edges.size) (g : Halfedge) :
    (c.link p n).prev g = if g = n then p else c.prev g := by
  have hn' : n.edge.slot < (c.updateHalfedge p ({ · with next := n })).edges.size := by simpa
  simp only [prev, link, record_updateHalfedge _ hn', record_updateHalfedge _ hp]
  split <;> split <;> rfl

end Connectivity

end RegionMesh
