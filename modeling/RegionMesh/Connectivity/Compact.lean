import RegionMesh.Connectivity.Basic

/-!
# Compaction

Compaction drops the records of deleted elements and closes the gaps. The elements that stay keep their
order, so a handle moves down by the number of deleted elements before it (`newSlots`).

`Connectivity.compact` is `Topology::garbage_collection` of the source, `newSlots` its `remap`, and
`Renumbering` the maps of its elements, of which it returns those of the vertices and the facets as
`IndexRemap`.
-/

namespace RegionMesh

/-- The new place of every record when the marked ones are dropped: none for a marked record, and for
another one the number of unmarked ones before it. -/
def newSlots (dropped : List Bool) : Array (Option Nat) :=
  go dropped 0 #[]
where
  /-- Number the unmarked records from `count` on. -/
  go : List Bool → Nat → Array (Option Nat) → Array (Option Nat)
    | [], _, slots => slots
    | true :: rest, count, slots => go rest count (slots.push none)
    | false :: rest, count, slots => go rest (count + 1) (slots.push (some count))

/-- The values whose mark is not set, in order. -/
def keepUnmarked {α : Type} (dropped : List Bool) (values : Array α) : Array α :=
  ((values.toList.zip dropped).filterMap fun (a, drop) => if drop then none else some a).toArray

/-- Where the elements move when a storage is compacted. -/
structure Renumbering where
  /-- The new places of the vertices. -/
  vertexSlots : Array (Option Nat)
  /-- The new places of the edges. -/
  edgeSlots : Array (Option Nat)
  /-- The new places of the facets. -/
  facetSlots : Array (Option Nat)
deriving DecidableEq, Inhabited, Repr

namespace Renumbering

variable (r : Renumbering)

/-- The new handle of a vertex. A deleted vertex keeps its handle. -/
def vertex (v : Vertex) : Vertex :=
  match r.vertexSlots[v.slot]? with
  | some (some slot) => ⟨slot⟩
  | _ => v

/-- The new handle of a halfedge. A halfedge of a deleted edge keeps its handle. -/
def halfedge (h : Halfedge) : Halfedge :=
  match r.edgeSlots[h.edge.slot]? with
  | some (some slot) => ⟨⟨slot⟩, h.back⟩
  | _ => h

/-- The new handle of a facet. A deleted facet keeps its handle. -/
def facet (f : Facet) : Facet :=
  match r.facetSlots[f.slot]? with
  | some (some slot) => ⟨slot⟩
  | _ => f

/-- The record of a halfedge with all handles renumbered. -/
def halfedgeRecord (h : HalfedgeRecord) : HalfedgeRecord :=
  { head := r.vertex h.head
    next := r.halfedge h.next
    prev := r.halfedge h.prev
    facet := h.facet.map r.facet }

end Renumbering

namespace Connectivity

variable (c : Connectivity)

/-- The new places of the elements that are not deleted. -/
def renumbering : Renumbering where
  vertexSlots := newSlots (c.vertices.toList.map (·.deleted))
  edgeSlots := newSlots (c.edges.toList.map (·.deleted))
  facetSlots := newSlots (c.facets.toList.map (·.deleted))

/-- Drop the records of deleted elements and renumber all handles. -/
def compact : Connectivity :=
  let r := c.renumbering
  { vertices := (c.vertices.filter (!·.deleted)).map fun v =>
      { v with outgoing := v.outgoing.map r.halfedge }
    edges := (c.edges.filter (!·.deleted)).map fun e =>
      { e with fore := r.halfedgeRecord e.fore, back := r.halfedgeRecord e.back }
    facets := (c.facets.filter (!·.deleted)).map fun f => { f with start := r.halfedge f.start } }

end Connectivity

end RegionMesh
