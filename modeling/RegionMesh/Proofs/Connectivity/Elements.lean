import Mathlib.Data.List.Nodup
import RegionMesh.Connectivity.Walk

/-!
# Elements and their links under change

Which elements are live, and what every change of the records does to each of the links. Together with
`record_updateHalfedge`, `next_link` and `prev_link` these are all the facts about records that the
theory of the links needs.
-/

namespace RegionMesh

/-- Two sides of one edge are the same or opposite to each other. -/
theorem Halfedge.eq_or_eq_opposite {g h : Halfedge} (he : g.edge = h.edge) :
    g = h ∨ g = h.opposite := by
  obtain ⟨e, b⟩ := g
  obtain ⟨d, b'⟩ := h
  obtain rfl : e = d := he
  cases b <;> cases b' <;> simp [opposite]

/-- One halfedge is the other side of a second one if the second one is the other side of it. -/
theorem Halfedge.opposite_eq_iff {g h : Halfedge} : g.opposite = h ↔ g = h.opposite := by
  rw [← Halfedge.opposite_inj, Halfedge.opposite_opposite]

/-- Sides of one edge that stand in the same place are the same. -/
theorem Halfedge.ext_of_back {g h : Halfedge} (he : g.edge = h.edge) (hb : g.back = h.back) :
    g = h := by
  obtain ⟨e, b⟩ := g
  obtain ⟨d, b'⟩ := h
  obtain rfl : e = d := he
  obtain rfl : b = b' := hb
  rfl

namespace Connectivity

variable (c : Connectivity)

/-! ## Live elements -/

/-- Whether a halfedge is a side of an edge that is stored and not deleted. -/
def IsLive (h : Halfedge) : Prop := c.isLiveEdge h.edge = true

/-- An edge is live if its record is stored and not marked. -/
theorem isLiveEdge_iff (e : Edge) :
    c.isLiveEdge e = true ↔ ∃ r, c.edges[e.slot]? = some r ∧ r.deleted = false := by
  simp [isLiveEdge, Option.any_eq_true]

/-- A vertex is live if its record is stored and not marked. -/
theorem isLiveVertex_iff (v : Vertex) :
    c.isLiveVertex v = true ↔ ∃ r, c.vertices[v.slot]? = some r ∧ r.deleted = false := by
  simp [isLiveVertex, Option.any_eq_true]

/-- A facet is live if its record is stored and not marked. -/
theorem isLiveFacet_iff (f : Facet) :
    c.isLiveFacet f = true ↔ ∃ r, c.facets[f.slot]? = some r ∧ r.deleted = false := by
  simp [isLiveFacet, Option.any_eq_true]

variable {c}

/-- A live edge has a place in the storage. -/
theorem slot_lt_of_isLiveEdge {e : Edge} (h : c.isLiveEdge e = true) : e.slot < c.edges.size := by
  obtain ⟨r, hr, -⟩ := (c.isLiveEdge_iff e).1 h
  exact (Array.getElem?_eq_some_iff.1 hr).1

/-- A live vertex has a place in the storage. -/
theorem slot_lt_of_isLiveVertex {v : Vertex} (h : c.isLiveVertex v = true) :
    v.slot < c.vertices.size := by
  obtain ⟨r, hr, -⟩ := (c.isLiveVertex_iff v).1 h
  exact (Array.getElem?_eq_some_iff.1 hr).1

/-- A live facet has a place in the storage. -/
theorem slot_lt_of_isLiveFacet {f : Facet} (h : c.isLiveFacet f = true) :
    f.slot < c.facets.size := by
  obtain ⟨r, hr, -⟩ := (c.isLiveFacet_iff f).1 h
  exact (Array.getElem?_eq_some_iff.1 hr).1

/-- The edge of a live halfedge has a place in the storage. -/
theorem IsLive.slot_lt {h : Halfedge} (hh : c.IsLive h) : h.edge.slot < c.edges.size :=
  slot_lt_of_isLiveEdge hh

/-- The sides of a live edge are live. -/
theorem isLive_of_edge {e : Edge} (he : c.isLiveEdge e = true) {h : Halfedge} (hh : h.edge = e) : c.IsLive h := by
  unfold IsLive
  rwa [hh]

/-- Both sides of an edge are live together. -/
@[simp]
theorem isLive_opposite (h : Halfedge) : c.IsLive h.opposite ↔ c.IsLive h := Iff.rfl

/-- The opposite of a halfedge starts where the halfedge ends. -/
@[simp]
theorem tail_opposite (h : Halfedge) : c.tail h.opposite = c.head h := by
  simp [tail]

/-- The opposite of a halfedge ends where the halfedge starts. -/
@[simp]
theorem head_opposite (h : Halfedge) : c.head h.opposite = c.tail h := rfl

/-- The border is where there is no facet. -/
theorem isBorder_iff (h : Halfedge) : c.isBorder h = true ↔ c.facetOf h = none := by
  simp [isBorder]

/-- The list of the live vertices holds no others and leaves none out. -/
theorem mem_liveVertices {v : Vertex} : v ∈ c.liveVertices ↔ c.isLiveVertex v = true := by
  simp only [liveVertices, List.mem_filter, List.mem_map, List.mem_range, and_iff_right_iff_imp]
  exact fun h => ⟨v.slot, slot_lt_of_isLiveVertex h, rfl⟩

/-- The list of the live edges holds no others and leaves none out. -/
theorem mem_liveEdges {e : Edge} : e ∈ c.liveEdges ↔ c.isLiveEdge e = true := by
  simp only [liveEdges, List.mem_filter, List.mem_map, List.mem_range, and_iff_right_iff_imp]
  exact fun h => ⟨e.slot, slot_lt_of_isLiveEdge h, rfl⟩

/-- The list of the live facets holds no others and leaves none out. -/
theorem mem_liveFacets {f : Facet} : f ∈ c.liveFacets ↔ c.isLiveFacet f = true := by
  simp only [liveFacets, List.mem_filter, List.mem_map, List.mem_range, and_iff_right_iff_imp]
  exact fun h => ⟨f.slot, slot_lt_of_isLiveFacet h, rfl⟩

/-- The list of the live halfedges has both sides of every live edge. -/
theorem mem_liveHalfedges {h : Halfedge} : h ∈ c.liveHalfedges ↔ c.IsLive h := by
  simp only [liveHalfedges, List.mem_flatMap, mem_liveEdges, Halfedge.mem_sides]
  constructor
  · rintro ⟨e, he, rfl⟩
    exact he
  · exact fun hh => ⟨h.edge, hh, rfl⟩

/-- Behind the storage a halfedge has no facet. -/
theorem facetOf_of_size_le {h : Halfedge} (hs : c.edges.size ≤ h.edge.slot) : c.facetOf h = none := by
  have hnone : c.edges[h.edge.slot]? = none := Array.getElem?_eq_none hs
  simp only [facetOf, record, hnone]
  rfl

variable (c)

/-- Every live vertex is listed once. -/
theorem nodup_liveVertices : c.liveVertices.Nodup := by
  unfold liveVertices
  refine List.Nodup.filter _ (List.Nodup.map ?_ List.nodup_range)
  exact fun i j he => Vertex.mk.inj he

/-- Every live facet is listed once. -/
theorem nodup_liveFacets : c.liveFacets.Nodup := by
  unfold liveFacets
  refine List.Nodup.filter _ (List.Nodup.map ?_ List.nodup_range)
  exact fun i j he => Facet.mk.inj he

/-- Every live edge is listed once. -/
theorem nodup_liveEdges : c.liveEdges.Nodup := by
  unfold liveEdges
  refine List.Nodup.filter _ (List.Nodup.map ?_ List.nodup_range)
  exact fun i j he => Edge.mk.inj he

/-- Every live halfedge is listed once. -/
theorem nodup_liveHalfedges : c.liveHalfedges.Nodup := by
  unfold liveHalfedges
  rw [List.nodup_flatMap]
  refine ⟨fun e _ => ?_, c.nodup_liveEdges.imp fun hne h hh hh' => ?_⟩
  · simp [Edge.sides, Edge.side]
  · exact hne (((Halfedge.mem_sides h _).1 hh).symm.trans ((Halfedge.mem_sides h _).1 hh'))

/-! ## Handles in range -/

/-- Whether the handles in the records are those of stored elements. -/
def inRange : Bool :=
  let halfedge (h : Halfedge) := decide (h.edge.slot < c.edges.size)
  let side (r : HalfedgeRecord) := decide (r.head.slot < c.vertices.size) && halfedge r.next && halfedge r.prev &&
    r.facet.all (·.slot < c.facets.size)
  c.edges.all (fun r => side r.fore && side r.back) && c.vertices.all (·.outgoing.all halfedge) &&
    c.facets.all (halfedge ·.start)

variable {c}

/-- The neighbours of a stored halfedge in its loop are stored. -/
theorem neighbors_lt (hc : c.inRange = true) {h : Halfedge} (hh : h.edge.slot < c.edges.size) :
    (c.next h).edge.slot < c.edges.size ∧ (c.prev h).edge.slot < c.edges.size := by
  have hget := Array.getElem?_eq_getElem hh
  have hedge : c.edges[h.edge.slot] ∈ c.edges := Array.getElem_mem hh
  simp only [inRange, Bool.and_eq_true, Array.all_eq_true_iff_forall_mem, decide_eq_true_eq] at hc
  obtain ⟨hfore, hback⟩ := hc.1.1 _ hedge
  simp only [next, prev, record, hget, EdgeRecord.side]
  cases h.back with
  | false => exact ⟨hfore.1.1.2, hfore.1.2⟩
  | true => exact ⟨hback.1.1.2, hback.1.2⟩

/-- The halfedge that a vertex stores is stored. -/
theorem outgoing_lt (hc : c.inRange = true) {v : Vertex} {h : Halfedge} (ho : c.outgoing v = some h) :
    h.edge.slot < c.edges.size := by
  obtain ⟨r, hr, ho⟩ := Option.bind_eq_some_iff.1 ho
  have hvertex : r ∈ c.vertices := Array.mem_of_getElem? hr
  simp only [inRange, Bool.and_eq_true, Array.all_eq_true_iff_forall_mem, Option.all_eq_true, decide_eq_true_eq] at hc
  exact hc.1.2 r hvertex h ho

variable (c)

/-! ## Changes of vertices and facets -/

/-- What a vertex stores is no part of the edges. -/
@[simp] theorem edges_setOutgoing (v : Vertex) (h : Option Halfedge) :
    (c.setOutgoing v h).edges = c.edges := rfl

/-- What a vertex stores is no part of the facets. -/
@[simp] theorem facets_setOutgoing (v : Vertex) (h : Option Halfedge) :
    (c.setOutgoing v h).facets = c.facets := rfl

/-- No edge goes when a vertex is marked. -/
@[simp] theorem edges_deleteVertex (v : Vertex) : (c.deleteVertex v).edges = c.edges := rfl

/-- No facet goes when a vertex is marked. -/
@[simp] theorem facets_deleteVertex (v : Vertex) : (c.deleteVertex v).facets = c.facets := rfl

/-- A new facet leaves the edges as they are. -/
@[simp] theorem edges_pushFacet (h : Halfedge) : (c.pushFacet h).edges = c.edges := rfl

/-- A new facet leaves the vertices as they are. -/
@[simp] theorem vertices_pushFacet (h : Halfedge) : (c.pushFacet h).vertices = c.vertices := rfl

/-- No edge goes when a facet is marked. -/
@[simp] theorem edges_markFacetDeleted (f : Facet) : (c.markFacetDeleted f).edges = c.edges := rfl

/-- No vertex goes when a facet is marked. -/
@[simp] theorem vertices_markFacetDeleted (f : Facet) :
    (c.markFacetDeleted f).vertices = c.vertices := rfl

/-- Storing a halfedge at a vertex changes what this vertex stores. -/
theorem outgoing_setOutgoing {v : Vertex} (hv : v.slot < c.vertices.size) (h : Option Halfedge)
    (w : Vertex) : (c.setOutgoing v h).outgoing w = if w = v then h else c.outgoing w := by
  obtain ⟨i⟩ := v
  obtain ⟨j⟩ := w
  simp only at hv
  by_cases hij : i = j
  · subst hij
    simp [outgoing, setOutgoing, Array.getElem?_modify, Array.getElem?_eq_getElem hv]
  · simp [outgoing, setOutgoing, Array.getElem?_modify, hij, Ne.symm hij]

/-- A vertex is as live as before, whatever halfedge is stored. -/
@[simp]
theorem isLiveVertex_setOutgoing (v w : Vertex) (h : Option Halfedge) :
    (c.setOutgoing v h).isLiveVertex w = c.isLiveVertex w := by
  by_cases hvw : v.slot = w.slot <;>
    simp [isLiveVertex, setOutgoing, Array.getElem?_modify, hvw, Option.any_map]

/-- A vertex that is marked keeps its halfedge. -/
@[simp]
theorem outgoing_deleteVertex (v w : Vertex) : (c.deleteVertex v).outgoing w = c.outgoing w := by
  by_cases hvw : v.slot = w.slot
  · simp only [outgoing, deleteVertex, Array.getElem?_modify, hvw, if_true]
    cases c.vertices[w.slot]? <;> rfl
  · simp [outgoing, deleteVertex, Array.getElem?_modify, hvw]

/-- Deleting a vertex leaves the other live vertices live. -/
theorem isLiveVertex_deleteVertex (v w : Vertex) :
    (c.deleteVertex v).isLiveVertex w = (c.isLiveVertex w && w ≠ v) := by
  obtain ⟨i⟩ := v
  obtain ⟨j⟩ := w
  by_cases hij : i = j
  · subst hij
    simp [isLiveVertex, deleteVertex, Array.getElem?_modify, Option.any_map]
  · simp [isLiveVertex, deleteVertex, Array.getElem?_modify, hij, Ne.symm hij]

/-- Storing a halfedge adds no vertex. -/
@[simp]
theorem size_vertices_setOutgoing (v : Vertex) (h : Option Halfedge) :
    (c.setOutgoing v h).vertices.size = c.vertices.size := by
  simp [setOutgoing]

/-- A vertex that is marked stays in storage. -/
@[simp]
theorem size_vertices_deleteVertex (v : Vertex) :
    (c.deleteVertex v).vertices.size = c.vertices.size := by
  simp [deleteVertex]

/-- A facet that is marked keeps the start of its ring. -/
@[simp]
theorem start_markFacetDeleted (f g : Facet) : (c.markFacetDeleted f).start g = c.start g := by
  by_cases hfg : f.slot = g.slot
  · simp only [start, markFacetDeleted, Array.getElem?_modify, hfg, if_true]
    cases c.facets[g.slot]? <;> rfl
  · simp [start, markFacetDeleted, Array.getElem?_modify, hfg]

/-- Marking a facet leaves the other live facets live. -/
theorem isLiveFacet_markFacetDeleted (f g : Facet) :
    (c.markFacetDeleted f).isLiveFacet g = (c.isLiveFacet g && g ≠ f) := by
  obtain ⟨i⟩ := f
  obtain ⟨j⟩ := g
  by_cases hij : i = j
  · subst hij
    simp [isLiveFacet, markFacetDeleted, Array.getElem?_modify, Option.any_map]
  · simp [isLiveFacet, markFacetDeleted, Array.getElem?_modify, hij, Ne.symm hij]

/-- A new facet starts where it is told to, and the others where they did. -/
theorem start_pushFacet (h : Halfedge) (f : Facet) :
    (c.pushFacet h).start f = if f.slot = c.facets.size then h else c.start f := by
  simp only [start, pushFacet, Array.getElem?_push]
  by_cases hf : f.slot = c.facets.size
  · simp [hf]
  · simp [hf]

/-- A new facet is live. -/
theorem isLiveFacet_pushFacet (h : Halfedge) (f : Facet) :
    (c.pushFacet h).isLiveFacet f = (f.slot = c.facets.size || c.isLiveFacet f) := by
  simp only [isLiveFacet, pushFacet, Array.getElem?_push]
  split <;> simp_all

/-! ## Changes of halfedges -/

/-- The vertices do not see a change to a halfedge. -/
@[simp]
theorem vertices_updateHalfedge (h : Halfedge) (k : HalfedgeRecord → HalfedgeRecord) :
    (c.updateHalfedge h k).vertices = c.vertices := rfl

/-- The facets do not see a change to a halfedge. -/
@[simp]
theorem facets_updateHalfedge (h : Halfedge) (k : HalfedgeRecord → HalfedgeRecord) :
    (c.updateHalfedge h k).facets = c.facets := rfl

/-- An edge is as live as before when one of its sides changes. -/
@[simp]
theorem isLiveEdge_updateHalfedge (h : Halfedge) (k : HalfedgeRecord → HalfedgeRecord) (e : Edge) :
    (c.updateHalfedge h k).isLiveEdge e = c.isLiveEdge e := by
  by_cases hhe : h.edge.slot = e.slot <;>
    simp [isLiveEdge, updateHalfedge, Array.getElem?_modify, hhe, Option.any_map]

/-- The vertices do not see a link. -/
@[simp]
theorem vertices_link (p n : Halfedge) : (c.link p n).vertices = c.vertices := rfl

/-- The facets do not see a link. -/
@[simp]
theorem facets_link (p n : Halfedge) : (c.link p n).facets = c.facets := rfl

/-- A link adds no edge. -/
@[simp]
theorem size_edges_link (p n : Halfedge) : (c.link p n).edges.size = c.edges.size := by
  simp [link]

/-- An edge is as live as before, whatever is linked. -/
@[simp]
theorem isLiveEdge_link (p n : Halfedge) (e : Edge) : (c.link p n).isLiveEdge e = c.isLiveEdge e := by
  simp [link]

/-- A change of a halfedge that keeps a field of all records keeps it for every halfedge. -/
theorem map_record_updateHalfedge {β : Type} (field : HalfedgeRecord → β) (h : Halfedge)
    (k : HalfedgeRecord → HalfedgeRecord) (hk : ∀ r, field (k r) = field r) (g : Halfedge) :
    field ((c.updateHalfedge h k).record g) = field (c.record g) := by
  by_cases hs : h.edge.slot < c.edges.size
  · rw [record_updateHalfedge c hs]
    split
    · exact hk _
    · rfl
  -- Behind the storage there is nothing to change.
  · have hsame : c.updateHalfedge h k = c := by
      have hmod : c.edges.modify h.edge.slot (·.updateSide h.back k) = c.edges := by
        apply Array.ext_getElem?
        intro i
        rw [Array.getElem?_modify]
        split
        · rename_i hi
          rw [Array.getElem?_eq_none (by omega)]
          rfl
        · rfl
      simp only [updateHalfedge, hmod]
    rw [hsame]

/-- A link moves no end of a halfedge. -/
@[simp]
theorem head_link (p n g : Halfedge) : (c.link p n).head g = c.head g := by
  unfold head link
  rw [map_record_updateHalfedge _ HalfedgeRecord.head _ _ (by intro r; rfl),
    map_record_updateHalfedge _ HalfedgeRecord.head _ _ (by intro r; rfl)]

/-- A link gives no halfedge to another facet. -/
@[simp]
theorem facetOf_link (p n g : Halfedge) : (c.link p n).facetOf g = c.facetOf g := by
  unfold facetOf link
  rw [map_record_updateHalfedge _ HalfedgeRecord.facet _ _ (by intro r; rfl),
    map_record_updateHalfedge _ HalfedgeRecord.facet _ _ (by intro r; rfl)]

/-- The vertices do not see which facet a halfedge has. -/
@[simp]
theorem vertices_setFacet (h : Halfedge) (f : Option Facet) :
    (c.setFacet h f).vertices = c.vertices := rfl

/-- The records of the facets do not see which facet a halfedge has. -/
@[simp]
theorem facets_setFacet (h : Halfedge) (f : Option Facet) :
    (c.setFacet h f).facets = c.facets := rfl

/-- Giving a halfedge to a facet adds no edge. -/
@[simp]
theorem size_edges_setFacet (h : Halfedge) (f : Option Facet) :
    (c.setFacet h f).edges.size = c.edges.size := by
  simp [setFacet]

/-- An edge is as live as before, whichever facet its sides have. -/
@[simp]
theorem isLiveEdge_setFacet (h : Halfedge) (f : Option Facet) (e : Edge) :
    (c.setFacet h f).isLiveEdge e = c.isLiveEdge e := by
  simp [setFacet]

/-- A halfedge ends where it did, whichever facet it has. -/
@[simp]
theorem head_setFacet (h : Halfedge) (f : Option Facet) (g : Halfedge) :
    (c.setFacet h f).head g = c.head g :=
  map_record_updateHalfedge c HalfedgeRecord.head h _ (by intro r; rfl) g

/-- A halfedge is followed by the same one, whichever facet it has. -/
@[simp]
theorem next_setFacet (h : Halfedge) (f : Option Facet) (g : Halfedge) :
    (c.setFacet h f).next g = c.next g :=
  map_record_updateHalfedge c HalfedgeRecord.next h _ (by intro r; rfl) g

/-- A halfedge follows the same one, whichever facet it has. -/
@[simp]
theorem prev_setFacet (h : Halfedge) (f : Option Facet) (g : Halfedge) :
    (c.setFacet h f).prev g = c.prev g :=
  map_record_updateHalfedge c HalfedgeRecord.prev h _ (by intro r; rfl) g

/-- Giving a stored halfedge a facet changes the facet of this halfedge alone. -/
theorem facetOf_setFacet {h : Halfedge} (hs : h.edge.slot < c.edges.size) (f : Option Facet)
    (g : Halfedge) : (c.setFacet h f).facetOf g = if g = h then f else c.facetOf g := by
  unfold facetOf setFacet
  rw [record_updateHalfedge c hs]
  split <;> rfl

/-! ## New and deleted edges -/

/-- A new edge leaves the vertices as they are. -/
@[simp]
theorem vertices_pushEdge (v w : Vertex) : (c.pushEdge v w).vertices = c.vertices := rfl

/-- A new edge leaves the facets as they are. -/
@[simp]
theorem facets_pushEdge (v w : Vertex) : (c.pushEdge v w).facets = c.facets := rfl

/-- A new edge takes one more place. -/
@[simp]
theorem size_edges_pushEdge (v w : Vertex) : (c.pushEdge v w).edges.size = c.edges.size + 1 := by
  simp [pushEdge]

/-- A new edge is live. -/
theorem isLiveEdge_pushEdge (v w : Vertex) (e : Edge) :
    (c.pushEdge v w).isLiveEdge e = (e.slot = c.edges.size || c.isLiveEdge e) := by
  simp only [isLiveEdge, pushEdge, Array.getElem?_push]
  split <;> simp_all

/-- A new edge leaves the other records as they are. -/
theorem record_pushEdge {g : Halfedge} (hg : g.edge.slot ≠ c.edges.size) (v w : Vertex) :
    (c.pushEdge v w).record g = c.record g := by
  simp [record, pushEdge, Array.getElem?_push, hg]

/-- The sides of a new edge point to its ends. -/
theorem head_pushEdge (v w : Vertex) (back : Bool) :
    (c.pushEdge v w).head ⟨⟨c.edges.size⟩, back⟩ = if back then v else w := by
  cases back <;> simp [head, record, pushEdge, EdgeRecord.side]

/-- The sides of a new edge have no facet. -/
theorem facetOf_pushEdge (v w : Vertex) (g : Halfedge) :
    (c.pushEdge v w).facetOf g = c.facetOf g := by
  by_cases hg : g.edge.slot = c.edges.size
  · rw [facetOf_of_size_le (c := c) (Nat.le_of_eq hg.symm)]
    obtain ⟨⟨i⟩, b⟩ := g
    simp only at hg
    subst hg
    cases b <;> simp [facetOf, record, pushEdge, EdgeRecord.side]
  · unfold facetOf
    rw [record_pushEdge c hg]

/-- No vertex goes when an edge is marked. -/
@[simp]
theorem vertices_deleteEdge (e : Edge) : (c.deleteEdge e).vertices = c.vertices := rfl

/-- No facet goes when an edge is marked. -/
@[simp]
theorem facets_deleteEdge (e : Edge) : (c.deleteEdge e).facets = c.facets := rfl

/-- An edge that is marked stays in storage. -/
@[simp]
theorem size_edges_deleteEdge (e : Edge) : (c.deleteEdge e).edges.size = c.edges.size := by
  simp [deleteEdge]

/-- The records of the sides of an edge that is marked stay as they are. -/
@[simp]
theorem record_deleteEdge (e : Edge) (g : Halfedge) : (c.deleteEdge e).record g = c.record g := by
  by_cases heg : e.slot = g.edge.slot
  · simp only [record, deleteEdge, Array.getElem?_modify, heg, if_true]
    cases c.edges[g.edge.slot]? <;> rfl
  · simp [record, deleteEdge, Array.getElem?_modify, heg]

/-- Deleting an edge leaves the other live edges live. -/
theorem isLiveEdge_deleteEdge (e d : Edge) :
    (c.deleteEdge e).isLiveEdge d = (c.isLiveEdge d && d ≠ e) := by
  obtain ⟨i⟩ := e
  obtain ⟨j⟩ := d
  by_cases hij : i = j
  · subst hij
    simp [isLiveEdge, deleteEdge, Array.getElem?_modify, Option.any_map]
  · simp [isLiveEdge, deleteEdge, Array.getElem?_modify, hij, Ne.symm hij]

end Connectivity

end RegionMesh
