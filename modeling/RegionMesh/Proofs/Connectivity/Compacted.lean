import RegionMesh.Proofs.Connectivity.Renamed

/-!
# Compacted links

That compaction renames the live elements is said in `Renamed`. Here is which names they get: the live elements of a
kind get the slots 0, 1, 2 and so on, in storage order (`vertex_of_getElem?`, `halfedge_of_getElem?`,
`facet_of_getElem?`), there are no others (`size_vertices`, `size_edges`, `size_facets`), and none of them is deleted
(`hasDeleted_compact`).

A handle of a deleted element would be kept as it is, and name another element afterwards. Links that are in order hold
no such handle (`WellFormed.refersToLive`). Where nothing is deleted, every handle is kept (`compact_eq_self`).
-/

namespace RegionMesh

namespace Connectivity

variable {c : Connectivity}

/-- Live elements refer to live ones alone. -/
structure RefersToLive (c : Connectivity) : Prop where
  /-- The vertex at the head of a halfedge is live. -/
  head : ∀ h, c.IsLive h → c.isLiveVertex (c.head h) = true
  /-- The next halfedge is live. -/
  next : ∀ h, c.IsLive h → c.IsLive (c.next h)
  /-- The previous halfedge is live. -/
  prev : ∀ h, c.IsLive h → c.IsLive (c.prev h)
  /-- The facet of a halfedge is live. -/
  facetOf : ∀ h f, c.IsLive h → c.facetOf h = some f → c.isLiveFacet f = true
  /-- The halfedge that a vertex stores is live. -/
  outgoing : ∀ v h, c.isLiveVertex v = true → c.outgoing v = some h → c.IsLive h
  /-- The halfedge at which a facet starts is live. -/
  start : ∀ f, c.isLiveFacet f = true → c.IsLive (c.start f)

/-- Links that are in order do not refer to deleted elements. -/
theorem WellFormed.refersToLive (hc : c.WellFormed) : c.RefersToLive where
  head _ hh := hc.head_live hh
  next _ hh := (hc.next_live hh).1
  prev _ hh := (hc.prev_live hh).1
  facetOf _ _ hh hf := hc.facet_live hh hf
  outgoing _ _ hv ho := (hc.outgoing hv ho).1
  start f hf := by
    have hring := hc.ringOf hf
    exact ((hring.mem _).1 (List.mem_of_head? hring.head)).1

/-! ## The new slots -/

/-- A slot has a live vertex if its record is stored without a mark. -/
theorem isLiveVertex_mk (i : ℕ) :
    c.isLiveVertex ⟨i⟩ = true ↔ (c.vertices.toList.map (·.deleted))[i]? = some false := by
  rw [isLiveVertex_iff, getElem?_map_eq_false]

/-- A slot has a live edge if its record is stored without a mark. -/
theorem isLiveEdge_mk (i : ℕ) :
    c.isLiveEdge ⟨i⟩ = true ↔ (c.edges.toList.map (·.deleted))[i]? = some false := by
  rw [isLiveEdge_iff, getElem?_map_eq_false]

/-- A slot has a live facet if its record is stored without a mark. -/
theorem isLiveFacet_mk (i : ℕ) :
    c.isLiveFacet ⟨i⟩ = true ↔ (c.facets.toList.map (·.deleted))[i]? = some false := by
  rw [isLiveFacet_iff, getElem?_map_eq_false]

/-- The live vertices get the first slots, in storage order. -/
theorem map_liveVertices : c.liveVertices.map c.renumbering.vertex =
    (List.range c.compact.vertices.size).map Vertex.mk := by
  have hmap := map_filter_unmarked (f := c.renumbering.vertex) (g := Vertex.mk) isLiveVertex_mk
    fun i hi => renumbering_vertex ((isLiveVertex_mk i).2 hi)
  rwa [← size_vertices_compact, List.length_map, Array.length_toList] at hmap

/-- The live edges get the first slots, in storage order, and their sides stay what they are. -/
theorem map_liveEdges (back : Bool) : c.liveEdges.map (fun e => c.renumbering.halfedge ⟨e, back⟩) =
    (List.range c.compact.edges.size).map fun k => ⟨⟨k⟩, back⟩ := by
  have hmap := map_filter_unmarked (f := fun e => c.renumbering.halfedge ⟨e, back⟩)
    (g := fun k => ⟨⟨k⟩, back⟩) isLiveEdge_mk
    fun i hi => renumbering_halfedge (h := ⟨⟨i⟩, back⟩) ((isLiveEdge_mk i).2 hi)
  rwa [← size_edges_compact, List.length_map, Array.length_toList] at hmap

/-- The live facets get the first slots, in storage order. -/
theorem map_liveFacets : c.liveFacets.map c.renumbering.facet =
    (List.range c.compact.facets.size).map Facet.mk := by
  have hmap := map_filter_unmarked (f := c.renumbering.facet) (g := Facet.mk) isLiveFacet_mk
    fun i hi => renumbering_facet ((isLiveFacet_mk i).2 hi)
  rwa [← size_facets_compact, List.length_map, Array.length_toList] at hmap

/-- There are as many vertices as were live. -/
theorem size_vertices : c.compact.vertices.size = c.liveVertices.length := by
  simpa using (congrArg List.length c.map_liveVertices).symm

/-- There are as many edges as were live. -/
theorem size_edges : c.compact.edges.size = c.liveEdges.length := by
  simpa using (congrArg List.length (c.map_liveEdges false)).symm

/-- There are as many facets as were live. -/
theorem size_facets : c.compact.facets.size = c.liveFacets.length := by
  simpa using (congrArg List.length c.map_liveFacets).symm

/-- The k-th live vertex gets the slot k. -/
theorem vertex_of_getElem? {k : ℕ} {v : Vertex} (hv : c.liveVertices[k]? = some v) :
    c.renumbering.vertex v = ⟨k⟩ :=
  eq_of_map_range map_liveVertices hv

/-- The halfedges of the k-th live edge become those of the edge with the slot k. -/
theorem halfedge_of_getElem? {k : ℕ} {e : Edge} (he : c.liveEdges[k]? = some e) (back : Bool) :
    c.renumbering.halfedge ⟨e, back⟩ = ⟨⟨k⟩, back⟩ :=
  eq_of_map_range (map_liveEdges back) he

/-- The k-th live facet gets the slot k. -/
theorem facet_of_getElem? {k : ℕ} {f : Facet} (hf : c.liveFacets[k]? = some f) :
    c.renumbering.facet f = ⟨k⟩ :=
  eq_of_map_range map_liveFacets hf

/-- The live facets afterwards are those that were live before, in the same order. -/
theorem liveFacets_compact : c.compact.liveFacets = c.liveFacets.map c.renumbering.facet := by
  rw [map_liveFacets, liveFacets, List.filter_eq_self]
  intro f hf
  obtain ⟨i, hi, rfl⟩ := List.mem_map.1 hf
  exact isLiveFacet_compact.2 (List.mem_range.1 hi)

/-- No element that is left is deleted. -/
theorem hasDeleted_compact : c.compact.hasDeleted = false := by
  unfold hasDeleted compact
  simp

/-! ## Nothing to drop -/

section Kept

variable (hc : c.hasDeleted = false)

include hc

/-- No record is marked as deleted. -/
theorem kept_of_hasDeleted : (∀ v ∈ c.vertices, v.deleted = false) ∧ (∀ e ∈ c.edges, e.deleted = false) ∧
    ∀ f ∈ c.facets, f.deleted = false := by
  simpa only [hasDeleted, Bool.or_eq_false_iff, Array.any_eq_false', Bool.not_eq_true, and_assoc] using hc

/-- Every vertex keeps its handle. -/
theorem renumbering_vertex_of_hasDeleted (v : Vertex) : c.renumbering.vertex v = v := by
  have hkept : ∀ b ∈ c.vertices.toList.map (·.deleted), b = false := by
    simpa using (kept_of_hasDeleted hc).1
  unfold Renumbering.vertex
  split
  · rename_i slot hslot
    rw [eq_of_newSlots hkept hslot]
  · rfl

/-- Every halfedge keeps its handle. -/
theorem renumbering_halfedge_of_hasDeleted (h : Halfedge) : c.renumbering.halfedge h = h := by
  have hkept : ∀ b ∈ c.edges.toList.map (·.deleted), b = false := by
    simpa using (kept_of_hasDeleted hc).2.1
  unfold Renumbering.halfedge
  split
  · rename_i slot hslot
    rw [eq_of_newSlots hkept hslot]
  · rfl

/-- Every facet keeps its handle. -/
theorem renumbering_facet_of_hasDeleted (f : Facet) : c.renumbering.facet f = f := by
  have hkept : ∀ b ∈ c.facets.toList.map (·.deleted), b = false := by
    simpa using (kept_of_hasDeleted hc).2.2
  unfold Renumbering.facet
  split
  · rename_i slot hslot
    rw [eq_of_newSlots hkept hslot]
  · rfl

/-- Where nothing is deleted, compaction changes nothing. -/
theorem compact_eq_self : c.compact = c := by
  obtain ⟨hvertices, hedges, hfacets⟩ := kept_of_hasDeleted hc
  have hhalfedge : c.renumbering.halfedge = id := funext (renumbering_halfedge_of_hasDeleted hc)
  -- Every handle is its own rank, so no record changes.
  have hrecord : c.renumbering.halfedgeRecord = id := by
    have hfacet : c.renumbering.facet = id := funext (renumbering_facet_of_hasDeleted hc)
    funext a
    unfold Renumbering.halfedgeRecord
    simp [renumbering_vertex_of_hasDeleted hc, hhalfedge, hfacet]
  unfold compact
  rw [Array.filter_eq_self.2 (by simpa using hvertices), Array.filter_eq_self.2 (by simpa using hedges),
    Array.filter_eq_self.2 (by simpa using hfacets)]
  simp only [hhalfedge, hrecord, Option.map_id, id_eq, Array.map_id']

end Kept

end Connectivity

end RegionMesh
