import RegionMesh.Proofs.Connectivity.Accepted
import RegionMesh.Proofs.Connectivity.Compacted
import RegionMesh.Proofs.Region.Renamed

/-!
# Compacted meshes

Compaction packs the records of a mesh three times, once for each kind of element, renumbers the handles in them, and
builds the two lookups anew. On links that are in order, with tables that match them, all this agrees
(`Mesh.CompactedTo`, `compact_effects`): the live elements move up in storage order, and their links, positions and
ids are what they were under the new handles. As a report names facets by their ids, the regions do not change
(`Renames.regions`). Where nothing is deleted, compaction leaves a mesh as it is (`compact_sameAs`).
-/

namespace RegionMesh

namespace Mesh

/-- Two meshes have the same storage, and find the same elements by their ids. -/
structure SameAs (m' m : Mesh) : Prop where
  /-- The links are the same. -/
  links : m'.links = m.links
  /-- The positions are the same. -/
  points : m'.points = m.points
  /-- The ids of the vertices are the same. -/
  vertexIds : m'.vertexIds = m.vertexIds
  /-- The ids of the facets are the same. -/
  facetIds : m'.facetIds = m.facetIds
  /-- The same vertices are found. -/
  findVertex? : ∀ id, m'.findVertex? id = m.findVertex? id
  /-- The same facets are found. -/
  findFacet? : ∀ id, m'.findFacet? id = m.findFacet? id

/-- What the compaction of a mesh by a renumbering leaves. -/
structure CompactedTo (m : Mesh) (r : Renumbering) (m' : Mesh) : Prop where
  /-- No element is deleted. -/
  hasDeleted : m'.links.hasDeleted = false
  /-- The k-th live vertex gets the slot k. -/
  vertex : ∀ k v, m.links.liveVertices[k]? = some v → r.vertex v = ⟨k⟩
  /-- The k-th live edge gets the slot k, and each of its halfedges stays on its side. -/
  halfedge : ∀ k e, m.links.liveEdges[k]? = some e → ∀ back, r.halfedge ⟨e, back⟩ = ⟨⟨k⟩, back⟩
  /-- The k-th live facet gets the slot k. -/
  facet : ∀ k f, m.links.liveFacets[k]? = some f → r.facet f = ⟨k⟩
  /-- There are as many vertices as were live. -/
  size_vertices : m'.links.vertices.size = m.links.liveVertices.length
  /-- There are as many edges as were live. -/
  size_edges : m'.links.edges.size = m.links.liveEdges.length
  /-- There are as many facets as were live. -/
  size_facets : m'.links.facets.size = m.links.liveFacets.length
  /-- Every handle in the record of a live element is that of a live one, and so gets a new slot. -/
  refersToLive : m.links.RefersToLive
  /-- The links of the live elements are the images of what they were. -/
  links : m.links.Renames r m'.links
  /-- Opposite halfedges stay opposite. -/
  opposite : ∀ h, r.halfedge h.opposite = (r.halfedge h).opposite
  /-- A live vertex keeps its id and its position. -/
  vertexId : ∀ v, m.links.isLiveVertex v = true →
    m'.vertexId (r.vertex v) = m.vertexId v ∧ m'.point (r.vertex v) = m.point v
  /-- A live facet keeps its id. -/
  facetId : ∀ f, m.links.isLiveFacet f = true → m'.facetId (r.facet f) = m.facetId f
  /-- The tables have an entry for every element, and no others. -/
  indexed : m'.Indexed
  /-- The live vertices are found by their ids under their new handles, and no others. -/
  findVertex? : ∀ id w, m'.findVertex? id = some w ↔
    ∃ v, m.links.isLiveVertex v = true ∧ m.vertexId v = id ∧ r.vertex v = w
  /-- The live facets are found by their ids under their new handles, and no others. -/
  findFacet? : ∀ id g, m'.findFacet? id = some g ↔
    ∃ f, m.links.isLiveFacet f = true ∧ m.facetId f = id ∧ r.facet f = g
  /-- The links pass the check, and every halfedge of a facet is on its ring. -/
  accepted : m'.links.Accepted
  /-- The regions are what they were, whatever the relation on the ids. -/
  regions : ∀ alike, ∃ report, m.regions alike = .ok report ∧ m'.regions alike = .ok report
  /-- If nothing was deleted, nothing changes. -/
  sameAs : m.links.hasDeleted = false → m'.SameAs m

variable {m : Mesh}

/-- Compaction renames the elements of a mesh. -/
theorem renames_compact (m : Mesh) : m.Renames m.links.renumbering m.compact where
  links := m.links.compact_renames
  liveFacets := Connectivity.liveFacets_compact
  point hv := (vertex_compact hv).2
  facetId := facetId_compact

namespace Indexed

variable (hm : m.Indexed)

include hm

/-- The vertices are found under their new handles. -/
theorem findVertex?_compact (id : ℕ) (w : Vertex) : m.compact.findVertex? id = some w ↔
    ∃ v, m.links.isLiveVertex v = true ∧ m.vertexId v = id ∧ m.links.renumbering.vertex v = w :=
  hm.compact.vertices.renamed (fun _ hv => m.links.compact_renames.vertex_live hv)
    (fun _ hw => m.links.compact_renames.exists_vertex hw) (fun _ hv => (vertex_compact hv).1) id w

/-- The facets are found under their new handles. -/
theorem findFacet?_compact (id : ℕ) (g : Facet) : m.compact.findFacet? id = some g ↔
    ∃ f, m.links.isLiveFacet f = true ∧ m.facetId f = id ∧ m.links.renumbering.facet f = g :=
  hm.compact.facets.renamed (fun _ hf => m.links.compact_renames.facet_live hf)
    (fun _ hg => m.links.compact_renames.exists_facet hg) (fun _ hf => facetId_compact hf) id g

/-- Where nothing is deleted, compaction changes nothing. -/
theorem compact_sameAs (hkept : m.links.hasDeleted = false) : m.compact.SameAs m := by
  obtain ⟨hvertices, -, hfacets⟩ := Connectivity.kept_of_hasDeleted hkept
  have hlinks : m.compact.links = m.links := Connectivity.compact_eq_self hkept
  have hvertexIds : m.compact.vertexIds = m.vertexIds :=
    keepUnmarked_eq_self (by simpa using hvertices) (by simp [hm.size_vertexIds])
  have hfacetIds : m.compact.facetIds = m.facetIds :=
    keepUnmarked_eq_self (by simpa using hfacets) (by simp [hm.size_facetIds])
  refine ⟨hlinks, keepUnmarked_eq_self (by simpa using hvertices) (by simp [hm.size_points]), hvertexIds,
    hfacetIds, ?_, ?_⟩
  -- The lookups are built anew, from the same ids of the same elements.
  · refine Finds.getElem?_eq (hm.compact.vertices.congr (fun v => ?_) fun v _ => ?_) hm.vertices
    · rw [hlinks]
    · rw [vertexId, vertexId, hvertexIds]
  · refine Finds.getElem?_eq (hm.compact.facets.congr (fun f => ?_) fun f _ => ?_) hm.facets
    · rw [hlinks]
    · rw [facetId, facetId, hfacetIds]

end Indexed

/-- Compaction moves the live elements of a mesh together, in storage order, and keeps everything else. -/
theorem compact_effects (hc : m.links.Accepted) (hm : m.Indexed) :
    m.CompactedTo m.links.renumbering m.compact := by
  have hwell := Connectivity.accepted_iff.1 hc
  have hr := m.renames_compact
  constructor
  case hasDeleted => exact Connectivity.hasDeleted_compact
  case vertex => exact fun k v hv => Connectivity.vertex_of_getElem? hv
  case halfedge => exact fun k e he => Connectivity.halfedge_of_getElem? he
  case facet => exact fun k f hf => Connectivity.facet_of_getElem? hf
  case size_vertices => exact Connectivity.size_vertices
  case size_edges => exact Connectivity.size_edges
  case size_facets => exact Connectivity.size_facets
  case refersToLive => exact hwell.refersToLive
  case links => exact hr.links
  case opposite => exact m.links.renumbering.halfedge_opposite
  case vertexId => exact fun v hv => vertex_compact hv
  case facetId => exact fun f hf => facetId_compact hf
  case indexed => exact hm.compact
  case findVertex? => exact hm.findVertex?_compact
  case findFacet? => exact hm.findFacet?_compact
  case accepted => exact Connectivity.accepted_iff.2 (hr.links.wellFormed hwell)
  case regions => exact hr.regions hwell (ringed_of_wellFormed hwell hm.facets.inj)
  case sameAs => exact hm.compact_sameAs

/-- Two triangles with a common edge, after the first one was erased and before the storage is compacted. -/
theorem compact_effects_erasedTriangle :
    let m := (EditorCall.run (EditorCall.erasedTriangle.take 17) {}).mesh
    m.links.hasDeleted = true ∧ m.links.Accepted ∧ m.Indexed ∧
      m.CompactedTo m.links.renumbering m.compact := by
  have horderly : Orderly (EditorCall.erasedTriangle.take 17) := by decide +kernel
  have hdeleted :
      (EditorCall.run (EditorCall.erasedTriangle.take 17) {}).mesh.links.hasDeleted = true := by decide +kernel
  have hm := horderly.sound
  have haccepted := Connectivity.accepted_iff.2 hm.wellFormed
  exact ⟨hdeleted, haccepted, hm.indexed, compact_effects haccepted hm.indexed⟩

end Mesh

end RegionMesh
