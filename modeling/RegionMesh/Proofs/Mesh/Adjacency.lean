import RegionMesh.Proofs.Connectivity.Adjacency
import RegionMesh.Proofs.Editor.Orderly

/-!
# Adjacency in meshes

Which facets of a mesh lie side by side, and which of its halfedges are on the border, can be read off the lists of
corners alone (`Mesh.AdjacencyByCorners`). This holds of every mesh that an orderly run builds
(`Orderly.adjacencyByCorners`), although its halfedges are linked, deleted and moved in many ways.
-/

namespace RegionMesh

namespace Mesh

/-- The lists of corners say how the elements of a mesh lie to each other. -/
structure AdjacencyByCorners (m : Mesh) : Prop where
  /-- Two vertices are joined by one edge at most. -/
  edge_unique : ∀ g h, m.links.IsLive g → m.links.IsLive h →
    (m.links.ends g = m.links.ends h ∨ m.links.ends g = (m.links.ends h).swap) → g.edge = h.edge
  /-- Every edge has a facet on one of its sides. -/
  edge_faced : ∀ e, m.links.isLiveEdge e = true → ∃ h, h.edge = e ∧ m.links.isBorder h = false
  /-- Between consecutive corners of a facet there is one halfedge of its ring. Its opposite has the facet with
  these corners in the other direction, and is on the border if there is none. -/
  across : ∀ f, m.links.isLiveFacet f = true → ∀ a b, (a, b) ∈ cyclicPairs (m.links.corners f) →
    ∃ h ∈ (m.links.ring f).path, m.links.ends h = (a, b) ∧
      (∀ h' ∈ (m.links.ring f).path, m.links.ends h' = (a, b) → h' = h) ∧
      (∀ g, m.links.facetOf h.opposite = some g ↔
        m.links.isLiveFacet g = true ∧ (b, a) ∈ cyclicPairs (m.links.corners g)) ∧
      (m.links.isBorder h.opposite = true ↔
        ∀ g, m.links.isLiveFacet g = true → (b, a) ∉ cyclicPairs (m.links.corners g))
  /-- The neighbours of a facet are the facets that have its pairs of consecutive corners in the other direction,
  in the order of its ring, which starts with the pair that comes back to the first corner. -/
  neighbors : ∀ f, m.links.isLiveFacet f = true → m.links.neighbors f =
    ((cyclicPairs (m.links.corners f)).rotate (m.links.facetValence f - 1)).filterMap fun x =>
      m.links.facetAlong x.swap
  /-- The facet that has a pair of consecutive corners is found. -/
  facetAlong : ∀ f x, m.links.facetAlong x = some f ↔
    m.links.isLiveFacet f = true ∧ x ∈ cyclicPairs (m.links.corners f)
  /-- There are as many halfedges with a facet as there are corners of facets. -/
  interior : m.summary.interiorHalfedges = (m.links.liveFacets.map m.links.facetValence).sum
  /-- No pair of consecutive corners is listed twice. -/
  nodup : m.links.sides.Nodup
  /-- There are as many halfedges on the border as there are pairs of consecutive corners that no facet has in the
  other direction. -/
  border : m.summary.borderHalfedges = (m.links.sides.filter fun x => x.swap ∉ m.links.sides).length
  /-- The facets on the border are those with such a pair. -/
  borderFacets : m.summary.borderFacets = (m.links.liveFacets.filter fun f =>
    ∃ x ∈ cyclicPairs (m.links.corners f), x.swap ∉ m.links.sides).map m.facetId

namespace Sound

variable {m : Mesh} (hm : m.Sound)

include hm

/-- The halfedges on the border are as many as the sides that no facet has in the other direction. -/
theorem borderHalfedgeCount_eq :
    m.borderHalfedgeCount = (m.links.sides.filter fun x => x.swap ∉ m.links.sides).length := by
  have hlen := (hm.wellFormed.border_perm hm.simple hm.nodup).length_eq
  calc m.borderHalfedgeCount = (m.links.liveHalfedges.filter m.links.isBorder).length :=
        List.countP_eq_length_filter
    _ = ((m.links.liveHalfedges.filter m.links.isBorder).map fun h => (m.links.ends h).swap).length :=
        (List.length_map _).symm
    _ = (m.links.sides.filter fun x => x.swap ∉ m.links.sides).length := hlen

/-- The halfedges that are not on the border are as many as the sides of the facets. -/
theorem interiorHalfedges_eq :
    m.summary.interiorHalfedges = (m.links.liveFacets.map m.links.facetValence).sum := by
  have hlen := (hm.wellFormed.interior_perm hm.simple hm.nodup).length_eq
  rw [List.length_map, ← List.countP_eq_length_filter] at hlen
  have hsum := m.links.liveHalfedges.length_eq_countP_add_countP m.links.isBorder
  -- Every side of a facet is counted at the corner where it starts.
  have hsides : m.links.sides.length = (m.links.liveFacets.map m.links.facetValence).sum := by
    unfold Connectivity.sides
    rw [List.length_flatMap]
    congr 1
    refine List.map_congr_left fun f _ => ?_
    rw [length_cyclicPairs, Connectivity.corners, List.length_map, Connectivity.facetValence]
  calc m.summary.interiorHalfedges
      = m.links.liveHalfedges.length - m.links.liveHalfedges.countP m.links.isBorder := rfl
    _ = m.links.liveHalfedges.countP fun h => !m.links.isBorder h := by
        rw [hsum, Nat.add_sub_cancel_left]
        exact List.countP_congr fun h _ => by simp
    _ = m.links.sides.length := hlen
    _ = (m.links.liveFacets.map m.links.facetValence).sum := hsides

/-- Every edge has two sides, each of which has a facet or is on the border. -/
theorem two_mul_liveEdges :
    2 * m.links.liveEdges.length = (m.links.liveFacets.map m.links.facetValence).sum + m.borderHalfedgeCount := by
  have hborder : m.borderHalfedgeCount ≤ m.links.liveHalfedges.length := List.countP_le_length
  have hsides : m.links.liveHalfedges.length = 2 * m.links.liveEdges.length := by
    simp [Connectivity.liveHalfedges, List.length_flatMap, Edge.sides, Nat.mul_comm]
  have hinterior : m.links.liveHalfedges.length - m.borderHalfedgeCount = _ := hm.interiorHalfedges_eq
  omega

/-- A facet is on the border if no facet has one of its sides in the other direction. -/
theorem touchesBorder_eq {f : Facet} (hf : m.links.isLiveFacet f = true) :
    m.touchesBorder f = decide (∃ x ∈ cyclicPairs (m.links.corners f), x.swap ∉ m.links.sides) := by
  have hring := hm.wellFormed.ringOf hf
  rw [Bool.eq_iff_iff, decide_eq_true_iff]
  unfold touchesBorder
  rw [List.any_eq_true]
  -- A halfedge of the facet has its opposite on the border if no facet has the pair the other way round.
  constructor
  · rintro ⟨h, hh, hborder⟩
    obtain ⟨hlive, hhf⟩ := (hring.mem h).1 hh
    refine ⟨m.links.ends h, hm.wellFormed.ends_mem hlive hhf, ?_⟩
    rw [← Connectivity.ends_opposite, ← hm.wellFormed.facetOf_eq_none hm.simple (h := h.opposite) hlive]
    exact (Connectivity.isBorder_iff _).1 hborder
  · rintro ⟨x, hx, hswap⟩
    obtain ⟨h, hlive, hhf, rfl⟩ := (hm.wellFormed.mem_cyclicPairs_corners hf).1 hx
    refine ⟨h, (hring.mem h).2 ⟨hlive, hhf⟩, (Connectivity.isBorder_iff _).2 ?_⟩
    rwa [hm.wellFormed.facetOf_eq_none hm.simple (h := h.opposite) hlive, Connectivity.ends_opposite]

/-- The corners of a sound mesh say how its elements lie to each other. -/
theorem adjacency : m.AdjacencyByCorners := by
  have hc := hm.wellFormed
  have hs := hm.simple
  refine ⟨?_, ?_, ?_, fun f hf => hc.neighbors_eq hs hf, fun f x => hc.facetAlong_eq_some hs,
    hm.interiorHalfedges_eq, hc.nodup_sides hs hm.nodup, hm.borderHalfedgeCount_eq, ?_⟩
  · rintro g h hg hh (he | he)
    · rw [hs.ends_inj hg hh he]
    · rw [← Connectivity.ends_opposite] at he
      rw [hs.ends_inj (h := h.opposite) hg hh he, Halfedge.edge_opposite]
  · -- One of the two sides has a facet.
    intro e he
    by_cases hside : m.links.facetOf (e.side false) = none
    · refine ⟨(e.side false).opposite, rfl, ?_⟩
      have hfaced := hs.faced (h := e.side false) he hside
      rwa [Bool.eq_false_iff, Ne, Connectivity.isBorder_iff]
    · refine ⟨e.side false, rfl, ?_⟩
      rwa [Bool.eq_false_iff, Ne, Connectivity.isBorder_iff]
  · intro f hf a b hab
    have hring := hc.ringOf hf
    obtain ⟨h, hh, hhf, hends⟩ := (hc.mem_cyclicPairs_corners hf).1 hab
    have hswap : m.links.ends h.opposite = (b, a) := by
      rw [Connectivity.ends_opposite, hends]
      rfl
    refine ⟨h, (hring.mem h).2 ⟨hh, hhf⟩, hends, fun h' hh' he => ?_, fun g => ?_, ?_⟩
    · exact hs.ends_inj ((hring.mem h').1 hh').1 hh (he.trans hends.symm)
    · rw [hc.facetOf_eq_some hs (h := h.opposite) hh, hswap]
    · rw [Connectivity.isBorder_iff, hc.facetOf_eq_none hs (h := h.opposite) hh, hswap,
        Connectivity.mem_sides_iff_corners]
      simp only [not_exists, not_and]
  · change (m.links.liveFacets.filter m.touchesBorder).map m.facetId = _
    congr 1
    exact List.filter_congr fun f hf => hm.touchesBorder_eq (Connectivity.mem_liveFacets.1 hf)

end Sound

end Mesh

/-- After an orderly run the corners of the facets say which edges there are, which facets lie side by side, and
which halfedges and facets are on the border. -/
theorem Orderly.adjacencyByCorners {calls : List EditorCall} (h : Orderly calls) :
    (EditorCall.run calls {}).mesh.AdjacencyByCorners :=
  h.sound.adjacency

/-- Of two triangles one is erased again. -/
theorem erasedTriangle_adjacencyByCorners : Orderly EditorCall.erasedTriangle ∧
    (EditorCall.run EditorCall.erasedTriangle {}).mesh.AdjacencyByCorners := by
  have h : Orderly EditorCall.erasedTriangle := by decide +kernel
  exact ⟨h, h.adjacencyByCorners⟩

end RegionMesh
