import RegionMesh.Mesh.Summary
import RegionMesh.Proofs.Connectivity.Accepted
import RegionMesh.Proofs.Editor.Orderly

/-!
# Edges seen from both sides

The facets on the two sides of an edge are neighbours of each other if each has the edge on its ring. The check of the
links does not ask for that: it follows the ring of a facet from its start, and every other loop on its own, so the
halfedges of one facet may lie on two loops (`twoLoops`). A halfedge on the second one is never met on the ring.

Where the halfedges of every facet form one loop, consistent links are in order (`Consistent.wellFormed`). On links that
pass the check this is also necessary for the rings to hold all halfedges, and then every edge between two facets is
seen as often from the one as from the other (`Mesh.seenFromBothSides_iff`).
-/

namespace RegionMesh

namespace Connectivity

variable {c : Connectivity}

namespace WellFormed

variable {f g : Facet}

/-- How often a facet sees another one is how many of its halfedges are opposite to one of the other. -/
theorem count_neighbors (f g : Facet) : (c.neighbors f).count g =
    ((c.ring f).path.filter fun h => c.facetOf h.opposite = some g).length := by
  unfold neighbors
  rw [List.count, List.countP_filterMap, List.countP_eq_length_filter]
  congr 2
  funext h
  cases c.facetOf h.opposite <;> simp [beq_eq_decide]

/-- Two facets see each other equally often. -/
theorem count_neighbors_comm (hc : c.WellFormed) (hf : c.isLiveFacet f = true) (hg : c.isLiveFacet g = true) :
    (c.neighbors f).count g = (c.neighbors g).count f := by
  -- The opposites of the halfedges of `f` along `g` are those of `g` along `f`.
  have hperm : (((c.ring f).path.filter fun h => c.facetOf h.opposite = some g).map Halfedge.opposite).Perm
      ((c.ring g).path.filter fun h => c.facetOf h.opposite = some f) := by
    have hnodup := (hc.ringOf hf).orbit.nodup.filter fun h => c.facetOf h.opposite = some g
    refine (List.perm_ext_iff_of_nodup (hnodup.map fun _ _ => Halfedge.opposite_inj.1)
      ((hc.ringOf hg).orbit.nodup.filter _)).2 fun h => ?_
    simp only [List.mem_map, List.mem_filter, (hc.ringOf hf).mem, (hc.ringOf hg).mem, decide_eq_true_eq]
    constructor
    · rintro ⟨k, ⟨⟨hk, hkf⟩, hkg⟩, rfl⟩
      exact ⟨⟨hk, hkg⟩, by rwa [Halfedge.opposite_opposite]⟩
    · rintro ⟨⟨hh, hhg⟩, hhf⟩
      exact ⟨h.opposite, ⟨⟨hh, hhf⟩, by rwa [Halfedge.opposite_opposite]⟩, Halfedge.opposite_opposite h⟩
  rw [count_neighbors, count_neighbors, ← hperm.length_eq, List.length_map]

end WellFormed

end Connectivity

namespace Mesh

/-- The rings hold all halfedges of their facets, and two facets see each other equally often. -/
structure SeenFromBothSides (m : Mesh) : Prop where
  /-- A halfedge with a facet is on its ring. -/
  onRing : ∀ h f, m.links.IsLive h → m.links.facetOf h = some f → h ∈ (m.links.ring f).path
  /-- A facet is among the neighbours of another one as often as this one among its own. -/
  count : ∀ f g, m.links.isLiveFacet f = true → m.links.isLiveFacet g = true →
    (m.links.neighbors f).count g = (m.links.neighbors g).count f

variable {m : Mesh}

/-- On a mesh that passes its check, edges are seen from both sides exactly if no facet's halfedges lie on two loops. -/
theorem seenFromBothSides_iff (hlinks : m.checkLinks = .ok ()) :
    m.SeenFromBothSides ↔ m.links.OneLoopEach := by
  have hc : m.links.Consistent := Connectivity.consistent_of_check hlinks
  constructor
  · exact fun hseen => hc.oneLoopEach hseen.onRing
  · intro hone
    have hwf := hc.wellFormed hone
    refine ⟨fun h f hh hf => ?_, fun f g hf hg => hwf.count_neighbors_comm hf hg⟩
    exact ((hwf.ringOf (hwf.facet_live hh hf)).mem h).2 ⟨hh, hf⟩

/-- Two triangles with a common edge. -/
theorem seenFromBothSides_triangles :
    let m := (EditorCall.run (EditorCall.erasedTriangle.take 16) {}).mesh
    m.checkLinks = .ok () ∧ m.links.OneLoopEach ∧ m.SeenFromBothSides := by
  have horderly : Orderly (EditorCall.erasedTriangle.take 16) := by decide +kernel
  have hm := horderly.sound
  have hone := hm.wellFormed.consistent.oneLoopEach fun h f hh hf =>
    ((hm.wellFormed.ringOf (hm.wellFormed.facet_live hh hf)).mem h).2 ⟨hh, hf⟩
  exact ⟨hm.checkLinks_eq_ok, hone, (seenFromBothSides_iff hm.checkLinks_eq_ok).2 hone⟩

/-- Two triangles with a common corner that count as one facet, and a second facet along an edge of the one that is not
its ring. The links come from a ring of six corners that is cut in two at the corner where it meets itself. -/
def twoLoops : Mesh :=
  let vertices := (List.range 8).foldl (fun c _ => c.addVertex.2) ({} : Connectivity)
  let add (c : Connectivity) (corners : List Nat) := (Connectivity.addFacet (corners.map Vertex.mk) c).2
  -- A corner may repeat only if it has halfedges already, so a triangle that is deleted again comes first.
  let whole := [[0, 6, 7], [0, 1, 2, 0, 3, 4]].foldl add vertices
  let cut := [(10, 6), (16, 12), (1, 11), (7, 17), (13, 5)].foldl
    (fun c (p, n) => c.link (.ofPosition p) (.ofPosition n)) whole
  { links := add (cut.deleteFacet ⟨0⟩).compact [2, 1, 5]
    points := .replicate 6 .origin
    vertexIds := #[0, 1, 2, 3, 4, 5]
    facetIds := #[0, 1]
    vertexById := lookupBySlot Vertex.mk #[0, 1, 2, 3, 4, 5]
    facetById := lookupBySlot Facet.mk #[0, 1] }

/-- All handles of the mesh are in range, and both checks pass, but a halfedge of the first facet is not on its
ring, and the first facet does not see the second one, which sees it. -/
theorem not_seenFromBothSides_twoLoops :
    twoLoops.links.inRange = true ∧ twoLoops.checkLinks = .ok () ∧ twoLoops.checkFacetIds = .ok () ∧
      (let h : Halfedge := .ofPosition 0
       twoLoops.links.isLiveEdge h.edge = true ∧ twoLoops.links.facetOf h = some ⟨0⟩ ∧
         h ∉ (twoLoops.links.ring ⟨0⟩).path) ∧
      twoLoops.links.isLiveFacet ⟨0⟩ = true ∧ twoLoops.links.isLiveFacet ⟨1⟩ = true ∧
      twoLoops.links.neighbors ⟨0⟩ = [] ∧ twoLoops.links.neighbors ⟨1⟩ = [⟨0⟩] ∧
      ¬ twoLoops.SeenFromBothSides := by
  -- Halfedge 0 is on the second loop, which the walk from the start of the facet does not enter.
  have hlive : twoLoops.links.isLiveEdge (Halfedge.ofPosition 0).edge = true := by decide +kernel
  have hfacet : twoLoops.links.facetOf (.ofPosition 0) = some ⟨0⟩ := by decide +kernel
  have hoff : .ofPosition 0 ∉ (twoLoops.links.ring ⟨0⟩).path := by decide +kernel
  refine ⟨by decide +kernel, by decide +kernel, by decide +kernel, ⟨hlive, hfacet, hoff⟩, by decide +kernel,
    by decide +kernel, by decide +kernel, by decide +kernel, fun hseen => ?_⟩
  exact hoff (hseen.onRing _ _ hlive hfacet)

end Mesh

end RegionMesh
