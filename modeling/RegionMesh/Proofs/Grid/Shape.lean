import Mathlib.Tactic.Ring
import RegionMesh.Proofs.Connectivity.Checked
import RegionMesh.Proofs.Grid.Built
import RegionMesh.Proofs.Mesh.Adjacency
import RegionMesh.Proofs.Mesh.Mirror

/-!
# The shape of a procedural grid

What its users rely on in the mesh of a grid (`Mesh.IsGrid`), whatever its size, a single row or column included
(`Mesh.exists_grid`). The mesh has the vertices and the cells that were reported in order, and nothing else, so its
sides are those of the cells (`Grid.links_sides`). Which facets are neighbours and how many halfedges are on the border
is then counted on the cells, and the number of edges follows, as every edge has two sides (`Grid.edgeCount_eq`).
-/

namespace RegionMesh

/-- The mesh of a grid of `w` columns and `h` rows of cells. -/
structure Mesh.IsGrid (m : Mesh) (w h : ℕ) : Prop where
  /-- The links pass their check. -/
  checked : m.checkLinks = .ok ()
  /-- The number of vertices. -/
  vertexCount : m.vertexCount = (w + 1) * (h + 1)
  /-- The number of edges. -/
  edgeCount : m.edgeCount = w * (h + 1) + h * (w + 1)
  /-- The number of facets. -/
  facetCount : m.facetCount = w * h
  /-- No vertex is deleted. -/
  vertex_live : ∀ k < (w + 1) * (h + 1), m.links.isLiveVertex ⟨k⟩ = true
  /-- No edge is deleted. -/
  edge_live : ∀ k < w * (h + 1) + h * (w + 1), m.links.isLiveEdge ⟨k⟩ = true
  /-- No facet is deleted. -/
  facet_live : ∀ k < w * h, m.links.isLiveFacet ⟨k⟩ = true
  /-- The id of a vertex is its slot. -/
  vertexId : ∀ k < (w + 1) * (h + 1), m.vertexId ⟨k⟩ = k
  /-- The id of a facet is its slot. -/
  facetId : ∀ i < h, ∀ j < w, m.facetId ⟨i * w + j⟩ = i * w + j
  /-- A facet starts at the first vertex of its cell, and all facets turn the same way. -/
  corners : ∀ i < h, ∀ j < w, m.links.corners ⟨i * w + j⟩ =
    [⟨i * (w + 1) + j⟩, ⟨(i + 1) * (w + 1) + j⟩, ⟨(i + 1) * (w + 1) + j + 1⟩, ⟨i * (w + 1) + j + 1⟩]
  /-- Facets are neighbours if their cells lie side by side. -/
  neighbors : ∀ i < h, ∀ j < w, ∀ i' < h, ∀ j' < w,
    (⟨i' * w + j'⟩ ∈ m.links.neighbors ⟨i * w + j⟩ ↔ |(i : ℤ) - i'| + |(j : ℤ) - j'| = 1)
  /-- Neighbours share one edge. -/
  common_edge : ∀ i < h, ∀ j < w, ∀ i' < h, ∀ j' < w, |(i : ℤ) - i'| + |(j : ℤ) - j'| = 1 →
    ∃! e, e ∈ m.links.edgesOf ⟨i * w + j⟩ ∧ e ∈ m.links.edgesOf ⟨i' * w + j'⟩
  /-- The number of halfedges on the border. -/
  border : m.borderHalfedgeCount = 2 * (w + h)

namespace Grid

variable {w h i j i' j' : ℕ} {m : Mesh}
  (hm : ({} : Mesh).Placed (samples w ((h + 1) * (w + 1))) (cells w (h * w)) m)

include hm

/-- A grid has a row of vertices more than rows of cells, and so for the columns. -/
theorem vertexCount_eq : m.vertexCount = (h + 1) * (w + 1) := by
  rw [hm.vertexCount, length_samples]
  exact Nat.zero_add _

/-- A grid has as many facets as cells. -/
theorem facetCount_eq : m.facetCount = h * w := by
  rw [hm.facetCount, length_cells]
  exact Nat.zero_add _

/-- The facet for a cell. -/
theorem facet_of_place (hi : i < h) (hj : j < w) : m.links.isLiveFacet ⟨i * w + j⟩ = true ∧
    m.facetId ⟨i * w + j⟩ = i * w + j ∧ m.links.corners ⟨i * w + j⟩ = (cornersAt w i j).toList.map Vertex.mk := by
  have hfacet := hm.facet_of_cell (getElem?_cells (place_lt hi hj))
  rwa [cellAt_place i hj] at hfacet

/-- The sides of a facet are those of its cell. -/
theorem mem_cyclicPairs_corners (hi : i < h) (hj : j < w) {x : Vertex × Vertex} :
    x ∈ cyclicPairs (m.links.corners ⟨i * w + j⟩) ↔ (x.1.slot, x.2.slot) ∈ sidesAt w i j := by
  rw [(facet_of_place hm hi hj).2.2]
  exact mem_cyclicPairs_mk

/-- The sides of a facet by id are those of its cell. -/
theorem sideIds_eq (hi : i < h) (hj : j < w) : m.sideIds ⟨i * w + j⟩ = sidesAt w i j := by
  have hids : ∀ c ∈ (cornersAt w i j).toList, (m.vertexId ∘ Vertex.mk) c = c := fun c hc =>
    (hm.vertex_of_sample (getElem?_samples (cornersAt_lt hi hj hc))).2.1
  unfold Mesh.sideIds sidesAt
  rw [(facet_of_place hm hi hj).2.2, List.map_map, List.map_congr_left hids, List.map_id']

/-! ## Neighbours -/

/-- Facets are neighbours if their cells have a side in common. -/
theorem mem_neighbors (hi : i < h) (hj : j < w) (hi' : i' < h) (hj' : j' < w) :
    ⟨i' * w + j'⟩ ∈ m.links.neighbors ⟨i * w + j⟩ ↔ |(i : ℤ) - i'| + |(j : ℤ) - j'| = 1 := by
  rw [hm.sound.mem_neighbors_iff (facet_of_place hm hi hj).1 (facet_of_place hm hi' hj').1, sideIds_eq hm hi hj,
    sideIds_eq hm hi' hj', shareSide_iff hj hj']

/-- Facets whose cells lie side by side share one edge. -/
theorem existsUnique_edge (hi : i < h) (hj : j < w) (hi' : i' < h) (hj' : j' < w)
    (hbeside : |(i : ℤ) - i'| + |(j : ℤ) - j'| = 1) :
    ∃! e, e ∈ m.links.edgesOf ⟨i * w + j⟩ ∧ e ∈ m.links.edgesOf ⟨i' * w + j'⟩ := by
  have hf := (facet_of_place hm hi hj).1
  have hg := (facet_of_place hm hi' hj').1
  have hne : (⟨i * w + j⟩ : Facet) ≠ ⟨i' * w + j'⟩ := by
    intro he
    have hplace : i * w + j = i' * w + j' := Facet.mk.inj he
    obtain rfl : i = i' := by rw [← place_row i hj, ← place_row i' hj', hplace]
    obtain rfl : j = j' := Nat.add_left_cancel hplace
    simp at hbeside
  -- Facets with one common side have one common edge, and two cells side by side have one common side.
  refine hm.sound.wellFormed.existsUnique_edge hm.sound.simple hf hg hne ?_
  obtain ⟨⟨a, b⟩, hx, hx'⟩ := (shareSide_iff hj hj').2 hbeside
  refine ⟨(⟨a⟩, ⟨b⟩), ⟨(mem_cyclicPairs_corners hm hi hj).2 hx, (mem_cyclicPairs_corners hm hi' hj').2 hx'⟩, ?_⟩
  rintro ⟨⟨a'⟩, ⟨b'⟩⟩ ⟨hy, hy'⟩
  have hsame := shareSide_unique hj hj' hx hx' ((mem_cyclicPairs_corners hm hi hj).1 hy)
    ((mem_cyclicPairs_corners hm hi' hj').1 hy')
  obtain ⟨rfl, rfl⟩ := Prod.mk.inj hsame
  rfl

/-! ## The border -/

/-- All facets are live. -/
theorem liveFacets_eq : m.links.liveFacets = (List.range (h * w)).map Facet.mk := by
  have hsize : m.links.facets.size = h * w := facetCount_eq hm
  unfold Connectivity.liveFacets
  rw [hsize]
  refine List.filter_eq_self.2 fun f hf => ?_
  obtain ⟨k, hk, rfl⟩ := List.mem_map.1 hf
  exact (hm.facet_of_cell (getElem?_cells (List.mem_range.1 hk))).1

/-- The sides of the facets are those of the cells. -/
theorem links_sides : m.links.sides = (sides w h).map (Prod.map Vertex.mk Vertex.mk) := by
  unfold Connectivity.sides sides
  rw [liveFacets_eq hm, List.flatMap_map, List.map_flatMap]
  refine List.flatMap_congr fun k hk => ?_
  rw [(hm.facet_of_cell (getElem?_cells (List.mem_range.1 hk))).2.2, cyclicPairs_map]

/-- The border runs once around the grid. -/
theorem borderHalfedgeCount_eq (hw : 0 < w) (hh : 0 < h) : m.borderHalfedgeCount = 2 * (w + h) := by
  -- The sides of the mesh are those of the grid, with vertices for places.
  have hswap : ∀ x : ℕ × ℕ, (Prod.map Vertex.mk Vertex.mk x).swap ∈ m.links.sides ↔ x.swap ∈ sides w h := by
    intro x
    have hinj : Function.Injective (Prod.map Vertex.mk Vertex.mk) :=
      Function.Injective.prodMap (fun a b he => Vertex.mk.inj he) fun a b he => Vertex.mk.inj he
    rw [links_sides hm]
    change Prod.map Vertex.mk Vertex.mk x.swap ∈ _ ↔ _
    exact List.mem_map_of_injective hinj
  calc m.borderHalfedgeCount
      = m.links.sides.countP (fun x => x.swap ∉ m.links.sides) := by
        rw [hm.sound.borderHalfedgeCount_eq, List.countP_eq_length_filter]
    _ = ((sides w h).map (Prod.map Vertex.mk Vertex.mk)).countP (fun x => x.swap ∉ m.links.sides) := by
        rw [← links_sides hm]
    _ = (sides w h).countP (fun x => x.swap ∉ sides w h) := by
        rw [List.countP_map]
        exact List.countP_congr fun x _ => by simp [hswap]
    _ = 2 * (w + h) := countP_sides hw hh

/-! ## Edges -/

/-- All edges are live. -/
theorem isLiveEdge (e : Edge) (he : e.slot < m.edgeCount) : m.links.isLiveEdge e = true :=
  hm.liveEdges e (Nat.zero_le _) he

/-- Every cell has four sides, and every edge belongs to two cells or to one and the border. -/
theorem edgeCount_eq (hw : 0 < w) (hh : 0 < h) : m.edgeCount = w * (h + 1) + h * (w + 1) := by
  have hedges : m.links.liveEdges.length = m.edgeCount := by
    unfold Connectivity.liveEdges
    rw [List.filter_eq_self.2, List.length_map, List.length_range]
    · rfl
    · intro e he
      obtain ⟨k, hk, rfl⟩ := List.mem_map.1 he
      exact isLiveEdge hm ⟨k⟩ (List.mem_range.1 hk)
  have hvalences : (m.links.liveFacets.map m.links.facetValence).sum = 4 * (h * w) := by
    have hfour : ∀ k ∈ List.range (h * w), (m.links.facetValence ∘ Facet.mk) k = 4 := by
      intro k hk
      have hcorners := (hm.facet_of_cell (getElem?_cells (List.mem_range.1 hk))).2.2
      rw [Function.comp_apply, Connectivity.facetValence, ← List.length_map m.links.head]
      exact congrArg List.length hcorners
    rw [liveFacets_eq hm, List.map_map, List.map_congr_left hfour, List.map_const', List.sum_replicate,
      List.length_range, smul_eq_mul, Nat.mul_comm]
  -- Twice the edges are the halfedges, of which four belong to each cell and the others are on the border.
  have htwo := hm.sound.two_mul_liveEdges
  rw [hedges, hvalences, borderHalfedgeCount_eq hm hw hh] at htwo
  have hcells : w * (h + 1) + h * (w + 1) = 2 * (h * w) + (w + h) := by ring
  omega

end Grid

/-- A grid with at least one cell is built without a failure, and has its shape. -/
theorem Mesh.exists_grid {w h : ℕ} (hw : 1 ≤ w) (hh : 1 ≤ h) : ∃ m, Mesh.grid w h = .ok m ∧ m.IsGrid w h := by
  obtain ⟨m, hgrid, hm⟩ := Grid.exists_placed hw hh
  -- The statement counts columns first, and the storage counts rows first.
  have hvertices : (w + 1) * (h + 1) = (h + 1) * (w + 1) := Nat.mul_comm _ _
  have hedges := Grid.edgeCount_eq hm hw hh
  refine ⟨m, hgrid, {
    checked := hm.sound.checkLinks_eq_ok
    vertexCount := (Grid.vertexCount_eq hm).trans hvertices.symm
    edgeCount := hedges
    facetCount := (Grid.facetCount_eq hm).trans (Nat.mul_comm h w)
    vertex_live := fun k hk => (hm.vertex_of_sample (Grid.getElem?_samples (hvertices ▸ hk))).1
    edge_live := fun k hk => Grid.isLiveEdge hm ⟨k⟩ (hedges ▸ hk)
    facet_live := fun k hk => (hm.facet_of_cell (Grid.getElem?_cells (Nat.mul_comm w h ▸ hk))).1
    vertexId := fun k hk => (hm.vertex_of_sample (Grid.getElem?_samples (hvertices ▸ hk))).2.1
    facetId := fun i hi j hj => (Grid.facet_of_place hm hi hj).2.1
    corners := fun i hi j hj => (Grid.facet_of_place hm hi hj).2.2
    neighbors := fun i hi j hj i' hi' j' hj' => Grid.mem_neighbors hm hi hj hi' hj'
    common_edge := fun i hi j hj i' hi' j' hj' hbeside => Grid.existsUnique_edge hm hi hj hi' hj' hbeside
    border := Grid.borderHalfedgeCount_eq hm hw hh }⟩

/-- Among others, a grid three cells wide and two cells high, and a single cell. -/
theorem Mesh.exists_grid_threeByTwo : (1 ≤ 3 ∧ 1 ≤ 2 ∧ ∃ m, Mesh.grid 3 2 = .ok m ∧ m.IsGrid 3 2) ∧
    ∃ m, Mesh.grid 1 1 = .ok m ∧ m.IsGrid 1 1 :=
  ⟨⟨by decide, by decide, Mesh.exists_grid (by decide) (by decide)⟩, Mesh.exists_grid (by decide) (by decide)⟩

end RegionMesh
