import Mathlib.Data.Set.Function
import Mathlib.Data.Sym.Sym2
import RegionMesh.Proofs.Connectivity.Adjacency
import RegionMesh.Proofs.Mesh.Sound

/-!
# Meshes that mirror each other

Two meshes may have the same shape although their elements are stored in different places, their facets have different
ids, and all facets turn the other way: then one of them is the other one seen from behind (`Mesh.Mirrors`). Sound
meshes mirror each other along a bijection of their facets if they have the same vertex ids, and the consecutive corners
of a facet are those of its counterpart, turned round (`Mesh.Turned.mirrors`).

The reason is that all the rest can be read off the ids of consecutive corners (`Mesh.sideIds`), which do not depend on
where elements are stored: which facets are neighbours (`Sound.mem_neighbors_iff`), which edges there are
(`Sound.exists_edge_iff`), which of them belong to a facet (`Sound.edgeIds_perm`), and which are on the border
(`Sound.isBorderEdge_iff`). None of these changes when all sides are turned round.
-/

namespace RegionMesh

/-- Lists without repetitions whose pairs are those of each other turned round have the same elements. -/
theorem perm_of_swap_mem_cyclicPairs {α : Type} {l l' : List α} (hl : l.Nodup) (hl' : l'.Nodup)
    (h : ∀ x, x ∈ cyclicPairs l ↔ x.swap ∈ cyclicPairs l') : l.Perm l' := by
  refine (List.perm_ext_iff_of_nodup hl hl').2 fun a => ⟨fun ha => ?_, fun ha => ?_⟩
  · obtain ⟨b, hab⟩ := exists_successor ha
    exact (mem_of_mem_cyclicPairs ((h _).1 hab)).2
  · obtain ⟨b, hba⟩ := exists_predecessor ha
    exact (mem_of_mem_cyclicPairs ((h (a, b)).2 hba)).1

namespace Mesh

variable (m : Mesh)

/-! ## Ids of sides and edges -/

/-- The ids of the vertices that a halfedge joins. -/
def idsOf (h : Halfedge) : ℕ × ℕ := Prod.map m.vertexId m.vertexId (m.links.ends h)

/-- The ids of the vertices that an edge joins, in no order. -/
def edgeIds (e : Edge) : Sym2 ℕ := s((m.idsOf (e.side false)).1, (m.idsOf (e.side false)).2)

/-- The pairs of ids of consecutive corners of a facet. -/
def sideIds (f : Facet) : List (ℕ × ℕ) := cyclicPairs ((m.links.corners f).map m.vertexId)

/-- The opposite of a halfedge joins the same ids the other way round. -/
@[simp]
theorem idsOf_opposite (h : Halfedge) : m.idsOf h.opposite = (m.idsOf h).swap := by
  unfold idsOf
  rw [Connectivity.ends_opposite]
  rfl

/-- Either side of an edge tells the ids of its vertices. -/
theorem edgeIds_edge (h : Halfedge) : m.edgeIds h.edge = s((m.idsOf h).1, (m.idsOf h).2) := by
  unfold edgeIds
  rcases Halfedge.eq_or_eq_opposite (g := h) (h := h.edge.side false) rfl with he | he
  · rw [← he]
  · rw [he, idsOf_opposite]
    exact Sym2.eq_swap

/-- The two orders of the ids of an edge belong to its two sides. -/
theorem eq_edgeIds_iff {e : Edge} {x : ℕ × ℕ} : s(x.1, x.2) = m.edgeIds e ↔ ∃ h, h.edge = e ∧ m.idsOf h = x := by
  constructor
  · intro hx
    rcases Sym2.mk_eq_mk_iff.1 hx with rfl | rfl
    · exact ⟨e.side false, rfl, rfl⟩
    · exact ⟨(e.side false).opposite, rfl, m.idsOf_opposite _⟩
  · rintro ⟨h, rfl, rfl⟩
    exact (m.edgeIds_edge h).symm

/-- A map gives every facet a counterpart that has its sides, turned round. -/
structure Turned (m m' : Mesh) (φ : Facet → Facet) : Prop where
  /-- Every facet has its counterpart. -/
  facets : Set.BijOn φ {f | m.links.isLiveFacet f = true} {f | m'.links.isLiveFacet f = true}
  /-- The facets turn the other way. -/
  sides : ∀ f, m.links.isLiveFacet f = true → ∀ x, x ∈ m.sideIds f ↔ x.swap ∈ m'.sideIds (φ f)

/-- A mesh is another one seen from behind, where a map tells which facet is which. -/
structure Mirrors (m m' : Mesh) (φ : Facet → Facet) : Prop extends Turned m m' φ where
  /-- The vertices have the same ids. -/
  vertices : (m.links.liveVertices.map m.vertexId).Perm (m'.links.liveVertices.map m'.vertexId)
  /-- The edges join vertices with the same ids. -/
  edges : (m.links.liveEdges.map m.edgeIds).Perm (m'.links.liveEdges.map m'.edgeIds)
  /-- The corners of a facet have the same ids. -/
  corners : ∀ f, m.links.isLiveFacet f = true →
    ((m.links.corners f).map m.vertexId).Perm ((m'.links.corners (φ f)).map m'.vertexId)
  /-- The neighbours of a facet are the same. -/
  neighbors : ∀ f g, m.links.isLiveFacet f = true → m.links.isLiveFacet g = true →
    (g ∈ m.links.neighbors f ↔ φ g ∈ m'.links.neighbors (φ f))
  /-- The edges of a facet are the same. -/
  facetEdges : ∀ f, m.links.isLiveFacet f = true →
    ((m.links.edgesOf f).map m.edgeIds).Perm ((m'.links.edgesOf (φ f)).map m'.edgeIds)
  /-- The same edges are on the border. -/
  border : ∀ e e', m.links.isLiveEdge e = true → m'.links.isLiveEdge e' = true → m.edgeIds e = m'.edgeIds e' →
    m.links.isBorderEdge e = m'.links.isBorderEdge e'

/-! ## What the sides of the facets tell -/

namespace Sound

variable {m} (hm : m.Sound)

include hm

/-- Halfedges are known by the ids of the vertices that they join. -/
theorem idsOf_inj {g h : Halfedge} (hg : m.links.IsLive g) (hh : m.links.IsLive h) (he : m.idsOf g = m.idsOf h) :
    g = h := by
  obtain ⟨htail, hhead⟩ := Prod.mk.inj he
  have hc := hm.wellFormed
  exact hm.simple.unique hg hh (hm.vertices.inj (hc.tail_live hg) (hc.tail_live hh) htail)
    (hm.vertices.inj (hc.head_live hg) (hc.head_live hh) hhead)

/-- The corners of a facet have different ids. -/
theorem nodup_cornerIds {f : Facet} (hf : m.links.isLiveFacet f = true) :
    ((m.links.corners f).map m.vertexId).Nodup :=
  hm.nodup_map_vertexId (fun _ hv => hm.corner_live hf hv) (hm.nodup f hf)

/-- No pair of ids is a side of a facet twice. -/
theorem nodup_sideIds {f : Facet} (hf : m.links.isLiveFacet f = true) : (m.sideIds f).Nodup :=
  nodup_cyclicPairs (hm.nodup_cornerIds hf)

/-- The sides of a facet are those of its halfedges. -/
theorem sideIds_perm {f : Facet} (hf : m.links.isLiveFacet f = true) :
    (m.sideIds f).Perm ((m.links.ring f).path.map m.idsOf) := by
  have hring := (hm.wellFormed.cyclicPairs_corners hf) ▸ successors_perm ((m.links.ring f).path.map m.links.ends)
  have hids := hring.map (Prod.map m.vertexId m.vertexId)
  rw [List.map_map] at hids
  unfold sideIds
  rwa [cyclicPairs_map]

/-- The sides of a facet are what its halfedges join. -/
theorem mem_sideIds {f : Facet} (hf : m.links.isLiveFacet f = true) {x : ℕ × ℕ} :
    x ∈ m.sideIds f ↔ ∃ h, m.links.IsLive h ∧ m.links.facetOf h = some f ∧ m.idsOf h = x := by
  rw [(hm.sideIds_perm hf).mem_iff, List.mem_map]
  simp only [(hm.wellFormed.ringOf hf).mem, and_assoc]

/-- A halfedge has a facet if the ids that it joins are consecutive there. -/
theorem facetOf_iff {f : Facet} {h : Halfedge} (hh : m.links.IsLive h) :
    m.links.facetOf h = some f ↔ m.links.isLiveFacet f = true ∧ m.idsOf h ∈ m.sideIds f := by
  constructor
  · intro hhf
    have hf := hm.wellFormed.facet_live hh hhf
    exact ⟨hf, (hm.mem_sideIds hf).2 ⟨h, hh, hhf, rfl⟩⟩
  · rintro ⟨hf, hmem⟩
    obtain ⟨g, hg, hgf, he⟩ := (hm.mem_sideIds hf).1 hmem
    rwa [← hm.idsOf_inj hg hh he]

/-- Facets are on the two sides of an edge if one has a side of the other turned round. -/
theorem exists_across_iff {f g : Facet} (hf : m.links.isLiveFacet f = true) (hg : m.links.isLiveFacet g = true) :
    (∃ h, m.links.IsLive h ∧ m.links.facetOf h = some f ∧ m.links.facetOf h.opposite = some g) ↔
      ∃ x ∈ m.sideIds f, x.swap ∈ m.sideIds g := by
  constructor
  · rintro ⟨h, hh, hhf, hhg⟩
    exact ⟨m.idsOf h, ((hm.facetOf_iff hh).1 hhf).2,
      m.idsOf_opposite h ▸ ((hm.facetOf_iff (h := h.opposite) hh).1 hhg).2⟩
  · rintro ⟨x, hx, hswap⟩
    obtain ⟨h, hh, hhf, rfl⟩ := (hm.mem_sideIds hf).1 hx
    rw [← idsOf_opposite] at hswap
    exact ⟨h, hh, hhf, (hm.facetOf_iff (h := h.opposite) hh).2 ⟨hg, hswap⟩⟩

/-- Two facets are neighbours if a side of the one is a side of the other one, turned round. -/
theorem mem_neighbors_iff {f g : Facet} (hf : m.links.isLiveFacet f = true) (hg : m.links.isLiveFacet g = true) :
    g ∈ m.links.neighbors f ↔ ∃ x ∈ m.sideIds f, x.swap ∈ m.sideIds g := by
  rw [← hm.exists_across_iff hf hg]
  unfold Connectivity.neighbors
  simp only [List.mem_filterMap, (hm.wellFormed.ringOf hf).mem, and_assoc]

/-- There is an edge for every side of a facet, and no other one. -/
theorem exists_edge_iff {p : Sym2 ℕ} : (∃ e, m.links.isLiveEdge e = true ∧ m.edgeIds e = p) ↔
    ∃ f, m.links.isLiveFacet f = true ∧ ∃ x ∈ m.sideIds f, s(x.1, x.2) = p := by
  constructor
  · rintro ⟨e, he, rfl⟩
    -- One of the two sides has a facet.
    obtain ⟨h, rfl, hfaced⟩ : ∃ h, h.edge = e ∧ m.links.facetOf h ≠ none := by
      by_cases hside : m.links.facetOf (e.side false) = none
      · exact ⟨(e.side false).opposite, rfl, hm.simple.faced he hside⟩
      · exact ⟨e.side false, rfl, hside⟩
    obtain ⟨f, hhf⟩ := Option.ne_none_iff_exists'.1 hfaced
    obtain ⟨hf, hmem⟩ := (hm.facetOf_iff he).1 hhf
    exact ⟨f, hf, m.idsOf h, hmem, (m.edgeIds_edge h).symm⟩
  · rintro ⟨f, hf, x, hx, rfl⟩
    obtain ⟨h, hh, -, rfl⟩ := (hm.mem_sideIds hf).1 hx
    exact ⟨h.edge, hh, m.edgeIds_edge h⟩

/-- Edges join different pairs of vertices. -/
theorem nodup_edgeIds : (m.links.liveEdges.map m.edgeIds).Nodup := by
  refine m.links.nodup_liveEdges.map_on fun e he e' he' hids => ?_
  obtain ⟨h, rfl, hsame⟩ := (m.eq_edgeIds_iff (e := e') (x := m.idsOf (e.side false))).1 hids
  exact congrArg Halfedge.edge
    (hm.idsOf_inj (Connectivity.mem_liveEdges.1 he) (Connectivity.mem_liveEdges.1 he') hsame.symm)

/-- The edges of a facet join the ids of its sides. -/
theorem edgeIds_perm {f : Facet} (hf : m.links.isLiveFacet f = true) :
    ((m.links.edgesOf f).map m.edgeIds).Perm ((m.sideIds f).map fun x => s(x.1, x.2)) := by
  have hsides := (hm.sideIds_perm hf).map fun x => s(x.1, x.2)
  rw [List.map_map] at hsides
  unfold Connectivity.edgesOf
  rw [List.map_map]
  have hedge : m.edgeIds ∘ Halfedge.edge = (fun x => s(x.1, x.2)) ∘ m.idsOf := funext m.edgeIds_edge
  rw [hedge]
  exact hsides.symm

/-- An edge is on the border if no facet has its ids in one of the two orders. -/
theorem isBorderEdge_iff {e : Edge} (he : m.links.isLiveEdge e = true) : m.links.isBorderEdge e = true ↔
    ∃ x : ℕ × ℕ, s(x.1, x.2) = m.edgeIds e ∧ ∀ f, m.links.isLiveFacet f = true → x ∉ m.sideIds f := by
  -- A side of the edge has no facet if no facet has its pair of ids.
  have hborder : ∀ {h : Halfedge}, h.edge = e →
      (m.links.isBorder h = true ↔ ∀ f, m.links.isLiveFacet f = true → m.idsOf h ∉ m.sideIds f) := by
    intro h hh
    rw [Connectivity.isBorder_iff, Option.eq_none_iff_forall_ne_some]
    simp only [Ne, hm.facetOf_iff (Connectivity.isLive_of_edge he hh), not_and]
  unfold Connectivity.isBorderEdge
  rw [List.any_eq_true]
  simp only [Halfedge.mem_sides, m.eq_edgeIds_iff]
  constructor
  · rintro ⟨h, hh, hb⟩
    exact ⟨m.idsOf h, ⟨h, hh, rfl⟩, (hborder hh).1 hb⟩
  · rintro ⟨_, ⟨h, hh, rfl⟩, hnone⟩
    exact ⟨h, hh, (hborder hh).2 hnone⟩

/-- The ids of the vertices are different. -/
theorem nodup_vertexIds : (m.links.liveVertices.map m.vertexId).Nodup :=
  hm.nodup_map_vertexId (fun _ hv => Connectivity.mem_liveVertices.1 hv) m.links.nodup_liveVertices

end Sound

/-! ## Turning all sides round -/

namespace Turned

variable {m} {m' : Mesh} {φ : Facet → Facet} (h : m.Turned m' φ) {f g : Facet} {x : ℕ × ℕ}

include h

/-- The counterpart of a live facet is live. -/
theorem live (hf : m.links.isLiveFacet f = true) : m'.links.isLiveFacet (φ f) = true := h.facets.mapsTo hf

/-- A facet has a side if its counterpart has it the other way round. -/
theorem swap_mem (hf : m.links.isLiveFacet f = true) : x.swap ∈ m.sideIds f ↔ x ∈ m'.sideIds (φ f) := by
  rw [h.sides f hf, Prod.swap_swap]

/-- All sides of the one mesh are those of the other one, turned round. -/
theorem exists_side_iff : (∃ f, m.links.isLiveFacet f = true ∧ x.swap ∈ m.sideIds f) ↔
    ∃ f, m'.links.isLiveFacet f = true ∧ x ∈ m'.sideIds f := by
  constructor
  · rintro ⟨f, hf, hx⟩
    exact ⟨φ f, h.live hf, (h.swap_mem hf).1 hx⟩
  · rintro ⟨f', hf', hx⟩
    obtain ⟨f, hf, rfl⟩ := h.facets.surjOn hf'
    exact ⟨f, hf, (h.swap_mem hf).2 hx⟩

/-- The sides of a facet, turned round, are those of its counterpart. -/
theorem swap_perm (hm : m.Sound) (hm' : m'.Sound) (hf : m.links.isLiveFacet f = true) :
    ((m.sideIds f).map Prod.swap).Perm (m'.sideIds (φ f)) := by
  have hnodup := (hm.nodup_sideIds hf).map Prod.swap_injective
  refine (List.perm_ext_iff_of_nodup hnodup (hm'.nodup_sideIds (h.live hf))).2 fun x => ?_
  rw [List.mem_map, ← h.swap_mem hf]
  constructor
  · rintro ⟨y, hy, rfl⟩
    rwa [Prod.swap_swap]
  · exact fun hx => ⟨x.swap, hx, Prod.swap_swap x⟩

/-- The edges of both meshes join the same ids. -/
theorem edges (hm : m.Sound) (hm' : m'.Sound) :
    (m.links.liveEdges.map m.edgeIds).Perm (m'.links.liveEdges.map m'.edgeIds) := by
  refine (List.perm_ext_iff_of_nodup hm.nodup_edgeIds hm'.nodup_edgeIds).2 fun p => ?_
  simp only [List.mem_map, Connectivity.mem_liveEdges]
  rw [hm.exists_edge_iff, hm'.exists_edge_iff]
  constructor
  -- A side that is turned round joins the same two ids.
  · rintro ⟨f, hf, x, hx, rfl⟩
    exact ⟨φ f, h.live hf, x.swap, (h.sides f hf x).1 hx, Sym2.eq_swap⟩
  · rintro ⟨f', hf', x, hx, rfl⟩
    obtain ⟨f, hf, hmem⟩ := h.exists_side_iff.2 ⟨f', hf', hx⟩
    exact ⟨f, hf, x.swap, hmem, Sym2.eq_swap⟩

/-- Two facets are neighbours if their counterparts are. -/
theorem neighbors (hm : m.Sound) (hm' : m'.Sound) (hf : m.links.isLiveFacet f = true)
    (hg : m.links.isLiveFacet g = true) : g ∈ m.links.neighbors f ↔ φ g ∈ m'.links.neighbors (φ f) := by
  rw [hm.mem_neighbors_iff hf hg, hm'.mem_neighbors_iff (h.live hf) (h.live hg)]
  constructor
  · rintro ⟨x, hx, hx'⟩
    exact ⟨x.swap, (h.sides f hf x).1 hx, (h.sides g hg x.swap).1 hx'⟩
  · rintro ⟨x, hx, hx'⟩
    exact ⟨x.swap, (h.swap_mem hf).2 hx, (h.swap_mem hg).2 hx'⟩

/-- The edges of a facet join the same ids as those of its counterpart. -/
theorem facetEdges (hm : m.Sound) (hm' : m'.Sound) (hf : m.links.isLiveFacet f = true) :
    ((m.links.edgesOf f).map m.edgeIds).Perm ((m'.links.edgesOf (φ f)).map m'.edgeIds) := by
  have hpairs := (h.swap_perm hm hm' hf).map fun x => s(x.1, x.2)
  have hswap : (fun x : ℕ × ℕ => s(x.1, x.2)) ∘ Prod.swap = fun x => s(x.1, x.2) := funext fun _ => Sym2.eq_swap
  rw [List.map_map, hswap] at hpairs
  exact ((hm.edgeIds_perm hf).trans hpairs).trans (hm'.edgeIds_perm (h.live hf)).symm

/-- Two edges that join the same ids are both on the border or both not. -/
theorem border (hm : m.Sound) (hm' : m'.Sound) {e e' : Edge} (he : m.links.isLiveEdge e = true)
    (he' : m'.links.isLiveEdge e' = true) (hids : m.edgeIds e = m'.edgeIds e') :
    m.links.isBorderEdge e = m'.links.isBorderEdge e' := by
  -- An edge is on the border if it is a side of no facet in one direction, which is the other direction in the other
  -- mesh.
  have hnone : ∀ x : ℕ × ℕ, (∀ f, m.links.isLiveFacet f = true → x.swap ∉ m.sideIds f) ↔
      ∀ f, m'.links.isLiveFacet f = true → x ∉ m'.sideIds f := by
    intro x
    simpa only [not_exists, not_and] using not_congr (h.exists_side_iff (x := x))
  rw [Bool.eq_iff_iff, hm.isBorderEdge_iff he, hm'.isBorderEdge_iff he', ← hids]
  constructor
  · rintro ⟨x, hx, hout⟩
    exact ⟨x.swap, Sym2.eq_swap.trans hx, (hnone x.swap).1 (by rwa [Prod.swap_swap])⟩
  · rintro ⟨x, hx, hout⟩
    exact ⟨x.swap, Sym2.eq_swap.trans hx, (hnone x).2 hout⟩

/-- Sound meshes with the same vertex ids mirror each other if the sides of their facets are turned round. -/
theorem mirrors (hm : m.Sound) (hm' : m'.Sound)
    (hvertices : ∀ id, (∃ v, m.links.isLiveVertex v = true ∧ m.vertexId v = id) ↔
      ∃ v, m'.links.isLiveVertex v = true ∧ m'.vertexId v = id) : m.Mirrors m' φ where
  toTurned := h
  vertices := by
    refine (List.perm_ext_iff_of_nodup hm.nodup_vertexIds hm'.nodup_vertexIds).2 fun id => ?_
    simp only [List.mem_map, Connectivity.mem_liveVertices]
    exact hvertices id
  edges := h.edges hm hm'
  corners f hf :=
    perm_of_swap_mem_cyclicPairs (hm.nodup_cornerIds hf) (hm'.nodup_cornerIds (h.live hf)) (h.sides f hf)
  neighbors _ _ hf hg := h.neighbors hm hm' hf hg
  facetEdges _ hf := h.facetEdges hm hm' hf
  border _ _ he he' hids := h.border hm hm' he he' hids

end Turned

end Mesh

end RegionMesh
