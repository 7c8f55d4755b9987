import RegionMesh.Proofs.Mesh.Appended

/-!
# Elements in the order in which they were added

Where every sample is a new vertex, vertices and facets stand behind the old ones in the order in which they were
added, and a corner is named by the place of its sample (`Mesh.Placed`). No vertex and no edge that came with them is
deleted. There is one lemma for each thing that is added (`Placed.addVertex`, `Placed.addFacet`).
-/

namespace RegionMesh

namespace Mesh

/-- Samples, each an id and a position, and cells, each an id and the places of its corners among the samples, were
added behind the elements of `m` in order. -/
structure Placed (m : Mesh) (samples : List (ℕ × Point)) (cells : List (ℕ × List ℕ)) (m' : Mesh) : Prop where
  /-- The mesh is sound. -/
  sound : m'.Sound
  /-- Nothing old has changed. -/
  kept : m.Extends m'
  /-- The new edges are live. -/
  liveEdges : Connectivity.LiveEdgesFrom m.edgeCount m'.links
  /-- There is a new vertex for every sample. -/
  vertexCount : m'.vertexCount = m.vertexCount + samples.length
  /-- The vertex for a sample is live, and has the id and the position of the sample. -/
  vertex : ∀ k x, samples[k]? = some x → m'.links.isLiveVertex ⟨m.vertexCount + k⟩ = true ∧
    m'.vertexId ⟨m.vertexCount + k⟩ = x.1 ∧ m'.point ⟨m.vertexCount + k⟩ = x.2
  /-- There is a new facet for every cell. -/
  facetCount : m'.facetCount = m.facetCount + cells.length
  /-- The facet for a cell is live, and has the id and the corners of the cell. -/
  cell : ∀ k c, cells[k]? = some c → m'.links.isLiveFacet ⟨m.facetCount + k⟩ = true ∧
    m'.facetId ⟨m.facetCount + k⟩ = c.1 ∧
    m'.links.corners ⟨m.facetCount + k⟩ = c.2.map fun i => ⟨m.vertexCount + i⟩

variable {m m' m'' : Mesh} {samples : List (ℕ × Point)} {cells : List (ℕ × List ℕ)} {p : Point} {id : ℕ}
  {v : Vertex} {f : Facet}

namespace Placed

/-- At first nothing was added. -/
theorem refl (hm : m.Sound) : m.Placed [] [] m where
  sound := hm
  kept := .refl m
  liveEdges e he hsize := absurd hsize (Nat.not_lt.2 he)
  vertexCount := rfl
  vertex k x hx := by simp at hx
  facetCount := rfl
  cell k c hc := by simp at hc

/-- The vertex for a sample stays as it is when more is added. -/
theorem vertex_kept (h : m.Placed samples cells m') (h' : m'.Extends m'') {k : ℕ} {x : ℕ × Point}
    (hx : samples[k]? = some x) : m''.links.isLiveVertex ⟨m.vertexCount + k⟩ = true ∧
      m''.vertexId ⟨m.vertexCount + k⟩ = x.1 ∧ m''.point ⟨m.vertexCount + k⟩ = x.2 := by
  obtain ⟨hlive, hid, hpoint⟩ := h.vertex k x hx
  have hslot : m.vertexCount + k < m'.vertexCount := Connectivity.slot_lt_of_isLiveVertex hlive
  exact ⟨h'.links.isLiveVertex hlive, (h'.vertexId _ hslot).trans hid, (h'.point _ hslot).trans hpoint⟩

/-- The facet for a cell stays as it is when more is added. -/
theorem cell_kept (h : m.Placed samples cells m') (h' : m'.Extends m'') {k : ℕ} {c : ℕ × List ℕ}
    (hc : cells[k]? = some c) : m''.links.isLiveFacet ⟨m.facetCount + k⟩ = true ∧
      m''.facetId ⟨m.facetCount + k⟩ = c.1 ∧
      m''.links.corners ⟨m.facetCount + k⟩ = c.2.map fun i => ⟨m.vertexCount + i⟩ := by
  obtain ⟨hlive, hid, hcorners⟩ := h.cell k c hc
  have hslot : m.facetCount + k < m'.facetCount := Connectivity.slot_lt_of_isLiveFacet hlive
  exact ⟨h'.links.isLiveFacet hlive, (h'.facetId _ hslot).trans hid,
    (h'.links.corners h.sound.wellFormed hlive).trans hcorners⟩

/-- A sample becomes a vertex. -/
theorem addVertex (h : m.Placed samples cells m') (hadd : Mesh.addVertex p id m' = (.ok v, m'')) :
    m.Placed (samples ++ [(id, p)]) cells m'' := by
  have hext := h.sound.extends_addVertex hadd
  obtain ⟨rfl, hsize, hlive, hid, hpoint⟩ := h.sound.vertex_new hadd
  refine ⟨(h.sound.addVertex hadd).1, h.kept.trans hext, ?_, ?_, fun k x hx => ?_, ?_,
    fun k c hc => h.cell_kept hext hc⟩
  · obtain ⟨-, -, rfl⟩ := addVertex_eq_ok.1 hadd
    exact h.liveEdges.congr rfl
  · rw [hsize, h.vertexCount, List.length_append, List.length_singleton, Nat.add_assoc]
  -- The old samples keep their vertices, and the last one has the new vertex.
  · rcases getElem?_concat_eq_some.1 hx with hx | ⟨rfl, rfl⟩
    · exact h.vertex_kept hext hx
    · rw [h.vertexCount] at hlive hid hpoint
      exact ⟨hlive, hid, hpoint⟩
  · obtain ⟨-, -, rfl⟩ := addVertex_eq_ok.1 hadd
    exact h.facetCount

/-- Every place among the samples has a live vertex. -/
theorem isLiveVertex (h : m.Placed samples cells m') {k : ℕ} (hk : k < samples.length) :
    m'.links.isLiveVertex ⟨m.vertexCount + k⟩ = true :=
  (h.vertex k _ (List.getElem?_eq_getElem hk)).1

/-- A cell on vertices that are there becomes a facet. -/
theorem addFacet (h : m.Placed samples cells m') {corners : List ℕ} (hcorners : ∀ i ∈ corners, i < samples.length)
    (hadd : Mesh.addFacet (corners.map fun i => ⟨m.vertexCount + i⟩) id m' = (.ok f, m'')) :
    m.Placed samples (cells ++ [(id, corners)]) m'' := by
  have hlive : ∀ v ∈ corners.map fun i => (⟨m.vertexCount + i⟩ : Vertex), m'.links.isLiveVertex v = true := by
    intro v hv
    obtain ⟨i, hi, rfl⟩ := List.mem_map.1 hv
    exact h.isLiveVertex (hcorners i hi)
  -- The corners are vertices of samples, so they are live, and the mesh stays sound.
  have hext := h.sound.extends_addFacet hlive hadd
  obtain ⟨rfl, hcount, hsize, hnew⟩ := h.sound.facet_new hlive hadd
  refine ⟨(h.sound.addFacet hlive hadd).1, h.kept.trans hext, ?_, hsize.trans h.vertexCount,
    fun k x hx => h.vertex_kept hext hx, ?_, fun k c hc => ?_⟩
  · obtain ⟨-, -, -, links, hlinks, rfl⟩ := addFacet_eq_ok.1 hadd
    exact h.liveEdges.addFacet hlinks
  · rw [hcount, h.facetCount, List.length_append, List.length_singleton, Nat.add_assoc]
  · rcases getElem?_concat_eq_some.1 hc with hc | ⟨rfl, rfl⟩
    · exact h.cell_kept hext hc
    · rw [h.facetCount] at hnew
      exact hnew

/-- An id that no old vertex and no sample has is free. -/
theorem findVertex?_eq_none (h : m.Placed samples cells m') (hm : m.Sound) (hold : m.findVertex? id = none)
    (hfree : ∀ x ∈ samples, x.1 ≠ id) : m'.findVertex? id = none := by
  refine h.sound.vertices.getElem?_eq_none.2 fun v hv => ?_
  -- A live vertex is an old one, which keeps its id, or was made for a sample.
  rcases Nat.lt_or_ge v.slot m.vertexCount with hlt | hge
  · rw [h.kept.links.liveVertex v hlt] at hv
    rw [h.kept.vertexId v hlt]
    exact hm.vertices.getElem?_eq_none.1 hold v hv
  · obtain ⟨k, hk⟩ := Nat.exists_eq_add_of_le hge
    obtain rfl : v = ⟨m.vertexCount + k⟩ := congrArg Vertex.mk hk
    have hslot : m.vertexCount + k < m'.vertexCount := Connectivity.slot_lt_of_isLiveVertex hv
    rw [h.vertexCount] at hslot
    have hx := List.getElem?_eq_getElem (Nat.lt_of_add_lt_add_left hslot)
    rw [(h.vertex k _ hx).2.1]
    exact hfree _ (List.mem_of_getElem? hx)

/-! ## Meshes that were empty at first -/

section Empty

variable (h : ({} : Mesh).Placed samples cells m)

include h

/-- The vertices are the samples, in order. -/
theorem vertex_of_sample {k : ℕ} {x : ℕ × Point} (hx : samples[k]? = some x) :
    m.links.isLiveVertex ⟨k⟩ = true ∧ m.vertexId ⟨k⟩ = x.1 ∧ m.point ⟨k⟩ = x.2 := by
  have hvertex := h.vertex k x hx
  rwa [show ({} : Mesh).vertexCount + k = k from Nat.zero_add k] at hvertex

/-- The facets are the cells, in order. -/
theorem facet_of_cell {k : ℕ} {c : ℕ × List ℕ} (hc : cells[k]? = some c) :
    m.links.isLiveFacet ⟨k⟩ = true ∧ m.facetId ⟨k⟩ = c.1 ∧ m.links.corners ⟨k⟩ = c.2.map Vertex.mk := by
  obtain ⟨hlive, hid, hcorners⟩ := h.cell k c hc
  rw [show ({} : Mesh).facetCount + k = k from Nat.zero_add k] at hlive hid hcorners
  refine ⟨hlive, hid, hcorners.trans (List.map_congr_left fun i _ => ?_)⟩
  exact congrArg Vertex.mk (Nat.zero_add i)

/-- Every facet has a cell. -/
theorem cell_of_facet (hf : f.slot < m.facetCount) : ∃ c, cells[f.slot]? = some c := by
  rw [h.facetCount, show ({} : Mesh).facetCount + cells.length = cells.length from Nat.zero_add _] at hf
  exact ⟨_, List.getElem?_eq_getElem hf⟩

/-- The corners by id are those of the cells. -/
theorem cell_of_facetCorners {l : List Vertex} (hl : m.facetCorners id = some l) :
    ∃ c ∈ cells, c.1 = id ∧ l = c.2.map Vertex.mk := by
  obtain ⟨f, hf, rfl, rfl⟩ := h.sound.facetCorners_eq_some.1 hl
  obtain ⟨c, hc⟩ := h.cell_of_facet (Connectivity.slot_lt_of_isLiveFacet hf)
  obtain ⟨-, hid, hcorners⟩ := h.facet_of_cell hc
  exact ⟨c, List.mem_of_getElem? hc, hid.symm, hcorners⟩

end Empty

end Placed

end Mesh

end RegionMesh
