import RegionMesh.Proofs.Connectivity.Attached

/-!
# Links that only grow

Whatever is added to the links goes behind what is there (`Connectivity.Extends`). The old elements stay in their
places, deleted ones included, their halfedges point where they pointed, and the ring of an old facet leads
through the same halfedges, although the border beside it is linked anew. A new vertex does this
(`extends_addVertex`), and so does a facet that is attached (`WellFormed.extends_addFacet`), whose new edges are
live (`LiveEdgesFrom.addFacet`).
-/

namespace RegionMesh

namespace Connectivity

/-- The links have become more, and the old elements are as they were. -/
structure Extends (c c' : Connectivity) : Prop where
  /-- No vertex is lost. -/
  size_vertices : c.vertices.size ≤ c'.vertices.size
  /-- No edge is lost. -/
  size_edges : c.edges.size ≤ c'.edges.size
  /-- No facet is lost. -/
  size_facets : c.facets.size ≤ c'.facets.size
  /-- An old vertex is live if it was. -/
  liveVertex : ∀ v, v.slot < c.vertices.size → c'.isLiveVertex v = c.isLiveVertex v
  /-- An old edge is live if it was. -/
  liveEdge : ∀ e, e.slot < c.edges.size → c'.isLiveEdge e = c.isLiveEdge e
  /-- An old facet is live if it was. -/
  liveFacet : ∀ f, f.slot < c.facets.size → c'.isLiveFacet f = c.isLiveFacet f
  /-- An old halfedge points where it did. -/
  head : ∀ h, h.edge.slot < c.edges.size → c'.head h = c.head h
  /-- The ring of an old facet is the same. -/
  ring : ∀ f, c.isLiveFacet f = true → c'.ring f = c.ring f

variable {c c' c'' : Connectivity} {vs : List Vertex} {existing : List (Option Halfedge)}
  {moved : List (Halfedge × Halfedge)}

namespace Extends

/-- Links that stay as they are extend themselves. -/
theorem refl (c : Connectivity) : c.Extends c :=
  ⟨Nat.le_refl _, Nat.le_refl _, Nat.le_refl _, fun _ _ => rfl, fun _ _ => rfl, fun _ _ => rfl, fun _ _ => rfl,
    fun _ _ => rfl⟩

/-- Live facets stay live. -/
theorem isLiveFacet (h : c.Extends c') {f : Facet} (hf : c.isLiveFacet f = true) : c'.isLiveFacet f = true := by
  rw [h.liveFacet f (slot_lt_of_isLiveFacet hf), hf]

/-- A live vertex stays live when the links are extended. -/
theorem isLiveVertex (h : c.Extends c') {v : Vertex} (hv : c.isLiveVertex v = true) :
    c'.isLiveVertex v = true := by
  rw [h.liveVertex v (slot_lt_of_isLiveVertex hv), hv]

/-- Links may be extended twice. -/
theorem trans (h : c.Extends c') (h' : c'.Extends c'') : c.Extends c'' where
  size_vertices := Nat.le_trans h.size_vertices h'.size_vertices
  size_edges := Nat.le_trans h.size_edges h'.size_edges
  size_facets := Nat.le_trans h.size_facets h'.size_facets
  liveVertex v hv := (h'.liveVertex v (Nat.lt_of_lt_of_le hv h.size_vertices)).trans (h.liveVertex v hv)
  liveEdge e he := (h'.liveEdge e (Nat.lt_of_lt_of_le he h.size_edges)).trans (h.liveEdge e he)
  liveFacet f hf := (h'.liveFacet f (Nat.lt_of_lt_of_le hf h.size_facets)).trans (h.liveFacet f hf)
  head g hg := (h'.head g (Nat.lt_of_lt_of_le hg h.size_edges)).trans (h.head g hg)
  ring f hf := (h'.ring f (h.isLiveFacet hf)).trans (h.ring f hf)

/-- An old facet has the same corners. -/
theorem corners (h : c.Extends c') (hc : c.WellFormed) {f : Facet} (hf : c.isLiveFacet f = true) :
    c'.corners f = c.corners f := by
  unfold Connectivity.corners
  rw [h.ring f hf]
  exact List.map_congr_left fun g hg => h.head g (((hc.ringOf hf).mem g).1 hg).1.slot_lt

end Extends

/-- A new vertex goes behind the others, and nothing else changes. -/
theorem extends_addVertex (c : Connectivity) : c.Extends c.addVertex.2 := by
  refine ⟨?_, Nat.le_refl _, Nat.le_refl _, fun v hv => ?_, fun _ _ => rfl, fun _ _ => rfl, fun _ _ => rfl,
    fun _ _ => rfl⟩
  · simp [addVertex]
  · rw [Bool.eq_iff_iff, isLiveVertex_addVertex]
    refine or_iff_right ?_
    rintro rfl
    exact Nat.lt_irrefl _ hv

/-- A facet that fits is attached behind the others. -/
theorem WellFormed.extends_attach (hc : c.WellFormed) (h : c.Placement vs existing moved) :
    c.Extends (c.attach vs (ringSides existing c.edges.size) moved).2 := by
  have hlinked := hc.toLinked
  have hj := h.joins hlinked
  have hsame := (c.joined vs (ringSides existing c.edges.size) moved).sameLinks_preferBorders
    (c.adjusted vs (ringSides existing c.edges.size))
  rw [attach_eq]
  generalize (c.adjusted vs (ringSides existing c.edges.size)).foldl preferBorder
    (c.joined vs (ringSides existing c.edges.size) moved) = c₂ at hsame
  refine ⟨?_, ?_, ?_, fun v _ => (hsame.live v).trans (hj.liveVertex v), fun e he => ?_, fun f hf => ?_,
    fun g hg => (hsame.head g).trans (hj.head g hg), fun f hf => ?_⟩
  · rw [hsame.size, hj.size_vertices]
  · rw [hsame.edges, size_edges_joined]
    have hpushed := (pushed_changed (c := c) h.length_existing).size_le
    rwa [edges_changeCorners] at hpushed
  · rw [hsame.facets, hj.size_facets]
    exact Nat.le_succ _
  · -- The edges of the new sides are stored behind the old ones.
    have hlive := (hsame.isLive (e.side false)).trans (hj.live (e.side false))
    rw [Bool.eq_iff_iff]
    refine hlive.trans (or_iff_left ?_)
    rintro ⟨x, hx, hfresh, hedge⟩
    have hle := (hj.size x hx hfresh).1
    rw [hedge] at hle
    exact Nat.lt_irrefl _ (Nat.lt_of_lt_of_le he hle)
  · rw [hsame.isLiveFacet, Bool.eq_iff_iff, hj.liveFacet]
    refine or_iff_right ?_
    rintro rfl
    exact Nat.lt_irrefl _ hf
  · have hl := hc.ringOf hf
    rw [(hsame.ringOf (Placement.ring_old hlinked h hj hf hl)).ring_eq, ← hl.ring_eq]

/-- A facet that is added goes behind the others. -/
theorem WellFormed.extends_addFacet (hc : c.WellFormed) (hlive : ∀ v ∈ vs, c.isLiveVertex v = true)
    (hn : vs.Nodup) (hthree : 3 ≤ vs.length) {f : Facet} (h : Connectivity.addFacet vs c = (.ok f, c')) :
    c.Extends c' := by
  obtain ⟨existing, moved, hsides, hmoved, -, hattach⟩ := addFacet_eq_ok.1 h
  have hextends := hc.extends_attach ⟨hlive, hn, hthree, hsides, hmoved⟩
  rwa [hattach] at hextends

/-! ## Edges that are there to stay -/

/-- The edges that are stored in a slot or behind it are live. -/
def LiveEdgesFrom (slot : ℕ) (c : Connectivity) : Prop :=
  ∀ e : Edge, slot ≤ e.slot → e.slot < c.edges.size → c.isLiveEdge e = true

variable {slot : ℕ}

/-- Links with the same edges have the same live edges. -/
theorem LiveEdgesFrom.congr (h : LiveEdgesFrom slot c) (hedges : c'.edges = c.edges) : LiveEdgesFrom slot c' := by
  unfold LiveEdgesFrom isLiveEdge
  rw [hedges]
  exact h

/-- An edge that is stored is live. -/
theorem LiveEdgesFrom.pushEdge (h : LiveEdgesFrom slot c) (u v : Vertex) : LiveEdgesFrom slot (c.pushEdge u v) := by
  intro e he hsize
  rw [isLiveEdge_pushEdge, Bool.or_eq_true, decide_eq_true_eq]
  rw [size_edges_pushEdge] at hsize
  rcases Nat.lt_succ_iff_lt_or_eq.1 hsize with hold | hnew
  · exact Or.inr (h e he hold)
  · exact Or.inl hnew

/-- The edges that the sides of a facet bring are live. -/
theorem LiveEdgesFrom.pushSides (h : LiveEdgesFrom slot c) (ends : List ((Vertex × Vertex) × RingSide)) :
    LiveEdgesFrom slot (pushSides ends c) := by
  induction ends generalizing c with
  | nil => exact h
  | cons x rest ih =>
    refine ih ?_
    dsimp only
    split
    · exact h.pushEdge x.1.1 x.1.2
    · exact h

/-- No edge is deleted when a facet is added. -/
theorem LiveEdgesFrom.addFacet (h : LiveEdgesFrom slot c) {f : Facet}
    (hadd : Connectivity.addFacet vs c = (.ok f, c')) : LiveEdgesFrom slot c' := by
  obtain ⟨existing, moved, -, -, -, hattach⟩ := addFacet_eq_ok.1 hadd
  have hsame := (c.joined vs (ringSides existing c.edges.size) moved).sameLinks_preferBorders
    (c.adjusted vs (ringSides existing c.edges.size))
  rw [attach_eq] at hattach
  rw [(Prod.mk.inj hattach).2] at hsame
  -- Linking the sides does not touch which edges are live, and neither does changing the corners.
  have hpushed : LiveEdgesFrom slot (c.pushed vs (ringSides existing c.edges.size)) :=
    (h.congr (edges_changeCorners _)).pushSides _
  have hjoined : LiveEdgesFrom slot (c.joined vs (ringSides existing c.edges.size) moved) := by
    intro e he hsize
    rw [isLiveEdge_joined]
    rw [size_edges_joined] at hsize
    exact hpushed e he hsize
  exact hjoined.congr hsame.edges

end Connectivity

end RegionMesh
