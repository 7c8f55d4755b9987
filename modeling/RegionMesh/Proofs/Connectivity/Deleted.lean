import RegionMesh.Proofs.Connectivity.Added
import RegionMesh.Proofs.Connectivity.Detached

/-!
# Facets that are deleted

All effects of deleting a facet on links that the check accepts and whose rings hold all halfedges of their facets
(`deleteFacet_effects`). The walks of the deletion come to an end (`DeletionEnds`): the one along the ring, and the
one around each corner that is left, when its turn comes to choose a halfedge on the border. Nothing but the mark of
the facet comes after them (`deleteFacet_eq_chosen`). The facet goes with the edges and the vertices that it leaves
without a use, and the rings of the others stay the same (`FacetDeleted`).
-/

namespace RegionMesh

namespace Connectivity

variable {c c' : Connectivity} {f : Facet}

/-! ## Deletions that end -/

/-- The links when some corners have chosen a halfedge on the border, after the edges without facets were taken
out. -/
def chosen (c : Connectivity) (f : Facet) (corners : List Vertex) : Connectivity :=
  corners.foldl (fun c v => if c.isLiveVertex v then c.preferBorder v else c) (c.emptied f)

/-- The deletion of a facet marks its record when all its corners have chosen. -/
theorem deleteFacet_eq_chosen (c : Connectivity) (f : Facet) :
    c.deleteFacet f = (c.chosen f (c.corners f)).markFacetDeleted f := rfl

/-- The walks on which the deletion of a facet sets out come to an end. -/
structure DeletionEnds (c : Connectivity) (f : Facet) : Prop where
  /-- The ring of the facet closes. -/
  ring : (c.ring f).closed = true
  /-- When a corner chooses a halfedge on the border, after those before it in the ring have chosen theirs, its fan
  closes. -/
  choices : ∀ before v after, c.corners f = before ++ v :: after → (c.chosen f before).isLiveVertex v = true →
    ((c.chosen f before).fan v).closed = true
  /-- When all corners have chosen, there are no more walks, and the record of the facet is marked. -/
  marked : c.deleteFacet f = (c.chosen f (c.corners f)).markFacetDeleted f

/-- On links that are in order the deletion of a facet ends. -/
theorem WellFormed.deletionEnds (hc : c.WellFormed) (hf : c.isLiveFacet f = true) : c.DeletionEnds f where
  ring := hc.ring_closed hf
  choices before v after _ hv := by
    have hleft : ∀ w ∈ before.filter (c.emptied f).isLiveVertex, (c.emptied f).isLiveVertex w = true :=
      fun w hw => (List.mem_filter.1 hw).2
    have hlinked := (preferBorders_spec (hc.emptied hf).linked hleft).1
    rw [← foldl_preferBorder_live] at hlinked
    exact (hlinked.fan_spec hv).1
  marked := c.deleteFacet_eq_chosen f

/-! ## The storage -/

/-- An edge that is removed stays in storage. -/
@[simp]
theorem size_edges_removeEdge (c : Connectivity) (e : Edge) : (c.removeEdge e).edges.size = c.edges.size := by
  rw [removeEdge_eq, edges_leaveFan, edges_leaveFan]
  unfold bypass
  rw [size_edges_deleteEdge, size_edges_link, size_edges_link]

/-- Deleted edges stay in storage. -/
theorem size_edges_deleteFacet (c : Connectivity) (f : Facet) :
    (c.deleteFacet f).edges.size = c.edges.size := by
  have hsame := (c.emptied f).sameLinks_preferBorders
    ((c.corners f).filter (c.emptied f).isLiveVertex)
  rw [deleteFacet_eq, edges_markFacetDeleted, hsame.edges]
  unfold emptied
  rw [foldl_keeps (fun c => c.edges.size) size_edges_removeEdge, releaseRing_snd, size_edges_setFacets]

/-! ## Facets that are deleted -/

/-- An edge that a facet has to itself: it is on the ring, and no other facet is on either of its sides. -/
def HasAlone (c : Connectivity) (f : Facet) (e : Edge) : Prop :=
  (∃ h ∈ (c.ring f).path, h.edge = e) ∧ ∀ h, h.edge = e → ∀ g, c.facetOf h = some g → g = f

/-- What there is after a facet was deleted. -/
structure FacetDeleted (c : Connectivity) (f : Facet) (c' : Connectivity) : Prop where
  /-- The check accepts the links, and the rings hold all halfedges of their facets. -/
  accepted : c'.Accepted
  /-- The facet is not live any more, and the others are if they were. -/
  liveFacet : ∀ g, c'.isLiveFacet g = true ↔ c.isLiveFacet g = true ∧ g ≠ f
  /-- The edges that the facet had to itself are not live any more, and the others are if they were. -/
  liveEdge : ∀ e, c'.isLiveEdge e = true ↔ c.isLiveEdge e = true ∧ ¬ c.HasAlone f e
  /-- The corners that are left without an edge are not live any more, and the other vertices are if they were. -/
  liveVertex : ∀ v, c'.isLiveVertex v = true ↔ c.isLiveVertex v = true ∧ ¬ (v ∈ c.corners f ∧ c'.Bare v)
  /-- The halfedges of the ring that are left are on the border. -/
  released : ∀ h ∈ (c.ring f).path, c'.IsLive h → c'.isBorder h = true
  /-- The other halfedges have the facets that they had. -/
  facetOf : ∀ h, c.IsLive h → h ∉ (c.ring f).path → c'.facetOf h = c.facetOf h
  /-- The other facets have the same rings. -/
  ring : ∀ g, c.isLiveFacet g = true → g ≠ f → c'.ring g = c.ring g
  /-- Halfedges point where they did. -/
  head : ∀ h, c'.head h = c.head h
  /-- Deleted vertices stay in storage. -/
  vertexCount : c'.vertices.size = c.vertices.size
  /-- Deleted edges stay in storage. -/
  edgeCount : c'.edges.size = c.edges.size
  /-- Deleted facets stay in storage. -/
  facetCount : c'.facets.size = c.facets.size

namespace Detached

/-- An edge is deleted if the facet had it to itself. -/
theorem liveEdge_iff (hc : c.WellFormed) (hf : c.isLiveFacet f = true) (h : c.Detached f c') (e : Edge) :
    c'.isLiveEdge e = true ↔ c.isLiveEdge e = true ∧ ¬ c.HasAlone f e := by
  have hmem := (hc.ringOf hf).mem
  -- A halfedge is left on the border exactly if no other facet has it.
  have hnone : ∀ g, c.IsLive g → (c'.facetOf g = none ↔ ∀ k, c.facetOf g = some k → k = f) := by
    intro g hg
    rw [h.facetOf g hg]
    cases c.facetOf g with
    | none => simp
    | some k => simp
  refine (h.live (e.side false)).trans (and_congr_right fun he => not_congr ?_)
  have he' : c.IsLive (e.side true) := he
  rw [opposite_side, Bool.not_false, hnone _ he, hnone _ he']
  constructor
  · rintro ⟨hfirst, hsecond, hside⟩
    refine ⟨?_, fun g hge => ?_⟩
    · rcases hside with hside | hside
      · exact ⟨e.side false, (hmem _).2 ⟨he, hside⟩, rfl⟩
      · exact ⟨e.side true, (hmem _).2 ⟨he', hside⟩, rfl⟩
    · rcases eq_side hge with rfl | rfl
      · exact hfirst
      · exact hsecond
  · rintro ⟨⟨g, hg, hge⟩, hall⟩
    refine ⟨hall _ rfl, hall _ rfl, ?_⟩
    rcases eq_side hge with rfl | rfl
    · exact .inl ((hmem _).1 hg).2
    · exact .inr ((hmem _).1 hg).2

/-- A vertex is deleted if it was a corner and has no edge left. -/
theorem liveVertex_iff_bare (hc : c.WellFormed) (hf : c.isLiveFacet f = true) (h : c.Detached f c') (v : Vertex) :
    c'.isLiveVertex v = true ↔ c.isLiveVertex v = true ∧ ¬ (v ∈ c.corners f ∧ c'.Bare v) := by
  rw [h.liveVertex]
  refine and_congr_right fun _ => ?_
  constructor
  · rintro (hbare | hedge) ⟨hmem, hbare'⟩
    · obtain ⟨a, ha, -, ht⟩ := (hc.mem_corners_tail hf).1 hmem
      exact hbare a ha ht
    · exact hedge hbare'
  · intro hnot
    -- A vertex that is no corner has an edge left if it had one, and it was not deleted if it had none.
    by_cases hbare : c.Bare v
    · exact .inl hbare
    · right
      intro hbare'
      by_cases hmem : v ∈ c.corners f
      · exact hnot ⟨hmem, hbare'⟩
      · exact h.not_bare_of_notMem hc hf hmem hbare hbare'

end Detached

/-- Deleting a facet of links that are in order. -/
theorem WellFormed.facetDeleted (hc : c.WellFormed) (hf : c.isLiveFacet f = true) :
    c.FacetDeleted f (c.deleteFacet f) := by
  have h := hc.deleteFacet hf
  have hmem := (hc.ringOf hf).mem
  exact {
    accepted := accepted_iff.2 h.wellFormed
    liveFacet := h.liveFacet
    liveEdge := h.liveEdge_iff hc hf
    liveVertex := h.liveVertex_iff_bare hc hf
    -- The ring of the facet has all its halfedges, so these are put on the border and no others.
    released := by
      intro g hg _
      obtain ⟨hlive, hgf⟩ := (hmem g).1 hg
      rw [isBorder_iff, h.facetOf g hlive, if_pos hgf]
    facetOf := by
      intro g hg hnot
      rw [h.facetOf g hg, if_neg fun hgf => hnot ((hmem g).2 ⟨hg, hgf⟩)]
    ring := fun g hg hne => h.ring g ((h.liveFacet g).2 ⟨hg, hne⟩)
    head := h.head
    vertexCount := h.size_vertices
    edgeCount := size_edges_deleteFacet c f
    facetCount := h.size_facets
  }

/-- On links that the check accepts and whose rings hold all halfedges of their facets, the deletion of a facet ends,
and has these effects and no others. -/
theorem deleteFacet_effects (hc : c.Accepted) (hf : c.isLiveFacet f = true) :
    c.DeletionEnds f ∧ c.FacetDeleted f (c.deleteFacet f) := by
  have hwell := accepted_iff.1 hc
  exact ⟨hwell.deletionEnds hf, hwell.facetDeleted hf⟩

/-- Of three triangles that meet in one vertex the second one is deleted. -/
theorem deleteFacet_effects_pinwheel :
    pinwheel.Accepted ∧ pinwheel.isLiveFacet ⟨1⟩ = true ∧
      pinwheel.DeletionEnds ⟨1⟩ ∧ pinwheel.FacetDeleted ⟨1⟩ (pinwheel.deleteFacet ⟨1⟩) := by
  have haccepted := accepted_iff.2 wellFormed_pinwheel
  have hlive : pinwheel.isLiveFacet ⟨1⟩ = true := by decide +kernel
  exact ⟨haccepted, hlive, deleteFacet_effects haccepted hlive⟩

end Connectivity

end RegionMesh
