import RegionMesh.Proofs.Connectivity.Attachment
import RegionMesh.Proofs.Connectivity.Removed

/-!
# Links after a deletion

A facet is deleted without disturbing anything else (`WellFormed.deleteFacet`): its halfedges are put on the
border (`Released`), the edges that have no facet left are taken out (`Linked.removeEdges`), and its corners
choose a halfedge on the border again (`preferBorders_spec`). The rings of the other facets stay what they
were, as only the border is linked anew.

Of the corners those go that belong to no other facet, as long as every edge has a facet
(`Detached.liveVertex_iff`).
-/

namespace RegionMesh

namespace Connectivity

variable {c c' : Connectivity}

/-! ## Releasing a ring -/

/-- The halfedges of a list have been put on the border. -/
structure Released (c : Connectivity) (l : List Halfedge) (es : List Edge) (c' : Connectivity) : Prop where
  /-- The vertices are the same. -/
  vertices : c'.vertices = c.vertices
  /-- The facets are the same. -/
  facets : c'.facets = c.facets
  /-- The same edges are live. -/
  live : ∀ e, c'.isLiveEdge e = c.isLiveEdge e
  /-- Halfedges point where they did. -/
  head : ∀ g, c'.head g = c.head g
  /-- Halfedges keep their next ones. -/
  next : ∀ g, c'.next g = c.next g
  /-- Halfedges keep their previous ones. -/
  prev : ∀ g, c'.prev g = c.prev g
  /-- The halfedges of the list have no facet, and the others the one that they had. -/
  facetOf : ∀ g, c'.facetOf g = if g ∈ l then none else c.facetOf g
  /-- The edges are those of the list that have no facet left. -/
  mem : ∀ e, e ∈ es ↔ ∃ h ∈ l, h.edge = e ∧ c'.facetOf h.opposite = none
  /-- Every edge is listed once. -/
  nodup : es.Nodup

/-- The first halfedge of a ring is put on the border, then the others are. -/
theorem releaseRing_cons (h : Halfedge) (rest : List Halfedge) (c : Connectivity) :
    releaseRing (h :: rest) c =
      (if (c.setFacet h none).isBorder h.opposite then h.edge :: (releaseRing rest (c.setFacet h none)).1
        else (releaseRing rest (c.setFacet h none)).1,
        (releaseRing rest (c.setFacet h none)).2) := rfl

/-- Releasing a ring takes the facets of its halfedges. -/
theorem releaseRing_snd (l : List Halfedge) (c : Connectivity) : (releaseRing l c).2 = c.setFacets l none := by
  induction l generalizing c with
  | nil => rfl
  | cons h rest ih =>
    rw [releaseRing_cons, ih]
    rfl

/-- The edge of the first halfedge is listed right away unless its other side is released later. -/
theorem isBorder_release {h : Halfedge} {rest : List Halfedge}
    (hl : ∀ g ∈ h :: rest, g.edge.slot < c.edges.size ∧ c.facetOf g ≠ none) :
    (c.setFacet h none).isBorder h.opposite = true ↔
      h.opposite ∉ rest ∧ (c.setFacets (h :: rest) none).facetOf h.opposite = none := by
  -- The other side is on the border once all are released, and if it is not released itself, it was before.
  have hne : h.opposite ≠ h := Halfedge.opposite_ne h
  rw [isBorder_iff, facetOf_setFacet c (hl h List.mem_cons_self).1 none, if_neg hne,
    facetOf_setFacets none fun g hg => (hl g hg).1]
  constructor
  · intro hnone
    have hnot : h.opposite ∉ rest := fun hmem => (hl _ (List.mem_cons_of_mem h hmem)).2 hnone
    exact ⟨hnot, by simp [hnot, hne, hnone]⟩
  · rintro ⟨hnot, hnone⟩
    rwa [if_neg (by simp [hnot, hne])] at hnone

/-- When the first halfedge has been released, the others still have their facets. -/
theorem stored_release {h : Halfedge} {rest : List Halfedge} (hn : h ∉ rest)
    (hl : ∀ g ∈ h :: rest, g.edge.slot < c.edges.size ∧ c.facetOf g ≠ none) :
    ∀ g ∈ rest, g.edge.slot < (c.setFacet h none).edges.size ∧ (c.setFacet h none).facetOf g ≠ none := by
  intro g hg
  obtain ⟨hgs, hgf⟩ := hl g (List.mem_cons_of_mem h hg)
  have hgh : g ≠ h := by
    rintro rfl
    exact hn hg
  rw [size_edges_setFacet, facetOf_setFacet c (hl h List.mem_cons_self).1 none, if_neg hgh]
  exact ⟨hgs, hgf⟩

/-- The edges that are listed are those of the ring that have no facet left. -/
theorem mem_releaseRing {l : List Halfedge} (hn : l.Nodup)
    (hl : ∀ h ∈ l, h.edge.slot < c.edges.size ∧ c.facetOf h ≠ none) (e : Edge) :
    e ∈ (releaseRing l c).1 ↔
      ∃ h ∈ l, h.edge = e ∧ (c.setFacets l none).facetOf h.opposite = none := by
  induction l generalizing c with
  | nil => simp [releaseRing]
  | cons h rest ih =>
    rw [List.nodup_cons] at hn
    have hbare := isBorder_release hl
    have hrest := ih hn.2 (stored_release hn.1 hl)
    rw [releaseRing_cons]
    by_cases hb : (c.setFacet h none).isBorder h.opposite = true
    · rw [if_pos hb, List.mem_cons, hrest]
      constructor
      · rintro (rfl | ⟨g, hg, hge, hgf⟩)
        · exact ⟨h, List.mem_cons_self, rfl, (hbare.1 hb).2⟩
        · exact ⟨g, List.mem_cons_of_mem h hg, hge, hgf⟩
      · rintro ⟨g, hg, hge, hgf⟩
        rcases List.mem_cons.1 hg with rfl | hg
        · exact Or.inl hge.symm
        · exact Or.inr ⟨g, hg, hge, hgf⟩
    · rw [if_neg hb, hrest]
      constructor
      · rintro ⟨g, hg, hge, hgf⟩
        exact ⟨g, List.mem_cons_of_mem h hg, hge, hgf⟩
      · rintro ⟨g, hg, hge, hgf⟩
        rcases List.mem_cons.1 hg with rfl | hg
        · -- The other side is released later, and the edge is listed then.
          have hopp : g.opposite ∈ rest := by
            by_contra hnot
            exact hb (hbare.2 ⟨hnot, hgf⟩)
          have hnone := facetOf_setFacets (c := c) none (fun k hk => (hl k hk).1) g
          rw [if_pos List.mem_cons_self] at hnone
          exact ⟨g.opposite, hopp, hge, (Halfedge.opposite_opposite g).symm ▸ hnone⟩
        · exact ⟨g, hg, hge, hgf⟩

/-- No edge is listed twice. -/
theorem nodup_releaseRing {l : List Halfedge} (hn : l.Nodup)
    (hl : ∀ h ∈ l, h.edge.slot < c.edges.size ∧ c.facetOf h ≠ none) : (releaseRing l c).1.Nodup := by
  induction l generalizing c with
  | nil => exact List.nodup_nil
  | cons h rest ih =>
    rw [List.nodup_cons] at hn
    have hstored := stored_release hn.1 hl
    rw [releaseRing_cons]
    by_cases hb : (c.setFacet h none).isBorder h.opposite = true
    · rw [if_pos hb, List.nodup_cons]
      refine ⟨fun hmem => ?_, ih hn.2 hstored⟩
      -- The first halfedge would be released again, or its other side later.
      obtain ⟨g, hg, hge, -⟩ := (mem_releaseRing hn.2 hstored _).1 hmem
      rcases Halfedge.eq_or_eq_opposite hge with rfl | rfl
      · exact hn.1 hg
      · exact ((isBorder_release hl).1 hb).1 hg
    · rw [if_neg hb]
      exact ih hn.2 hstored

/-- Releasing the halfedges of facets puts them on the border, and lists the edges without facets. -/
theorem releaseRing_spec {l : List Halfedge} (hn : l.Nodup)
    (hl : ∀ h ∈ l, h.edge.slot < c.edges.size ∧ c.facetOf h ≠ none) :
    Released c l (releaseRing l c).1 (releaseRing l c).2 := by
  rw [releaseRing_snd]
  -- Which links the halfedges have does not depend on the list of edges that is collected on the way.
  exact {
    vertices := vertices_setFacets l none
    facets := facets_setFacets l none
    live := isLiveEdge_setFacets l none
    head := head_setFacets l none
    next := next_setFacets l none
    prev := prev_setFacets l none
    facetOf := facetOf_setFacets none fun h hh => (hl h hh).1
    mem := mem_releaseRing hn hl
    nodup := nodup_releaseRing hn hl
  }

namespace Released

variable {l : List Halfedge} {es : List Edge}

/-- The halfedges that are released stay as live as they were. -/
theorem isLive (h : Released c l es c') (g : Halfedge) : c'.IsLive g ↔ c.IsLive g := by
  unfold IsLive
  rw [h.live]

/-- All halfedges start where they did before some were released. -/
theorem tail (h : Released c l es c') (g : Halfedge) : c'.tail g = c.tail g := h.head g.opposite

/-- The vertices are as live as before some halfedges were released. -/
theorem isLiveVertex (h : Released c l es c') (v : Vertex) : c'.isLiveVertex v = c.isLiveVertex v := by
  unfold Connectivity.isLiveVertex
  rw [h.vertices]

/-- Vertices store what they did before some halfedges were released. -/
theorem outgoing (h : Released c l es c') (v : Vertex) : c'.outgoing v = c.outgoing v := by
  unfold Connectivity.outgoing
  rw [h.vertices]

/-- A vertex has as many live edges as before some halfedges were released. -/
theorem bare_iff (h : Released c l es c') (v : Vertex) : c'.Bare v ↔ c.Bare v := by
  unfold Bare
  simp only [h.isLive, h.tail]

/-- A deleted edge has a side in the ring that was released, and both its sides are on the border. -/
theorem mem_iff (h : Released c l es c') (g : Halfedge) :
    g.edge ∈ es ↔ (g ∈ l ∨ g.opposite ∈ l) ∧ c'.facetOf g = none ∧ c'.facetOf g.opposite = none := by
  rw [h.mem]
  constructor
  · rintro ⟨k, hk, he, hb⟩
    have hbk : c'.facetOf k = none := by rw [h.facetOf, if_pos hk]
    rcases Halfedge.eq_or_eq_opposite he with rfl | rfl
    · exact ⟨Or.inl hk, hbk, hb⟩
    -- The edge is listed for its other side.
    · rw [Halfedge.opposite_opposite] at hb
      exact ⟨Or.inr hk, hb, hbk⟩
  · rintro ⟨hg | hg, hb, hb'⟩
    · exact ⟨g, hg, rfl, hb'⟩
    · exact ⟨g.opposite, hg, rfl, by rwa [Halfedge.opposite_opposite]⟩

/-- The links stay in order when the ring of a facet is released. -/
theorem linked {f : Facet} (hc : c.Linked) (hl : ∀ h, h ∈ l ↔ c.IsLive h ∧ c.facetOf h = some f)
    (h : Released c l es c') : c'.Linked := by
  refine hc.congr h.isLiveVertex h.isLive h.head h.next h.prev ?_ ?_ ?_
  · -- The next halfedge is in the ring if the halfedge is, so both are released or none.
    intro g hg
    have hfacet := hc.facet_next hg
    have hmem : c.next g ∈ l ↔ g ∈ l := by
      rw [hl, hl, hfacet]
      simp [hg, (hc.next_live hg).1]
    rw [h.facetOf, h.facetOf, hfacet]
    by_cases hgl : g ∈ l
    · rw [if_pos hgl, if_pos (hmem.2 hgl)]
    · rw [if_neg hgl, if_neg fun hn => hgl (hmem.1 hn)]
  · intro v g hv ho
    rw [h.outgoing] at ho
    exact hc.outgoing hv ho
  · intro v _ ho
    rwa [h.outgoing] at ho

end Released

/-! ## The deleted facet -/

/-- Only live vertices choose a halfedge on the border, and the choices of some leave the others live. -/
theorem foldl_preferBorder_live (vs : List Vertex) (c : Connectivity) :
    vs.foldl (fun c v => if c.isLiveVertex v then c.preferBorder v else c) c =
      (vs.filter c.isLiveVertex).foldl preferBorder c := by
  induction vs generalizing c with
  | nil => rfl
  | cons v rest ih =>
    rw [List.foldl_cons, ih]
    by_cases hv : c.isLiveVertex v = true
    -- A choice deletes no vertex, so the rest of the list is filtered as before.
    · have hsame : (c.preferBorder v).isLiveVertex = c.isLiveVertex :=
        funext (c.sameLinks_preferBorder v).live
      rw [if_pos hv, hsame, List.filter_cons_of_pos hv, List.foldl_cons]
    · rw [if_neg hv, List.filter_cons_of_neg hv]

/-- The links after the edges without facets were taken out. -/
def emptied (c : Connectivity) (f : Facet) : Connectivity :=
  (releaseRing (c.ring f).path c).1.foldl removeEdge (releaseRing (c.ring f).path c).2

/-- Only the corners that are left choose a halfedge on the border, on links from which the edges without facets are
gone. -/
theorem deleteFacet_eq (c : Connectivity) (f : Facet) : c.deleteFacet f =
    (((c.corners f).filter (c.emptied f).isLiveVertex).foldl preferBorder
      (c.emptied f)).markFacetDeleted f := by
  rw [← foldl_preferBorder_live]
  rfl

/-- What a mesh looks like after the edges of a facet that have no other facet were taken out. -/
structure Emptied (c : Connectivity) (f : Facet) (c' : Connectivity) : Prop where
  /-- There are as many vertices. -/
  size : c'.vertices.size = c.vertices.size
  /-- The facets are the same. -/
  facets : c'.facets = c.facets
  /-- The halfedges are linked as they should be. -/
  linked : c'.Linked
  /-- The edges of the facet without another facet are deleted. -/
  live : ∀ g, c'.IsLive g ↔ c.IsLive g ∧
    ¬ (c'.facetOf g = none ∧ c'.facetOf g.opposite = none ∧
      (c.facetOf g = some f ∨ c.facetOf g.opposite = some f))
  /-- The halfedges of the facet are on the border, and the others have the facets that they had. -/
  facetOf : ∀ g, c.IsLive g → c'.facetOf g = if c.facetOf g = some f then none else c.facetOf g
  /-- Halfedges point where they did. -/
  head : ∀ g, c'.head g = c.head g
  /-- Inside the facets the halfedges keep their next ones. -/
  next : ∀ g, c'.IsLive g → c'.facetOf g ≠ none → c'.next g = c.next g
  /-- Vertices are deleted with their last edge. -/
  liveVertex : ∀ v, c'.isLiveVertex v = true ↔ c.isLiveVertex v = true ∧ (c.Bare v ∨ ¬ c'.Bare v)
  /-- Vertices that are no corners store what they stored. -/
  outgoing : ∀ v, v ∉ c.corners f → c'.outgoing v = c.outgoing v
  /-- Deleted vertices store nothing. -/
  outgoing_live : (∀ v g, c.outgoing v = some g → c.isLiveVertex v = true) →
    ∀ v g, c'.outgoing v = some g → c'.isLiveVertex v = true

/-- Releasing a ring and taking out the edges without facets leaves what it should. -/
theorem WellFormed.emptied_of_removed {c₁ c₂ : Connectivity} {es : List Edge} {f : Facet}
    (hc : c.WellFormed) (hf : c.isLiveFacet f = true) (hrel : Released c (c.ring f).path es c₁)
    (hlinked : c₂.Linked) (hrem : c₁.Removed es c₂) : c.Emptied f c₂ := by
  have hring := hc.ringOf hf
  have hpath : ∀ g, c.IsLive g → (g ∈ (c.ring f).path ↔ c.facetOf g = some f) := by
    intro g hg
    rw [hring.mem]
    exact and_iff_right hg
  exact {
    size := by
      rw [hrem.size, hrel.vertices]
    facets := by
      rw [hrem.facets, hrel.facets]
    linked := hlinked
    live := by
      intro g
      rw [hrem.isLive, hrel.isLive, hrel.mem_iff, hrem.facetOf, hrem.facetOf]
      refine and_congr_right fun hg => not_congr ?_
      rw [hpath g hg, hpath g.opposite hg]
      tauto
    facetOf := by
      intro g hg
      rw [hrem.facetOf, hrel.facetOf]
      by_cases hgf : c.facetOf g = some f
      · rw [if_pos hgf, if_pos ((hpath g hg).2 hgf)]
      · rw [if_neg hgf, if_neg fun hp => hgf ((hpath g hg).1 hp)]
    head := fun g => (hrem.head g).trans (hrel.head g)
    next := by
      intro g hg hne
      rw [hrem.facetOf] at hne
      rw [hrem.next g hg hne, hrel.next]
    liveVertex := by
      intro v
      rw [← hrel.isLiveVertex, ← hrel.bare_iff]
      exact hrem.liveVertex v
    outgoing := by
      intro v hv
      rw [← hrel.outgoing]
      refine hrem.outgoing v fun g hg ht => hv ?_
      rw [hrel.tail] at ht
      -- A deleted edge has a side in the ring, so both its ends are corners.
      rcases ((hrel.mem_iff g).1 hg).1 with hside | hside
      · obtain ⟨hlive, hgf⟩ := (hring.mem g).1 hside
        exact (hc.mem_corners_tail hf).2 ⟨g, hlive, hgf, ht⟩
      · obtain ⟨hlive, hgf⟩ := (hring.mem _).1 hside
        exact (hc.mem_corners hf).2 ⟨g.opposite, hlive, hgf, ht⟩
    outgoing_live := by
      intro hall
      refine hrem.outgoing_live fun v g ho => ?_
      rw [hrel.isLiveVertex]
      rw [hrel.outgoing] at ho
      exact hall v g ho
  }

/-- The ring of a facet is put on the border, and its edges without another facet are taken out. -/
theorem WellFormed.emptied (hc : c.WellFormed) {f : Facet} (hf : c.isLiveFacet f = true) :
    c.Emptied f (c.emptied f) := by
  have hring := hc.ringOf hf
  have hslots : ∀ h ∈ (c.ring f).path, h.edge.slot < c.edges.size ∧ c.facetOf h ≠ none := by
    intro h hh
    obtain ⟨hlive, hfacet⟩ := (hring.mem h).1 hh
    exact ⟨hlive.slot_lt, by simp [hfacet]⟩
  have hrel := releaseRing_spec hring.orbit.nodup hslots
  -- Each edge that is listed has a halfedge on the ring, so it is live.
  have hlives : ∀ e ∈ (releaseRing (c.ring f).path c).1,
      (releaseRing (c.ring f).path c).2.isLiveEdge e = true := by
    intro e he
    obtain ⟨h, hh, rfl, -⟩ := (hrel.mem e).1 he
    rw [hrel.live]
    exact ((hring.mem h).1 hh).1
  obtain ⟨hlinked, hrem⟩ := (hrel.linked hc.toLinked hring.mem).removeEdges hrel.nodup hlives
    fun g hg => ((hrel.mem_iff g).1 hg).2.1
  exact hc.emptied_of_removed hf hrel hlinked hrem

namespace Emptied

variable {f : Facet}

/-- All halfedges start where they did before the edges were taken out. -/
theorem tail (h : c.Emptied f c') (g : Halfedge) : c'.tail g = c.tail g := h.head g.opposite

/-- A halfedge of another facet keeps it, so its edge is not taken out. -/
theorem keeps (h : c.Emptied f c') {a : Halfedge} {g : Facet} (ha : c.IsLive a) (hag : c.facetOf a = some g)
    (hne : g ≠ f) : c'.IsLive a ∧ c'.facetOf a = some g := by
  have hfacet : c'.facetOf a = some g := by
    rw [h.facetOf a ha, if_neg, hag]
    rw [hag]
    exact fun he => hne (Option.some.inj he)
  refine ⟨(h.live a).2 ⟨ha, fun hgone => ?_⟩, hfacet⟩
  rw [hfacet] at hgone
  cases hgone.1

/-- The halfedges that are left belong to no facet, or to another one that is live. -/
theorem facet_live (hc : c.WellFormed) (h : c.Emptied f c') {a : Halfedge} {g : Facet} (ha : c'.IsLive a)
    (hag : c'.facetOf a = some g) : c.isLiveFacet g = true ∧ g ≠ f := by
  have hlive := ((h.live a).1 ha).1
  rw [h.facetOf a hlive] at hag
  split at hag
  · cases hag
  · rename_i hne
    refine ⟨hc.facet_live hlive hag, ?_⟩
    rintro rfl
    exact hne hag

/-- The ring of another facet is the same. -/
theorem ringOf (hc : c.WellFormed) (h : c.Emptied f c') {g : Facet} (hg : c.isLiveFacet g = true)
    (hne : g ≠ f) : c'.RingOf g (c.ring g).path := by
  have hl := hc.ringOf hg
  refine ⟨hl.orbit.congr fun a ha => ?_, ?_, hl.length, fun a => ?_⟩
  · obtain ⟨halive, hag⟩ := (hl.mem a).1 ha
    obtain ⟨halive', hag'⟩ := h.keeps halive hag hne
    exact h.next a halive' (by simp [hag'])
  · rw [hl.head]
    unfold start
    rw [h.facets]
  -- A halfedge of another facet keeps its facet, and no halfedge gets a facet.
  · rw [hl.mem]
    constructor
    · rintro ⟨halive, hag⟩
      exact h.keeps halive hag hne
    · rintro ⟨halive, hag⟩
      have hlive := ((h.live a).1 halive).1
      rw [h.facetOf a hlive] at hag
      split at hag
      · cases hag
      · exact ⟨hlive, hag⟩

/-- A vertex that is no corner has its old halfedges with their old facets. -/
theorem borderFirst (hc : c.WellFormed) (hf : c.isLiveFacet f = true) (h : c.Emptied f c') {v : Vertex}
    (hv : c'.isLiveVertex v = true) (hmem : v ∉ c.corners f) : c'.BorderFirst v := by
  have hv' : c.isLiveVertex v = true := ((h.liveVertex v).1 hv).1
  -- The facet that is taken away has no side that leaves the vertex.
  have hkept : ∀ a, c.IsLive a → c.tail a = v → c'.facetOf a = c.facetOf a := by
    intro a ha hat
    rw [h.facetOf a ha, if_neg]
    exact fun haf => hmem ((hc.mem_corners_tail hf).2 ⟨a, ha, haf, hat⟩)
  refine (hc.borderFirst hv').congr (h.outgoing v hmem) (fun a ha => ?_) fun g hg ht => ?_
  · obtain ⟨halive, hat⟩ := hc.outgoing hv' ha
    exact hkept a halive hat
  · rw [h.tail] at ht
    have hlive := ((h.live g).1 hg).1
    exact ⟨hlive, ht, hkept g hlive ht⟩

end Emptied

/-- What a mesh looks like after a facet was deleted. -/
structure Detached (c : Connectivity) (f : Facet) (c' : Connectivity) : Prop where
  /-- There are as many vertices. -/
  size_vertices : c'.vertices.size = c.vertices.size
  /-- There are as many facets. -/
  size_facets : c'.facets.size = c.facets.size
  /-- The links are in order. -/
  wellFormed : c'.WellFormed
  /-- The other facets stay live. -/
  liveFacet : ∀ g, c'.isLiveFacet g = true ↔ c.isLiveFacet g = true ∧ g ≠ f
  /-- The other facets have their rings. -/
  ring : ∀ g, c'.isLiveFacet g = true → c'.ring g = c.ring g
  /-- The other facets have their corners. -/
  corners : ∀ g, c'.isLiveFacet g = true → c'.corners g = c.corners g
  /-- The edges of the facet without another facet are deleted. -/
  live : ∀ g, c'.IsLive g ↔ c.IsLive g ∧
    ¬ (c'.facetOf g = none ∧ c'.facetOf g.opposite = none ∧
      (c.facetOf g = some f ∨ c.facetOf g.opposite = some f))
  /-- The halfedges of the facet are on the border, and the others have the facets that they had. -/
  facetOf : ∀ g, c.IsLive g → c'.facetOf g = if c.facetOf g = some f then none else c.facetOf g
  /-- Halfedges point where they did. -/
  head : ∀ g, c'.head g = c.head g
  /-- Vertices are deleted with their last edge. -/
  liveVertex : ∀ v, c'.isLiveVertex v = true ↔ c.isLiveVertex v = true ∧ (c.Bare v ∨ ¬ c'.Bare v)
  /-- Deleted vertices store nothing. -/
  outgoing_live : (∀ v g, c.outgoing v = some g → c.isLiveVertex v = true) →
    ∀ v g, c'.outgoing v = some g → c'.isLiveVertex v = true

/-- The links of the mesh stay in order when the record of a facet without halfedges is marked. -/
theorem Linked.markFacetDeleted (hc : c.Linked) (f : Facet) : (c.markFacetDeleted f).Linked := by
  refine ⟨hc.head_live, hc.head_ne_tail, hc.prev_next, hc.facet_next, ?_, hc.outgoing, hc.isolated⟩
  intro v hv
  obtain ⟨l, hl⟩ := hc.fan hv
  exact ⟨l, hl.orbit, hl.mem⟩

/-- The ring of a facet stays when the record of a facet without halfedges is marked. -/
theorem RingOf.markFacetDeleted {g : Facet} {l : List Halfedge} (hl : c.RingOf g l) (f : Facet) :
    (c.markFacetDeleted f).RingOf g l := by
  refine ⟨hl.orbit, ?_, hl.length, hl.mem⟩
  rw [start_markFacetDeleted]
  exact hl.head

namespace Emptied

variable {f : Facet} {c₃ : Connectivity} (he : c.Emptied f c') (hsame : c'.SameLinks c₃)

include he hsame

/-- The other facets stay live. -/
theorem isLiveFacet_marked (g : Facet) :
    (c₃.markFacetDeleted f).isLiveFacet g = true ↔ c.isLiveFacet g = true ∧ g ≠ f := by
  rw [isLiveFacet_markFacetDeleted, hsame.isLiveFacet, Bool.and_eq_true, decide_eq_true_eq]
  unfold isLiveFacet
  rw [he.facets]

/-- The other facets have their rings. -/
theorem ringOf_marked (hc : c.WellFormed) {g : Facet} (hg : (c₃.markFacetDeleted f).isLiveFacet g = true) :
    (c₃.markFacetDeleted f).RingOf g (c.ring g).path := by
  obtain ⟨hgl, hgf⟩ := (he.isLiveFacet_marked hsame g).1 hg
  exact (hsame.ringOf (he.ringOf hc hgl hgf)).markFacetDeleted f

/-- The links are in order when the corners that are left have chosen a halfedge on the border if they have one, and
the other vertices store what they stored. -/
theorem wellFormed_marked (hc : c.WellFormed) (hf : c.isLiveFacet f = true) (hlinked : c₃.Linked)
    (hfirst : ∀ v ∈ (c.corners f).filter c'.isLiveVertex, (c₃.markFacetDeleted f).BorderFirst v)
    (hkeep : ∀ v, v ∉ (c.corners f).filter c'.isLiveVertex → c₃.outgoing v = c'.outgoing v) :
    (c₃.markFacetDeleted f).WellFormed where
  toLinked := hlinked.markFacetDeleted f
  borderFirst := by
    intro v hv
    replace hv : c'.isLiveVertex v = true := (hsame.live v).symm.trans hv
    -- A corner has chosen, and the stored halfedge of any other vertex is as good as before.
    by_cases hmem : v ∈ c.corners f
    · exact hfirst v (List.mem_filter.2 ⟨hmem, hv⟩)
    · have hnotmem : v ∉ (c.corners f).filter c'.isLiveVertex := fun h => hmem (List.mem_filter.1 h).1
      exact hsame.borderFirst (hkeep v hnotmem) (he.borderFirst hc hf hv hmem)
  facet_live := by
    intro a g ha hag
    have hag' : c'.facetOf a = some g := (hsame.facetOf a).symm.trans hag
    exact (he.isLiveFacet_marked hsame g).2 (he.facet_live hc ((hsame.isLive a).1 ha) hag')
  ring := fun hg => ⟨_, he.ringOf_marked hsame hc hg⟩

end Emptied

/-- A facet is deleted with the edges and vertices that belong to it alone, and nothing else changes. -/
theorem WellFormed.deleteFacet (hc : c.WellFormed) {f : Facet} (hf : c.isLiveFacet f = true) :
    c.Detached f (c.deleteFacet f) := by
  have he := hc.emptied hf
  have hsame := (c.emptied f).sameLinks_preferBorders
    ((c.corners f).filter (c.emptied f).isLiveVertex)
  have hleft : ∀ v ∈ (c.corners f).filter (c.emptied f).isLiveVertex,
      (c.emptied f).isLiveVertex v = true := fun v hv => (List.mem_filter.1 hv).2
  obtain ⟨hlinked, hfirst, hkeep⟩ := preferBorders_spec he.linked hleft
  rw [deleteFacet_eq]
  generalize ((c.corners f).filter (c.emptied f).isLiveVertex).foldl preferBorder (c.emptied f) = c₃
    at hsame hlinked hfirst hkeep
  -- Marking the record of the facet changes nothing but which facets are live.
  have hfacet : ∀ g, (c₃.markFacetDeleted f).facetOf g = (c.emptied f).facetOf g := hsame.facetOf
  have hhead : ∀ g, (c₃.markFacetDeleted f).head g = c.head g :=
    fun g => (hsame.head g).trans (he.head g)
  have hlive : ∀ g, (c₃.markFacetDeleted f).IsLive g ↔ (c.emptied f).IsLive g := hsame.isLive
  have hlivev : ∀ v, (c₃.markFacetDeleted f).isLiveVertex v = (c.emptied f).isLiveVertex v := hsame.live
  have hbare : ∀ v, (c₃.markFacetDeleted f).Bare v ↔ (c.emptied f).Bare v := by
    intro v
    unfold Bare
    simp only [hlive]
    exact forall_congr' fun g => imp_congr_right fun _ => not_congr (by
      rw [show (c₃.markFacetDeleted f).tail g = _ from hsame.tail g])
  constructor
  case size_vertices => rw [vertices_markFacetDeleted, hsame.size, he.size]
  case size_facets =>
    unfold markFacetDeleted
    rw [Array.size_modify, hsame.facets, he.facets]
  case wellFormed => exact he.wellFormed_marked hsame hc hf hlinked hfirst hkeep
  case liveFacet => exact he.isLiveFacet_marked hsame
  case ring =>
    intro g hg
    obtain ⟨hgl, -⟩ := (he.isLiveFacet_marked hsame g).1 hg
    rw [(he.ringOf_marked hsame hc hg).ring_eq, (hc.ringOf hgl).ring_eq]
  case corners =>
    intro g hg
    calc (c₃.markFacetDeleted f).corners g = (c.ring g).path.map (c₃.markFacetDeleted f).head :=
          (he.ringOf_marked hsame hc hg).corners_eq
      _ = (c.ring g).path.map c.head := List.map_congr_left fun a _ => hhead a
  case live =>
    intro g
    rw [hlive, he.live, hfacet, hfacet]
  case facetOf => exact fun g hg => (hfacet g).trans (he.facetOf g hg)
  case head => exact hhead
  case liveVertex =>
    intro v
    rw [hlivev, hbare, he.liveVertex]
  case outgoing_live =>
    -- Corners that have chosen are live, and the others store what they stored.
    intro hall v a ho
    rw [hlivev]
    by_cases hmem : v ∈ (c.corners f).filter (c.emptied f).isLiveVertex
    · exact (List.mem_filter.1 hmem).2
    · refine he.outgoing_live hall v a ?_
      rw [← hkeep v hmem]
      exact ho

namespace Detached

variable {f : Facet}

/-- All halfedges start where they did before the facet was deleted. -/
theorem tail (h : c.Detached f c') (g : Halfedge) : c'.tail g = c.tail g := h.head g.opposite

/-- Meshes that are built facet by facet stay so. -/
theorem simple (hs : c.Simple) (h : c.Detached f c') : c'.Simple := by
  refine ⟨?_, ?_, fun ho => h.outgoing_live (fun v g ho' => hs.outgoing_live ho') _ _ ho⟩
  · intro g hg hnone hnone'
    obtain ⟨hlive, hnot⟩ := (h.live g).1 hg
    refine hnot ⟨hnone, hnone', ?_⟩
    -- One of the sides had a facet, and has lost it.
    by_contra hside
    rw [not_or] at hside
    rw [h.facetOf g hlive, if_neg hside.1] at hnone
    rw [h.facetOf g.opposite hlive, if_neg hside.2] at hnone'
    exact hs.faced hlive hnone hnone'
  · intro a b ha hb ht hh
    rw [h.tail, h.tail] at ht
    rw [h.head, h.head] at hh
    exact hs.unique ((h.live a).1 ha).1 ((h.live b).1 hb).1 ht hh

/-- A vertex that has an edge left is a corner of a facet that is left. -/
theorem corner_of_not_bare (hs : c.Simple) (h : c.Detached f c') {v : Vertex} (hedge : ¬ c'.Bare v) :
    ∃ g, c'.isLiveFacet g = true ∧ v ∈ c.corners g := by
  unfold Bare at hedge
  push Not at hedge
  obtain ⟨a, ha, ht⟩ := hedge
  -- The edge has a facet on one of its sides.
  cases hfacet : c'.facetOf a with
  | some g =>
    have hg := h.wellFormed.facet_live ha hfacet
    refine ⟨g, hg, ?_⟩
    rw [← h.corners g hg]
    exact (h.wellFormed.mem_corners_tail hg).2 ⟨a, ha, hfacet, ht⟩
  | none =>
    obtain ⟨g, hfacet'⟩ := Option.ne_none_iff_exists'.1 ((h.simple hs).faced ha hfacet)
    have hg := h.wellFormed.facet_live (h := a.opposite) ha hfacet'
    refine ⟨g, hg, ?_⟩
    rw [← h.corners g hg]
    exact (h.wellFormed.mem_corners hg).2 ⟨a.opposite, ha, hfacet', ht⟩

/-- A vertex that is no corner of the facet keeps its edges. -/
theorem not_bare_of_notMem (hc : c.WellFormed) (hf : c.isLiveFacet f = true) (h : c.Detached f c')
    {v : Vertex} (hmem : v ∉ c.corners f) (hbare : ¬ c.Bare v) : ¬ c'.Bare v := by
  intro hbare'
  refine hbare fun a ha ht => hbare' a ?_ ((h.tail a).trans ht)
  -- The edges that are taken out join corners of the facet.
  refine (h.live a).2 ⟨ha, fun hgone => hmem ?_⟩
  rcases hgone.2.2 with hside | hside
  · exact (hc.mem_corners_tail hf).2 ⟨a, ha, hside, ht⟩
  · exact (hc.mem_corners hf).2 ⟨a.opposite, ha, hside, ht⟩

/-- Of the corners of the facet those stay that are corners of another facet. -/
theorem liveVertex_iff (hc : c.WellFormed) (hs : c.Simple) (hf : c.isLiveFacet f = true)
    (h : c.Detached f c') (v : Vertex) : c'.isLiveVertex v = true ↔ c.isLiveVertex v = true ∧
      (v ∉ c.corners f ∨ ∃ g, c'.isLiveFacet g = true ∧ v ∈ c.corners g) := by
  rw [h.liveVertex]
  refine and_congr_right fun _ => ?_
  constructor
  -- On simple links a vertex has an edge exactly if it is a corner of some facet.
  · rintro (hbare | hedge)
    · left
      intro hmem
      obtain ⟨a, ha, -, ht⟩ := (hc.mem_corners_tail hf).1 hmem
      exact hbare a ha ht
    · exact Or.inr (h.corner_of_not_bare hs hedge)
  · rintro (hmem | ⟨g, hg, hmem⟩)
    · by_cases hbare : c.Bare v
      · exact Or.inl hbare
      · exact Or.inr (h.not_bare_of_notMem hc hf hmem hbare)
    · right
      rw [← h.corners g hg] at hmem
      obtain ⟨a, ha, -, ht⟩ := (h.wellFormed.mem_corners_tail hg).1 hmem
      exact fun hbare => hbare a ha ht

end Detached

end Connectivity

end RegionMesh
