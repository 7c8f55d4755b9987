import Mathlib.Data.List.Rotate
import RegionMesh.Proofs.Connectivity.WellFormed
import RegionMesh.Proofs.CyclicList

/-!
# Adjacency by corners

Every halfedge of a facet leads from one corner to the next one, so a facet's halfedges are known by the pairs of its
consecutive corners (`WellFormed.mem_sides`). On links that have come about facet by facet there is one halfedge at
most between two vertices in one direction, and one at least of two opposite halfedges has a facet. Then the corners
of all facets determine which facets lie side by side (`WellFormed.facetOf_eq_some`), and which halfedges are on the
border (`WellFormed.border_perm`).
-/

namespace RegionMesh

/-- The successors of a list are the list, rotated by one. -/
theorem successors_eq_rotate {α : Type} (l : List α) : successors l = l.rotate 1 := by
  cases l with
  | nil => rfl
  | cons a l => simp [successors]

/-- Different elements follow different ones, so no pair repeats. -/
theorem nodup_cyclicPairs {α : Type} {l : List α} (hl : l.Nodup) : (cyclicPairs l).Nodup := by
  refine List.Nodup.of_map Prod.fst ?_
  unfold cyclicPairs
  rw [List.map_fst_zip (by simp)]
  exact hl

namespace Connectivity

variable (c : Connectivity)

/-- The vertices that a halfedge joins. -/
def ends (h : Halfedge) : Vertex × Vertex := (c.tail h, c.head h)

/-- The pairs of consecutive corners of all facets. -/
def sides : List (Vertex × Vertex) := c.liveFacets.flatMap fun f => cyclicPairs (c.corners f)

/-- The edges of a facet, in the order of its ring. -/
def edgesOf (f : Facet) : List Edge := (c.ring f).path.map Halfedge.edge

/-- The facet on which a vertex is followed by another one. -/
def facetAlong (x : Vertex × Vertex) : Option Facet :=
  c.liveFacets.find? fun f => x ∈ cyclicPairs (c.corners f)

/-- The opposite of a halfedge joins the same vertices the other way round. -/
@[simp]
theorem ends_opposite (h : Halfedge) : c.ends h.opposite = (c.ends h).swap := by
  unfold ends
  rw [tail_opposite, head_opposite]
  rfl

variable {c} {f g : Facet} {h : Halfedge} {x : Vertex × Vertex}

/-- A pair of vertices is a side if they are consecutive corners of a live facet. -/
theorem mem_sides_iff_corners : x ∈ c.sides ↔ ∃ f, c.isLiveFacet f = true ∧ x ∈ cyclicPairs (c.corners f) := by
  unfold sides
  simp only [List.mem_flatMap, mem_liveFacets]

/-- Two halfedges with the same ends are the same. -/
theorem Simple.ends_inj (hs : c.Simple) {g h : Halfedge} (hg : c.IsLive g) (hh : c.IsLive h)
    (he : c.ends g = c.ends h) : g = h :=
  hs.unique hg hh (Prod.mk.inj he).1 (Prod.mk.inj he).2

namespace WellFormed

section

variable (hc : c.WellFormed)

include hc

/-- The halfedges of a ring join consecutive corners, the first one the last corner and the first corner. -/
theorem cyclicPairs_corners (hf : c.isLiveFacet f = true) :
    cyclicPairs (c.corners f) = successors ((c.ring f).path.map c.ends) := by
  have hring := hc.ringOf hf
  obtain ⟨-, hnext⟩ := Orbit.iff_cyclicPairs.1 hring.orbit
  -- The corner at the head of a halfedge is the tail of the next halfedge of the ring.
  have hpairs : ∀ x ∈ cyclicPairs (c.ring f).path, Prod.map c.head c.head x = c.ends x.2 := by
    intro x hx
    have hlive := ((hring.mem x.1).1 (mem_of_mem_cyclicPairs hx).1).1
    have htail := (hc.next_live hlive).2
    rw [hnext x hx] at htail
    unfold ends
    rw [htail]
    rfl
  have hsnd : (cyclicPairs (c.ring f).path).map Prod.snd = successors (c.ring f).path := by
    unfold cyclicPairs
    exact List.map_snd_zip (by simp)
  calc cyclicPairs (c.corners f)
      = (cyclicPairs (c.ring f).path).map (Prod.map c.head c.head) := cyclicPairs_map c.head _
    _ = (cyclicPairs (c.ring f).path).map (c.ends ∘ Prod.snd) := List.map_congr_left hpairs
    _ = (successors (c.ring f).path).map c.ends := by rw [← List.map_map, hsnd]
    _ = successors ((c.ring f).path.map c.ends) := (successors_map c.ends _).symm

/-- The ends of the halfedges of a ring are the pairs of consecutive corners, from the pair on that comes back to the
first corner. -/
theorem map_ends_ring (hf : c.isLiveFacet f = true) :
    (c.ring f).path.map c.ends = (cyclicPairs (c.corners f)).rotate (c.facetValence f - 1) := by
  -- A rotation by one is undone by going on round the ring.
  have hlen : 1 + (c.facetValence f - 1) = ((c.ring f).path.map c.ends).length := by
    have hthree := (hc.ringOf hf).length
    rw [List.length_map, facetValence]
    omega
  calc (c.ring f).path.map c.ends
      = (((c.ring f).path.map c.ends).rotate 1).rotate (c.facetValence f - 1) := by
        rw [List.rotate_rotate, hlen, List.rotate_length]
    _ = (successors ((c.ring f).path.map c.ends)).rotate (c.facetValence f - 1) := by
        rw [successors_eq_rotate]
    _ = (cyclicPairs (c.corners f)).rotate (c.facetValence f - 1) := by rw [hc.cyclicPairs_corners hf]

/-- The pairs of consecutive corners of a facet are the ends of its halfedges. -/
theorem mem_cyclicPairs_corners (hf : c.isLiveFacet f = true) :
    x ∈ cyclicPairs (c.corners f) ↔ ∃ h, c.IsLive h ∧ c.facetOf h = some f ∧ c.ends h = x := by
  rw [hc.cyclicPairs_corners hf, (successors_perm _).mem_iff, List.mem_map]
  simp only [(hc.ringOf hf).mem, and_assoc]

/-- The ends of a halfedge of a facet are consecutive corners. -/
theorem ends_mem (hh : c.IsLive h) (hf : c.facetOf h = some f) : c.ends h ∈ cyclicPairs (c.corners f) :=
  (hc.mem_cyclicPairs_corners (hc.facet_live hh hf)).2 ⟨h, hh, hf, rfl⟩

/-- The pairs of consecutive corners of all facets are the ends of the halfedges that have a facet. -/
theorem mem_sides : x ∈ c.sides ↔ ∃ h, c.IsLive h ∧ c.facetOf h ≠ none ∧ c.ends h = x := by
  rw [mem_sides_iff_corners]
  constructor
  · rintro ⟨f, hf, hx⟩
    obtain ⟨h, hh, hhf, hends⟩ := (hc.mem_cyclicPairs_corners hf).1 hx
    exact ⟨h, hh, by simp [hhf], hends⟩
  · rintro ⟨h, hh, hhf, rfl⟩
    obtain ⟨f, hf⟩ := Option.ne_none_iff_exists'.1 hhf
    exact ⟨f, hc.facet_live hh hf, hc.ends_mem hh hf⟩

end

variable (hc : c.WellFormed) (hs : c.Simple)

include hc hs

/-- A halfedge has a facet if the vertices that it joins are consecutive corners there. -/
theorem facetOf_eq_some (hh : c.IsLive h) :
    c.facetOf h = some f ↔ c.isLiveFacet f = true ∧ c.ends h ∈ cyclicPairs (c.corners f) := by
  constructor
  · exact fun hf => ⟨hc.facet_live hh hf, hc.ends_mem hh hf⟩
  · rintro ⟨hf, hmem⟩
    obtain ⟨g, hg, hgf, hends⟩ := (hc.mem_cyclicPairs_corners hf).1 hmem
    rwa [← hs.ends_inj hg hh hends]

/-- A halfedge is on the border if the vertices that it joins are consecutive corners of no facet. -/
theorem facetOf_eq_none (hh : c.IsLive h) : c.facetOf h = none ↔ c.ends h ∉ c.sides := by
  rw [mem_sides_iff_corners, Option.eq_none_iff_forall_ne_some]
  simp only [Ne, hc.facetOf_eq_some hs hh, not_exists]

/-- Two vertices are consecutive corners of one facet at most. -/
theorem side_unique (hf : c.isLiveFacet f = true) (hg : c.isLiveFacet g = true)
    (hxf : x ∈ cyclicPairs (c.corners f)) (hxg : x ∈ cyclicPairs (c.corners g)) : f = g := by
  obtain ⟨h, hh, hhf, rfl⟩ := (hc.mem_cyclicPairs_corners hf).1 hxf
  have hhg := (hc.facetOf_eq_some hs hh).2 ⟨hg, hxg⟩
  rw [hhf] at hhg
  exact Option.some.inj hhg

/-- The search for the facet on which a vertex is followed by another one finds the only one. -/
theorem facetAlong_eq_some :
    c.facetAlong x = some f ↔ c.isLiveFacet f = true ∧ x ∈ cyclicPairs (c.corners f) := by
  unfold facetAlong
  constructor
  · intro hfind
    have hmem := List.mem_of_find?_eq_some hfind
    have hx := List.find?_some hfind
    exact ⟨mem_liveFacets.1 hmem, by simpa using hx⟩
  -- The search finds some facet, and no other one than `f` has the side.
  · rintro ⟨hf, hx⟩
    obtain ⟨g, hg⟩ : ∃ g, c.liveFacets.find? (fun f => x ∈ cyclicPairs (c.corners f)) = some g := by
      rw [← Option.isSome_iff_exists, List.find?_isSome]
      exact ⟨f, mem_liveFacets.2 hf, by simpa using hx⟩
    have hglive := mem_liveFacets.1 (List.mem_of_find?_eq_some hg)
    have hxg : x ∈ cyclicPairs (c.corners g) := by simpa using List.find?_some hg
    rw [hg, hc.side_unique hs hglive hf hxg hx]

/-- The facet of a halfedge is the one on which its head follows its tail. -/
theorem facetOf_eq_facetAlong (hh : c.IsLive h) : c.facetOf h = c.facetAlong (c.ends h) := by
  refine Option.ext fun f => ?_
  rw [hc.facetOf_eq_some hs hh, hc.facetAlong_eq_some hs]

/-- The neighbours of a facet are found along the pairs of its consecutive corners, turned round, in the order of its
ring. -/
theorem neighbors_eq (hf : c.isLiveFacet f = true) : c.neighbors f =
    ((cyclicPairs (c.corners f)).rotate (c.facetValence f - 1)).filterMap fun x => c.facetAlong x.swap := by
  unfold neighbors
  rw [← hc.map_ends_ring hf, List.filterMap_map]
  refine List.filterMap_congr fun h hh => ?_
  have hlive := (((hc.ringOf hf).mem h).1 hh).1
  rw [hc.facetOf_eq_facetAlong hs (h := h.opposite) hlive, ends_opposite]
  rfl

omit hs in
/-- The edges of a facet are those of its halfedges. -/
theorem mem_edgesOf {f : Facet} (hf : c.isLiveFacet f = true) {e : Edge} :
    e ∈ c.edgesOf f ↔ ∃ h, c.IsLive h ∧ c.facetOf h = some f ∧ h.edge = e := by
  unfold edgesOf
  rw [List.mem_map]
  simp only [(hc.ringOf hf).mem, and_assoc]

/-- Different facets have one edge in common if they have one side in common. -/
theorem existsUnique_edge {f g : Facet} (hf : c.isLiveFacet f = true) (hg : c.isLiveFacet g = true) (hne : f ≠ g)
    (hside : ∃! x, x ∈ cyclicPairs (c.corners f) ∧ x.swap ∈ cyclicPairs (c.corners g)) :
    ∃! e, e ∈ c.edgesOf f ∧ e ∈ c.edgesOf g := by
  obtain ⟨x, ⟨hx, hx'⟩, hunique⟩ := hside
  obtain ⟨h, hh, hhf, rfl⟩ := (hc.mem_cyclicPairs_corners hf).1 hx
  rw [← ends_opposite] at hx'
  have hhg : c.facetOf h.opposite = some g := (hc.facetOf_eq_some hs (h := h.opposite) hh).2 ⟨hg, hx'⟩
  refine ⟨h.edge, ⟨(hc.mem_edgesOf hf).2 ⟨h, hh, hhf, rfl⟩, (hc.mem_edgesOf hg).2 ⟨h.opposite, hh, hhg, rfl⟩⟩, ?_⟩
  rintro e ⟨hef, heg⟩
  obtain ⟨a, ha, haf, rfl⟩ := (hc.mem_edgesOf hf).1 hef
  obtain ⟨b, hb, hbg, hedge⟩ := (hc.mem_edgesOf hg).1 heg
  -- The facets are on the two sides of the edge.
  have hopposite : b = a.opposite := by
    refine (Halfedge.eq_or_eq_opposite hedge).resolve_left ?_
    rintro rfl
    rw [haf] at hbg
    exact hne (Option.some.inj hbg)
  subst hopposite
  have hback := hc.ends_mem hb hbg
  rw [ends_opposite] at hback
  have hsame := hunique (c.ends a) ⟨hc.ends_mem ha haf, hback⟩
  rw [hs.ends_inj ha hh hsame]

/-! ## Counting halfedges -/

/-- Every pair of consecutive corners is listed once. -/
theorem nodup_sides (hn : ∀ f, c.isLiveFacet f = true → (c.corners f).Nodup) : c.sides.Nodup := by
  unfold sides
  rw [List.nodup_flatMap]
  refine ⟨fun f hf => nodup_cyclicPairs (hn f (mem_liveFacets.1 hf)), ?_⟩
  refine (List.Nodup.pairwise_of_forall_ne c.nodup_liveFacets fun f hf g hg hne => ?_)
  intro x hxf hxg
  exact hne (hc.side_unique hs (mem_liveFacets.1 hf) (mem_liveFacets.1 hg) hxf hxg)

/-- The ends of the halfedges that have a facet are the pairs of consecutive corners. -/
theorem interior_perm (hn : ∀ f, c.isLiveFacet f = true → (c.corners f).Nodup) :
    ((c.liveHalfedges.filter fun h => !c.isBorder h).map c.ends).Perm c.sides := by
  refine (List.perm_ext_iff_of_nodup ?_ (hc.nodup_sides hs hn)).2 fun x => ?_
  · refine (c.nodup_liveHalfedges.filter _).map_on fun g hg h hh he => ?_
    exact hs.ends_inj (mem_liveHalfedges.1 (List.mem_filter.1 hg).1)
      (mem_liveHalfedges.1 (List.mem_filter.1 hh).1) he
  · rw [hc.mem_sides, List.mem_map]
    simp [List.mem_filter, mem_liveHalfedges, isBorder, and_assoc, Option.ne_none_iff_isSome]

/-- The ends of the halfedges on the border are the pairs of consecutive corners that no facet has in the other
direction, turned round. -/
theorem border_perm (hn : ∀ f, c.isLiveFacet f = true → (c.corners f).Nodup) :
    ((c.liveHalfedges.filter c.isBorder).map fun h => (c.ends h).swap).Perm
      (c.sides.filter fun x => x.swap ∉ c.sides) := by
  refine (List.perm_ext_iff_of_nodup ?_ ((hc.nodup_sides hs hn).filter _)).2 fun x => ?_
  · refine (c.nodup_liveHalfedges.filter _).map_on fun g hg h hh he => ?_
    exact hs.ends_inj (mem_liveHalfedges.1 (List.mem_filter.1 hg).1)
      (mem_liveHalfedges.1 (List.mem_filter.1 hh).1) (Prod.swap_injective he)
  · simp only [List.mem_map, List.mem_filter, mem_liveHalfedges, isBorder_iff, decide_eq_true_eq]
    constructor
    · rintro ⟨h, ⟨hh, hborder⟩, rfl⟩
      rw [Prod.swap_swap, ← hc.facetOf_eq_none hs hh, ← ends_opposite]
      refine ⟨?_, hborder⟩
      -- The other side of the edge has a facet.
      exact hc.mem_sides.2 ⟨h.opposite, hh, hs.faced hh hborder, rfl⟩
    · rintro ⟨hx, hswap⟩
      obtain ⟨h, hh, -, rfl⟩ := hc.mem_sides.1 hx
      rw [← ends_opposite, ← hc.facetOf_eq_none hs (h := h.opposite) hh] at hswap
      refine ⟨h.opposite, ⟨hh, hswap⟩, ?_⟩
      rw [ends_opposite, Prod.swap_swap]

end WellFormed

end Connectivity

end RegionMesh
