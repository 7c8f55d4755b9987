import RegionMesh.Proofs.Connectivity.Attachment

/-!
# The sides of a new facet, linked

What the attachment of a facet does to each link (`Joins`, `Placement.joins`). It brings the new edges and the
facet (`Brings`), and it links the halfedges at the corners. All these links lead from halfedges that point
to a corner to halfedges that leave it (`Placement.link_ends`), so no halfedge is linked at two corners.
-/

namespace RegionMesh

namespace Connectivity

/-- The links after the new edges and the facet were stored, with the sides belonging to the facet but not linked
to each other. -/
def stored (c : Connectivity) (vs : List Vertex) (sides : List RingSide) : Connectivity :=
  let changed := (changeCorners ((successors vs).zip (cyclicPairs sides)) c).2
  giveFacet sides ⟨c.facets.size⟩ ((pushSides ((cyclicPairs vs).zip sides) changed).pushFacet
    (sides.getLast?.elim default RingSide.inner))

/-- The links after the sides of a facet were stored and linked, before some corners choose another halfedge
on the border. -/
def joined (c : Connectivity) (vs : List Vertex) (sides : List RingSide)
    (moved : List (Halfedge × Halfedge)) : Connectivity :=
  (c.stored vs sides).linkAll
    (moved ++ (changeCorners ((successors vs).zip (cyclicPairs sides)) c).1.flatMap (·.2.links))

/-- The corners that choose another halfedge on the border. -/
def adjusted (c : Connectivity) (vs : List Vertex) (sides : List RingSide) : List Vertex :=
  ((changeCorners ((successors vs).zip (cyclicPairs sides)) c).1.filter (·.2.adjust)).map Prod.fst

variable {c : Connectivity} {vs : List Vertex} {sides : List RingSide}
  {existing : List (Option Halfedge)} {moved : List (Halfedge × Halfedge)}

/-- A facet is joined to the links, and then some corners choose another halfedge on the border. -/
theorem attach_eq : c.attach vs sides moved =
    (⟨c.facets.size⟩, (c.adjusted vs sides).foldl preferBorder (c.joined vs sides moved)) := by
  unfold attach adjusted
  rw [List.foldl_map, List.foldl_filter]
  rfl

/-! ## What the attachment brings -/

/-- What a facet brings: its own record, its new edges, and itself to its sides. -/
structure Brings (c : Connectivity) (vs : List Vertex) (sides : List RingSide) (c' : Connectivity) :
    Prop where
  /-- There are as many vertices. -/
  size_vertices : c'.vertices.size = c.vertices.size
  /-- There is one more facet. -/
  size_facets : c'.facets.size = c.facets.size + 1
  /-- The same vertices are live. -/
  liveVertex : ∀ v, c'.isLiveVertex v = c.isLiveVertex v
  /-- The facet is live, and so are those that were. -/
  liveFacet : ∀ g, c'.isLiveFacet g = true ↔ g = ⟨c.facets.size⟩ ∨ c.isLiveFacet g = true
  /-- The facet starts at its last side. -/
  start_new : c'.start ⟨c.facets.size⟩ = sides.getLast?.elim default RingSide.inner
  /-- The other facets start where they did. -/
  start_old : ∀ g, c.isLiveFacet g = true → c'.start g = c.start g
  /-- The new edges are live, and so are those that were. -/
  live : ∀ g, c'.IsLive g ↔
    c.IsLive g ∨ ∃ x ∈ (cyclicPairs vs).zip sides, x.2.fresh = true ∧ x.2.inner.edge = g.edge
  /-- The new edges are stored. -/
  size : ∀ x ∈ (cyclicPairs vs).zip sides, x.2.fresh = true →
    c.edges.size ≤ x.2.inner.edge.slot ∧ x.2.inner.edge.slot < c'.edges.size
  /-- Stored halfedges point where they did. -/
  head : ∀ g, g.edge.slot < c.edges.size → c'.head g = c.head g
  /-- The new edges join the corners that they are brought for. -/
  ends : ∀ x ∈ (cyclicPairs vs).zip sides, x.2.fresh = true →
    c'.tail x.2.inner = x.1.1 ∧ c'.head x.2.inner = x.1.2
  /-- The sides have the facet, and the other halfedges the facet that they had. -/
  facetOf : (∀ s ∈ sides, s.fresh = false → s.inner.edge.slot < c.edges.size) →
    ∀ g, c'.facetOf g =
      if g ∈ sides.map RingSide.inner then some ⟨c.facets.size⟩ else c.facetOf g

/-- The new edges are stored behind the others. -/
theorem pushed_changed (hlen : existing.length = vs.length) :
    Pushed (changeCorners ((successors vs).zip (cyclicPairs (ringSides existing c.edges.size))) c).2
      ((cyclicPairs vs).zip (ringSides existing c.edges.size))
      (pushSides ((cyclicPairs vs).zip (ringSides existing c.edges.size))
        (changeCorners ((successors vs).zip (cyclicPairs (ringSides existing c.edges.size))) c).2) := by
  have hedges := edges_changeCorners (c := c)
    ((successors vs).zip (cyclicPairs (ringSides existing c.edges.size)))
  have hlen' : (cyclicPairs vs).length = existing.length := by rw [length_cyclicPairs, hlen]
  have hspec := pushSides_spec
    (c := (changeCorners ((successors vs).zip (cyclicPairs (ringSides existing c.edges.size))) c).2) hlen'
  rwa [hedges] at hspec

/-- Storing the sides does not link the halfedges that were stored. -/
theorem record_stored (hlen : existing.length = vs.length) {g : Halfedge}
    (hg : g.edge.slot < c.edges.size) :
    (c.stored vs (ringSides existing c.edges.size)).next g = c.next g ∧
      (c.stored vs (ringSides existing c.edges.size)).prev g = c.prev g := by
  have hpushed := pushed_changed (c := c) hlen
  have hrecord := hpushed.record (g := g) (by rwa [edges_changeCorners])
  rw [record_changeCorners] at hrecord
  unfold stored
  rw [giveFacet_eq, next_setFacets, prev_setFacets]
  exact ⟨congrArg HalfedgeRecord.next hrecord, congrArg HalfedgeRecord.prev hrecord⟩

section Linking

/-! Linking the sides and giving them their facet leaves the records of vertices and facets as they were stored, and
does not touch where halfedges point and which edges are live. -/

variable (c vs sides moved)

/-- The links after the new edges were stored. -/
def pushed : Connectivity :=
  pushSides ((cyclicPairs vs).zip sides) (changeCorners ((successors vs).zip (cyclicPairs sides)) c).2

/-- The vertices are those that there are when the new edges are stored. -/
theorem vertices_joined : (c.joined vs sides moved).vertices = (c.pushed vs sides).vertices := by
  unfold joined stored
  rw [vertices_linkAll, giveFacet_eq, vertices_setFacets, vertices_pushFacet]
  rfl

/-- One facet is added, which starts at the side that comes back to the first corner. -/
theorem facets_joined : (c.joined vs sides moved).facets =
    ((c.pushed vs sides).pushFacet (sides.getLast?.elim default RingSide.inner)).facets := by
  unfold joined stored
  rw [facets_linkAll, giveFacet_eq, facets_setFacets]
  rfl

/-- Halfedges end where they do when the new edges are stored. -/
theorem head_joined (g : Halfedge) : (c.joined vs sides moved).head g = (c.pushed vs sides).head g := by
  unfold joined stored
  rw [head_linkAll, giveFacet_eq, head_setFacets]
  rfl

/-- There are no more edges than those that are stored for the sides. -/
theorem size_edges_joined : (c.joined vs sides moved).edges.size = (c.pushed vs sides).edges.size := by
  unfold joined stored
  rw [size_edges_linkAll, giveFacet_eq, size_edges_setFacets]
  rfl

/-- The edges are as live as when the new ones are stored. -/
theorem isLiveEdge_joined (e : Edge) :
    (c.joined vs sides moved).isLiveEdge e = (c.pushed vs sides).isLiveEdge e := by
  unfold joined stored
  rw [isLiveEdge_linkAll, giveFacet_eq, isLiveEdge_setFacets]
  rfl

/-- The new facet is stored behind the others. -/
theorem isLiveFacet_joined (g : Facet) : (c.joined vs sides moved).isLiveFacet g =
    (g.slot = (c.pushed vs sides).facets.size || (c.pushed vs sides).isLiveFacet g) := by
  rw [← (c.pushed vs sides).isLiveFacet_pushFacet (sides.getLast?.elim default RingSide.inner)]
  unfold isLiveFacet
  rw [facets_joined]

/-- The new facet starts at its last side. -/
theorem start_joined (g : Facet) : (c.joined vs sides moved).start g =
    if g.slot = (c.pushed vs sides).facets.size then sides.getLast?.elim default RingSide.inner
      else (c.pushed vs sides).start g := by
  rw [← start_pushFacet]
  unfold start
  rw [facets_joined]

/-- The sides have the new facet, and all other halfedges what they had. -/
theorem facetOf_joined_eq (hs : ∀ s ∈ sides, s.inner.edge.slot < (c.pushed vs sides).edges.size)
    (g : Halfedge) : (c.joined vs sides moved).facetOf g =
      if g ∈ sides.map RingSide.inner then some ⟨c.facets.size⟩ else (c.pushed vs sides).facetOf g := by
  have hs' : ∀ h ∈ sides.map RingSide.inner, h.edge.slot < (c.pushed vs sides).edges.size := by
    simpa using hs
  unfold joined stored
  rw [facetOf_linkAll, giveFacet_eq]
  exact facetOf_setFacets (c := (c.pushed vs sides).pushFacet (sides.getLast?.elim default RingSide.inner))
    (some ⟨c.facets.size⟩) hs' g

end Linking

/-- A list of sides as long as the list of corners brings what it should, wherever its corners are. -/
theorem brings_joined (hlen : existing.length = vs.length) (moved : List (Halfedge × Halfedge)) :
    c.Brings vs (ringSides existing c.edges.size)
      (c.joined vs (ringSides existing c.edges.size) moved) := by
  let sides := ringSides existing c.edges.size
  let ends := (cyclicPairs vs).zip sides
  let changed := (changeCorners ((successors vs).zip (cyclicPairs sides)) c).2
  have hedges : changed.edges = c.edges := edges_changeCorners _
  have hrecord : ∀ g, changed.record g = c.record g := record_changeCorners _
  have hpushed : Pushed changed ends (c.pushed vs sides) := pushed_changed hlen
  have hmem : ∀ x ∈ ends, x.2 ∈ sides := fun x hx => (List.of_mem_zip hx).2
  have hfacets : (c.pushed vs sides).facets = c.facets :=
    hpushed.facets.trans (facets_changeCorners _)
  exact {
    size_vertices := by
      rw [vertices_joined, hpushed.vertices]
      exact size_vertices_changeCorners _
    size_facets := by
      rw [facets_joined]
      unfold pushFacet
      rw [Array.size_push, hfacets]
    liveVertex := by
      intro v
      unfold isLiveVertex
      rw [vertices_joined, hpushed.vertices]
      exact isLiveVertex_changeCorners _ v
    liveFacet := by
      rintro ⟨i⟩
      have hold : (c.pushed vs sides).isLiveFacet ⟨i⟩ = c.isLiveFacet ⟨i⟩ := by
        unfold isLiveFacet
        rw [hfacets]
      rw [isLiveFacet_joined, hfacets, hold, Bool.or_eq_true, decide_eq_true_eq, Facet.mk.injEq]
    start_new := by rw [start_joined, hfacets, if_pos rfl]
    start_old := by
      intro g hg
      rw [start_joined, hfacets, if_neg (Nat.ne_of_lt (slot_lt_of_isLiveFacet hg))]
      unfold start
      rw [hfacets]
    live := by
      intro g
      have hold : changed.isLiveEdge g.edge = c.isLiveEdge g.edge := by
        unfold isLiveEdge
        rw [hedges]
      unfold IsLive
      rw [isLiveEdge_joined, hpushed.live, hold]
    size := by
      intro x hx hf
      rw [size_edges_joined]
      exact ⟨(slot_le_of_fresh (hmem x hx) hf).1, (hpushed.ends x hx hf).1⟩
    head := by
      intro g hg
      rw [head_joined]
      unfold head
      rw [hpushed.record (by rwa [hedges]), hrecord]
    ends := by
      intro x hx hf
      obtain ⟨-, hhead, htail⟩ := hpushed.ends x hx hf
      unfold tail at htail ⊢
      rw [head_joined, head_joined]
      exact ⟨htail, hhead⟩
    facetOf := by
      intro hold g
      -- New sides are stored with the new edges, the others were stored before.
      have hstored : ∀ s ∈ sides, s.inner.edge.slot < (c.pushed vs sides).edges.size := by
        intro s hs
        rcases hf : s.fresh
        · have hle := hpushed.size_le
          rw [hedges] at hle
          exact Nat.lt_of_lt_of_le (hold s hs hf) hle
        · obtain ⟨u, v, hx⟩ := exists_side (l := vs) (by rw [length_ringSides, hlen]) hs
          exact (hpushed.ends _ hx hf).1
      have hfacet : (c.pushed vs sides).facetOf g = c.facetOf g := by
        refine (hpushed.facetOf g).trans ?_
        unfold Connectivity.facetOf
        rw [hrecord]
      rw [facetOf_joined_eq c vs sides moved hstored, hfacet]
  }

/-! ## What becomes of the links -/

/-- What an attachment does to the links: it brings what it should, links the halfedges at the corners, and
leaves the other links as they are. -/
structure Joins (c : Connectivity) (vs : List Vertex) (sides : List RingSide) (c' : Connectivity) : Prop
    extends c.Brings vs sides c' where
  /-- The links at the corners are set. -/
  next_on : ∀ k ∈ (successors vs).zip (cyclicPairs sides), ∀ x ∈ c.cornerLinks k.1 k.2.1 k.2.2,
    c'.next x.1 = x.2
  /-- The links at the corners are set in both directions. -/
  prev_on : ∀ k ∈ (successors vs).zip (cyclicPairs sides), ∀ x ∈ c.cornerLinks k.1 k.2.1 k.2.2,
    c'.prev x.2 = x.1
  /-- The other halfedges keep their next ones. -/
  next_off : ∀ g, g.edge.slot < c.edges.size → (∀ k ∈ (successors vs).zip (cyclicPairs sides),
    g ∉ (c.cornerLinks k.1 k.2.1 k.2.2).map Prod.fst) → c'.next g = c.next g
  /-- The other halfedges keep their previous ones. -/
  prev_off : ∀ g, g.edge.slot < c.edges.size → (∀ k ∈ (successors vs).zip (cyclicPairs sides),
    g ∉ (c.cornerLinks k.1 k.2.1 k.2.2).map Prod.snd) → c'.prev g = c.prev g
  /-- The corners store what their changes say. -/
  outgoing_corner : ∀ k ∈ (successors vs).zip (cyclicPairs sides), c'.outgoing k.1 =
    (c.cornerChange k.1 k.2.1 k.2.2).outgoing.or (c.outgoing k.1)
  /-- The other vertices store what they stored. -/
  outgoing_other : ∀ w, w ∉ vs → c'.outgoing w = c.outgoing w

namespace Placement

variable {c' : Connectivity}

/-- The corners are visited from the second one on. -/
theorem map_fst_corners (h : c.Placement vs existing moved) :
    ((successors vs).zip (cyclicPairs (ringSides existing c.edges.size))).map Prod.fst =
      successors vs := by
  refine List.map_fst_zip ?_
  rw [length_successors, length_cyclicPairs, h.length_sides]

/-- No vertex is the vertex of two corners. -/
theorem nodup_corners (h : c.Placement vs existing moved) :
    (((successors vs).zip (cyclicPairs (ringSides existing c.edges.size))).map Prod.fst).Nodup := by
  rw [h.map_fst_corners]
  exact (successors_perm vs).nodup_iff.2 h.nodup

/-- All corners are stored. -/
theorem corner_slot_lt (h : c.Placement vs existing moved) :
    ∀ k ∈ (successors vs).zip (cyclicPairs (ringSides existing c.edges.size)),
      k.1.slot < c.vertices.size :=
  fun _ hk => slot_lt_of_isLiveVertex (h.live _ (corner_mem h.length_sides hk))

/-- The new halfedges at a corner leave it. -/
theorem freshAt_leaves (h : c.Placement vs existing moved)
    (hb : c.Brings vs (ringSides existing c.edges.size) c') {v : Vertex} {p n : RingSide}
    (hk : (v, p, n) ∈ (successors vs).zip (cyclicPairs (ringSides existing c.edges.size)))
    {g : Halfedge} (hg : g ∈ freshAt p n) : c'.IsLive g ∧ c'.tail g = v := by
  obtain ⟨⟨u, hp⟩, w, hn⟩ := sides_of_corner h.length_sides hk
  unfold freshAt at hg
  -- What leaves the corner is the outer halfedge of the side that ends there, and the inner one of the side that
  -- starts there.
  rcases List.mem_append.1 hg with hg | hg
  · rcases hf : p.fresh
    · simp [hf] at hg
    · obtain rfl : g = p.outer := by simpa [hf] using hg
      refine ⟨(hb.live _).2 (Or.inr ⟨_, hp, hf, rfl⟩), ?_⟩
      rw [RingSide.outer, tail_opposite]
      exact (hb.ends _ hp hf).2
  · rcases hf : n.fresh
    · simp [hf] at hg
    · obtain rfl : g = n.inner := by simpa [hf] using hg
      exact ⟨(hb.live _).2 (Or.inr ⟨_, hn, hf, rfl⟩), (hb.ends _ hn hf).1⟩

/-- Live halfedges stay live and leave the vertices that they left. -/
theorem keeps (hb : c.Brings vs sides c') {g : Halfedge} (hg : c.IsLive g) :
    c'.IsLive g ∧ c'.tail g = c.tail g ∧ c'.head g = c.head g :=
  ⟨(hb.live g).2 (Or.inl hg), hb.head g.opposite hg.slot_lt, hb.head g hg.slot_lt⟩

/-- The links at a corner lead from halfedges that point to it to halfedges that leave it. -/
theorem link_ends (hc : c.Linked) (h : c.Placement vs existing moved)
    (hb : c.Brings vs (ringSides existing c.edges.size) c') {v : Vertex} {p n : RingSide}
    (hk : (v, p, n) ∈ (successors vs).zip (cyclicPairs (ringSides existing c.edges.size)))
    {x : Halfedge × Halfedge} (hx : x ∈ c.cornerLinks v p n) :
    (c'.IsLive x.1 ∧ c'.head x.1 = v) ∧ c'.IsLive x.2 ∧ c'.tail x.2 = v := by
  obtain ⟨hfst, hsnd⟩ := ((h.corner hc hk).rewires hc).ends x hx
  -- An old halfedge keeps its ends, and a new one is at the corner, or its opposite is.
  constructor
  · rcases hfst with ⟨hlive, hhead⟩ | hfresh
    · obtain ⟨hlive', -, hhead'⟩ := keeps hb hlive
      exact ⟨hlive', hhead'.trans hhead⟩
    · obtain ⟨hlive', htail'⟩ := h.freshAt_leaves hb hk hfresh
      rw [tail_opposite] at htail'
      exact ⟨hlive', htail'⟩
  · rcases hsnd with ⟨hlive, htail⟩ | hfresh
    · obtain ⟨hlive', htail', -⟩ := keeps hb hlive
      exact ⟨hlive', htail'.trans htail⟩
    · exact h.freshAt_leaves hb hk hfresh

/-- All links that are set are links at a corner. -/
theorem mem_links (h : c.Placement vs existing moved) {x : Halfedge × Halfedge} :
    x ∈ moved ++ (((successors vs).zip (cyclicPairs (ringSides existing c.edges.size))).map
        fun k => (k.1, c.cornerChange k.1 k.2.1 k.2.2)).flatMap (·.2.links) ↔
      ∃ k ∈ (successors vs).zip (cyclicPairs (ringSides existing c.edges.size)),
        x ∈ c.cornerLinks k.1 k.2.1 k.2.2 := by
  rw [List.mem_append, h.mem_moved]
  simp only [List.mem_flatMap, List.mem_map, cornerLinks, List.mem_append]
  constructor
  · rintro (⟨v, p, n, hk, hp, hn, hx⟩ | ⟨y, ⟨k, hk, rfl⟩, hx⟩)
    · exact ⟨_, hk, Or.inl (by simpa [hp, hn] using hx)⟩
    · exact ⟨k, hk, Or.inr hx⟩
  · rintro ⟨⟨v, p, n⟩, hk, hx | hx⟩
    -- Links are moved between two existing sides only.
    · rcases hp : p.fresh <;> rcases hn : n.fresh <;> simp [hp, hn] at hx
      exact Or.inl ⟨v, p, n, hk, hp, hn, hx⟩
    · exact Or.inr ⟨_, ⟨_, hk, rfl⟩, hx⟩

/-- No halfedge is linked at two corners. -/
theorem links_inj (hc : c.Linked) (h : c.Placement vs existing moved)
    (hb : c.Brings vs (ringSides existing c.edges.size) c') {x y : Halfedge × Halfedge}
    (hx : ∃ k ∈ (successors vs).zip (cyclicPairs (ringSides existing c.edges.size)),
      x ∈ c.cornerLinks k.1 k.2.1 k.2.2)
    (hy : ∃ k ∈ (successors vs).zip (cyclicPairs (ringSides existing c.edges.size)),
      y ∈ c.cornerLinks k.1 k.2.1 k.2.2) (he : x.1 = y.1 ∨ x.2 = y.2) : x = y := by
  obtain ⟨k, hk, hx⟩ := hx
  obtain ⟨k', hk', hy⟩ := hy
  have hxe := h.link_ends hc hb hk hx
  have hye := h.link_ends hc hb hk' hy
  -- Both links are at the vertex to which the first halfedges point and which the second ones leave.
  have hkk : k = k' := by
    refine corner_ext h.nodup h.length_sides hk hk' ?_
    rcases he with he | he
    · rw [← hxe.1.2, he, hye.1.2]
    · rw [← hxe.2.2, he, hye.2.2]
  subst hkk
  have hrewires := (h.corner hc hk).rewires hc
  rcases he with he | he
  · exact List.inj_on_of_nodup_map hrewires.fst_nodup hx hy he
  · exact List.inj_on_of_nodup_map hrewires.snd_nodup hx hy he

/-- The links that are set, with the corners' changes read off one by one. -/
theorem joined_eq (h : c.Placement vs existing moved) :
    c.joined vs (ringSides existing c.edges.size) moved =
      (c.stored vs (ringSides existing c.edges.size)).linkAll
        (moved ++ (((successors vs).zip (cyclicPairs (ringSides existing c.edges.size))).map
          fun k => (k.1, c.cornerChange k.1 k.2.1 k.2.2)).flatMap (·.2.links)) := by
  unfold joined
  rw [(changeCorners_spec h.nodup_corners h.corner_slot_lt).1]

/-- Links are set between stored halfedges. -/
theorem links_stored (hc : c.Linked) (h : c.Placement vs existing moved) {x : Halfedge × Halfedge}
    (hx : ∃ k ∈ (successors vs).zip (cyclicPairs (ringSides existing c.edges.size)),
      x ∈ c.cornerLinks k.1 k.2.1 k.2.2) :
    x.1.edge.slot < (c.stored vs (ringSides existing c.edges.size)).edges.size ∧
      x.2.edge.slot < (c.stored vs (ringSides existing c.edges.size)).edges.size := by
  -- Linking stores no edges, so that a halfedge which is live afterwards was stored before.
  have hlive : ∀ g, (c.joined vs (ringSides existing c.edges.size) moved).IsLive g →
      g.edge.slot < (c.stored vs (ringSides existing c.edges.size)).edges.size := by
    intro g hg
    have hlt := hg.slot_lt
    rwa [h.joined_eq, size_edges_linkAll] at hlt
  obtain ⟨k, hk, hxk⟩ := hx
  obtain ⟨hx₁, hx₂⟩ := h.link_ends hc (brings_joined h.length_existing moved) hk hxk
  exact ⟨hlive _ hx₁.1, hlive _ hx₂.1⟩

/-- The vertices store what the changes of the corners left. -/
theorem outgoing_joined_eq (h : c.Placement vs existing moved) (w : Vertex) :
    (c.joined vs (ringSides existing c.edges.size) moved).outgoing w =
      (changeCorners ((successors vs).zip (cyclicPairs (ringSides existing c.edges.size))) c).2.outgoing
        w := by
  have hvertices : (c.pushed vs (ringSides existing c.edges.size)).vertices = _ :=
    (pushed_changed (c := c) h.length_existing).vertices
  unfold outgoing
  rw [vertices_joined, hvertices]

/-- What the attachment does to the links. -/
theorem joins (hc : c.Linked) (h : c.Placement vs existing moved) :
    c.Joins vs (ringSides existing c.edges.size)
      (c.joined vs (ringSides existing c.edges.size) moved) := by
  have hb := brings_joined (c := c) h.length_existing moved
  -- The links are set between stored halfedges, and none of these gets two.
  obtain ⟨hnext, hnext'⟩ := next_linkAll (fun x hx => h.links_stored hc (h.mem_links.1 hx))
    fun x hx y hy he => h.links_inj hc hb (h.mem_links.1 hx) (h.mem_links.1 hy) (Or.inl he)
  obtain ⟨hprev, hprev'⟩ := prev_linkAll (fun x hx => h.links_stored hc (h.mem_links.1 hx))
    fun x hx y hy he => h.links_inj hc hb (h.mem_links.1 hx) (h.mem_links.1 hy) (Or.inr he)
  exact {
    toBrings := hb
    next_on := by
      intro k hk x hx
      rw [h.joined_eq]
      exact hnext x (h.mem_links.2 ⟨k, hk, hx⟩)
    prev_on := by
      intro k hk x hx
      rw [h.joined_eq]
      exact hprev x (h.mem_links.2 ⟨k, hk, hx⟩)
    next_off := by
      intro g hg hoff
      rw [h.joined_eq, hnext' g, (record_stored h.length_existing hg).1]
      intro hmem
      obtain ⟨x, hx, rfl⟩ := List.mem_map.1 hmem
      obtain ⟨k, hk, hxk⟩ := h.mem_links.1 hx
      exact hoff k hk (List.mem_map_of_mem hxk)
    prev_off := by
      intro g hg hoff
      rw [h.joined_eq, hprev' g, (record_stored h.length_existing hg).2]
      intro hmem
      obtain ⟨x, hx, rfl⟩ := List.mem_map.1 hmem
      obtain ⟨k, hk, hxk⟩ := h.mem_links.1 hx
      exact hoff k hk (List.mem_map_of_mem hxk)
    outgoing_corner := by
      intro k hk
      rw [h.outgoing_joined_eq, (changeCorners_spec h.nodup_corners h.corner_slot_lt).2 k hk]
    outgoing_other := by
      intro w hw
      rw [h.outgoing_joined_eq]
      refine outgoing_changeCorners_of_notMem h.corner_slot_lt ?_
      rw [h.map_fst_corners, (successors_perm vs).mem_iff]
      exact hw
  }

end Placement

end Connectivity

end RegionMesh
