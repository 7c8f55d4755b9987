import RegionMesh.Proofs.Connectivity.WellFormed
import RegionMesh.Proofs.Slots

/-!
# Renamed links

When the storage is compacted, the live elements get other handles and keep their links. A renumbering that
does this (`Renames`) keeps the links in order (`Renames.wellFormed`), and the ring, the corners and the neighbours of
a facet are renamed with it (`Renames.ring`, `Renames.corners`, `Renames.neighbors`). The compaction is such a
renumbering (`compact_renames`), and which handles it gives out does not matter for any of this.
-/

namespace RegionMesh

/-- A renumbering keeps the two sides of an edge opposite to each other. -/
@[simp]
theorem Renumbering.halfedge_opposite (r : Renumbering) (h : Halfedge) :
    r.halfedge h.opposite = (r.halfedge h).opposite := by
  unfold halfedge
  rw [Halfedge.edge_opposite]
  split <;> rfl

namespace Connectivity

/-- The live elements have other handles, and are linked as they were. -/
structure Renames (c : Connectivity) (r : Renumbering) (c' : Connectivity) : Prop where
  /-- A live vertex stays live. -/
  vertex_live : ∀ {v}, c.isLiveVertex v = true → c'.isLiveVertex (r.vertex v) = true
  /-- Every live vertex is one that was live. -/
  exists_vertex : ∀ {w}, c'.isLiveVertex w = true → ∃ v, c.isLiveVertex v = true ∧ r.vertex v = w
  /-- Different live vertices stay different. -/
  vertex_inj : ∀ {v w}, c.isLiveVertex v = true → c.isLiveVertex w = true →
    r.vertex v = r.vertex w → v = w
  /-- A live halfedge stays live. -/
  halfedge_live : ∀ {h}, c.IsLive h → c'.IsLive (r.halfedge h)
  /-- Every live halfedge is one that was live. -/
  exists_halfedge : ∀ {k}, c'.IsLive k → ∃ h, c.IsLive h ∧ r.halfedge h = k
  /-- Different live halfedges stay different. -/
  halfedge_inj : ∀ {h k}, c.IsLive h → c.IsLive k → r.halfedge h = r.halfedge k → h = k
  /-- A live facet stays live. -/
  facet_live : ∀ {f}, c.isLiveFacet f = true → c'.isLiveFacet (r.facet f) = true
  /-- Every live facet is one that was live. -/
  exists_facet : ∀ {g}, c'.isLiveFacet g = true → ∃ f, c.isLiveFacet f = true ∧ r.facet f = g
  /-- Different live facets stay different. -/
  facet_inj : ∀ {f g}, c.isLiveFacet f = true → c.isLiveFacet g = true →
    r.facet f = r.facet g → f = g
  /-- Halfedges point where they did. -/
  head : ∀ {h}, c.IsLive h → c'.head (r.halfedge h) = r.vertex (c.head h)
  /-- Halfedges keep their next ones. -/
  next : ∀ {h}, c.IsLive h → c'.next (r.halfedge h) = r.halfedge (c.next h)
  /-- Halfedges keep their previous ones. -/
  prev : ∀ {h}, c.IsLive h → c'.prev (r.halfedge h) = r.halfedge (c.prev h)
  /-- Halfedges keep their facets. -/
  facetOf : ∀ {h}, c.IsLive h → c'.facetOf (r.halfedge h) = (c.facetOf h).map r.facet
  /-- Vertices store what they stored. -/
  outgoing : ∀ {v}, c.isLiveVertex v = true →
    c'.outgoing (r.vertex v) = (c.outgoing v).map r.halfedge
  /-- Facets start where they did. -/
  start : ∀ {f}, c.isLiveFacet f = true → c'.start (r.facet f) = r.halfedge (c.start f)
  /-- Only live vertices store a halfedge. -/
  outgoing_live : ∀ {w k}, c'.outgoing w = some k → c'.isLiveVertex w = true

namespace Renames

variable {c c' : Connectivity} {r : Renumbering}

section Accessors

variable (hr : c.Renames r c')

include hr

/-- A renamed halfedge starts at the renamed vertex. -/
theorem tail {h : Halfedge} (hh : c.IsLive h) : c'.tail (r.halfedge h) = r.vertex (c.tail h) := by
  unfold Connectivity.tail
  rw [← r.halfedge_opposite]
  exact hr.head (h := h.opposite) hh

/-- Turning commutes with the names. -/
theorem turnRight {h : Halfedge} (hh : c.IsLive h) :
    c'.turnRight (r.halfedge h) = r.halfedge (c.turnRight h) := by
  unfold Connectivity.turnRight
  rw [← r.halfedge_opposite]
  exact hr.next (h := h.opposite) hh

/-- The fan of a vertex is renamed with it. -/
theorem fanAt (hc : c.Linked) {v : Vertex} (hv : c.isLiveVertex v = true) {l : List Halfedge}
    (hl : c.FanAt v l) : c'.FanAt (r.vertex v) (l.map r.halfedge) := by
  have hlive : ∀ a ∈ l, c.IsLive a := fun a ha => ((hl.mem a).1 ha).1
  refine ⟨hl.orbit.map (fun a ha => hr.turnRight (hlive a ha))
    fun a ha b hb => hr.halfedge_inj (hlive a ha) (hlive b hb), fun k => ?_⟩
  rw [List.mem_map]
  constructor
  · rintro ⟨a, ha, rfl⟩
    obtain ⟨halive, rfl⟩ := (hl.mem a).1 ha
    exact ⟨hr.halfedge_live halive, hr.tail halive⟩
  -- A halfedge that leaves the renamed vertex is the name of one that leaves the vertex, as names are unique.
  · rintro ⟨hk, ht⟩
    obtain ⟨a, ha, rfl⟩ := hr.exists_halfedge hk
    rw [hr.tail ha] at ht
    exact ⟨a, (hl.mem a).2 ⟨ha, hr.vertex_inj (hc.tail_live ha) hv ht⟩, rfl⟩

/-- A renamed facet has a halfedge if the facet had it. -/
theorem facetOf_eq_some (hc : c.WellFormed) {h : Halfedge} (hh : c.IsLive h) {f : Facet}
    (hf : c.isLiveFacet f = true) :
    c'.facetOf (r.halfedge h) = some (r.facet f) ↔ c.facetOf h = some f := by
  rw [hr.facetOf hh, Option.map_eq_some_iff]
  constructor
  · rintro ⟨g, hg, hgf⟩
    rw [hg, hr.facet_inj (hc.facet_live hh hg) hf hgf]
  · exact fun hg => ⟨f, hg, rfl⟩

/-- A halfedge on the border is renamed to one on the border. -/
theorem facetOf_eq_none {h : Halfedge} (hh : c.IsLive h) :
    c'.facetOf (r.halfedge h) = none ↔ c.facetOf h = none := by
  rw [hr.facetOf hh, Option.map_eq_none_iff]

/-- The ring of a facet is renamed with it. -/
theorem ringOf (hc : c.WellFormed) {f : Facet} (hf : c.isLiveFacet f = true) {l : List Halfedge}
    (hl : c.RingOf f l) : c'.RingOf (r.facet f) (l.map r.halfedge) := by
  have hlive : ∀ a ∈ l, c.IsLive a := fun a ha => ((hl.mem a).1 ha).1
  refine ⟨hl.orbit.map (fun a ha => hr.next (hlive a ha))
    fun a ha b hb => hr.halfedge_inj (hlive a ha) (hlive b hb), ?_, ?_, fun k => ?_⟩
  · rw [List.head?_map, hl.head, hr.start hf, Option.map_some]
  · rw [List.length_map]
    exact hl.length
  -- A halfedge of the renamed facet is the name of one, and this one has the facet.
  · rw [List.mem_map]
    constructor
    · rintro ⟨a, ha, rfl⟩
      obtain ⟨halive, haf⟩ := (hl.mem a).1 ha
      exact ⟨hr.halfedge_live halive, (hr.facetOf_eq_some hc halive hf).2 haf⟩
    · rintro ⟨hk, hkf⟩
      obtain ⟨a, ha, rfl⟩ := hr.exists_halfedge hk
      exact ⟨a, (hl.mem a).2 ⟨ha, (hr.facetOf_eq_some hc ha hf).1 hkf⟩, rfl⟩

/-- The walk along the ring of a facet meets the renamed halfedges. -/
theorem ring (hc : c.WellFormed) {f : Facet} (hf : c.isLiveFacet f = true) :
    (c'.ring (r.facet f)).path = (c.ring f).path.map r.halfedge := by
  rw [(hr.ringOf hc hf (hc.ringOf hf)).ring_eq]

/-- The corners of a facet are renamed with it. -/
theorem corners (hc : c.WellFormed) {f : Facet} (hf : c.isLiveFacet f = true) :
    c'.corners (r.facet f) = (c.corners f).map r.vertex := by
  calc c'.corners (r.facet f) = ((c.ring f).path.map r.halfedge).map c'.head := by
        rw [Connectivity.corners, hr.ring hc hf]
    _ = (c.ring f).path.map (r.vertex ∘ c.head) := by
        rw [List.map_map]
        exact List.map_congr_left fun a ha => hr.head (((hc.ringOf hf).mem a).1 ha).1
    _ = (c.corners f).map r.vertex := List.map_map.symm

/-- The facet across an edge is renamed with the edge. -/
theorem facetOf_opposite {h : Halfedge} (hh : c.IsLive h) :
    c'.facetOf (r.halfedge h).opposite = (c.facetOf h.opposite).map r.facet := by
  rw [← r.halfedge_opposite]
  exact hr.facetOf (h := h.opposite) hh

/-- The neighbours of a facet are renamed with it. -/
theorem neighbors (hc : c.WellFormed) {f : Facet} (hf : c.isLiveFacet f = true) :
    c'.neighbors (r.facet f) = (c.neighbors f).map r.facet := by
  calc c'.neighbors (r.facet f)
      = (c.ring f).path.filterMap fun h => c'.facetOf (r.halfedge h).opposite := by
        rw [Connectivity.neighbors, hr.ring hc hf, List.filterMap_map]
        rfl
    _ = (c.ring f).path.filterMap fun h => (c.facetOf h.opposite).map r.facet :=
        List.filterMap_congr fun h hh => hr.facetOf_opposite (((hc.ringOf hf).mem h).1 hh).1
    _ = (c.neighbors f).map r.facet := by
        rw [Connectivity.neighbors, List.map_filterMap]

/-- Links stay in order under other names. -/
theorem linked (hc : c.Linked) : c'.Linked where
  -- Each renamed element is the name of a live one, for which the links are known.
  head_live := by
    intro k hk
    obtain ⟨h, hh, rfl⟩ := hr.exists_halfedge hk
    rw [hr.head hh]
    exact hr.vertex_live (hc.head_live hh)
  head_ne_tail := by
    intro k hk
    obtain ⟨h, hh, rfl⟩ := hr.exists_halfedge hk
    rw [hr.head hh, hr.tail hh]
    exact fun he => hc.head_ne_tail hh (hr.vertex_inj (hc.head_live hh) (hc.tail_live hh) he)
  prev_next := by
    intro k hk
    obtain ⟨h, hh, rfl⟩ := hr.exists_halfedge hk
    rw [hr.next hh, hr.prev (hc.next_live hh).1, hc.prev_next hh]
  facet_next := by
    intro k hk
    obtain ⟨h, hh, rfl⟩ := hr.exists_halfedge hk
    rw [hr.next hh, hr.facetOf (hc.next_live hh).1, hr.facetOf hh, hc.facet_next hh]
  fan := by
    intro w hw
    obtain ⟨v, hv, rfl⟩ := hr.exists_vertex hw
    obtain ⟨l, hl⟩ := hc.fan hv
    exact ⟨_, hr.fanAt hc hv hl⟩
  outgoing := by
    intro w k hw ho
    obtain ⟨v, hv, rfl⟩ := hr.exists_vertex hw
    rw [hr.outgoing hv, Option.map_eq_some_iff] at ho
    obtain ⟨h, ho, rfl⟩ := ho
    obtain ⟨hh, rfl⟩ := hc.outgoing hv ho
    exact ⟨hr.halfedge_live hh, hr.tail hh⟩
  isolated := by
    intro w hw ho k hk ht
    obtain ⟨v, hv, rfl⟩ := hr.exists_vertex hw
    obtain ⟨h, hh, rfl⟩ := hr.exists_halfedge hk
    rw [hr.outgoing hv, Option.map_eq_none_iff] at ho
    rw [hr.tail hh] at ht
    exact hc.isolated hv ho hh (hr.vertex_inj (hc.tail_live hh) hv ht)

/-- Renumbering keeps the links in order. -/
theorem wellFormed (hc : c.WellFormed) : c'.WellFormed := by
  refine ⟨hr.linked hc.toLinked, ?_, ?_, ?_⟩
  -- Whether a halfedge is on the border is kept in both directions.
  · intro w hw k ho hf k' hk' ht
    obtain ⟨v, hv, rfl⟩ := hr.exists_vertex hw
    obtain ⟨h', hh', rfl⟩ := hr.exists_halfedge hk'
    rw [hr.outgoing hv, Option.map_eq_some_iff] at ho
    obtain ⟨h, ho, rfl⟩ := ho
    obtain ⟨hh, -⟩ := hc.outgoing hv ho
    rw [Ne, hr.facetOf_eq_none hh] at hf
    rw [Ne, hr.facetOf_eq_none hh']
    rw [hr.tail hh'] at ht
    exact hc.borderFirst hv h ho hf h' hh' (hr.vertex_inj (hc.tail_live hh') hv ht)
  · intro k g hk hkg
    obtain ⟨h, hh, rfl⟩ := hr.exists_halfedge hk
    rw [hr.facetOf hh, Option.map_eq_some_iff] at hkg
    obtain ⟨f, hf, rfl⟩ := hkg
    exact hr.facet_live (hc.facet_live hh hf)
  · intro g hg
    obtain ⟨f, hf, rfl⟩ := hr.exists_facet hg
    exact ⟨_, hr.ringOf hc hf (hc.ringOf hf)⟩

/-- Meshes that are built facet by facet stay so. -/
theorem simple (hc : c.Linked) (hs : c.Simple) : c'.Simple := by
  refine ⟨?_, ?_, hr.outgoing_live⟩
  -- A halfedge of the new numbering is the image of an old one, and what is said of it was said of that.
  · intro k hk hf
    obtain ⟨h, hh, rfl⟩ := hr.exists_halfedge hk
    rw [hr.facetOf_eq_none hh] at hf
    rw [← r.halfedge_opposite, Ne, hr.facetOf_eq_none (h := h.opposite) hh]
    exact hs.faced hh hf
  · intro k k' hk hk' ht he
    obtain ⟨h, hh, rfl⟩ := hr.exists_halfedge hk
    obtain ⟨h', hh', rfl⟩ := hr.exists_halfedge hk'
    rw [hr.tail hh, hr.tail hh'] at ht
    rw [hr.head hh, hr.head hh'] at he
    rw [hs.unique hh hh' (hr.vertex_inj (hc.tail_live hh) (hc.tail_live hh') ht)
      (hr.vertex_inj (hc.head_live hh) (hc.head_live hh') he)]

end Accessors

end Renames

/-! ## Compaction -/

section Compaction

variable {c : Connectivity}

/-- A live vertex moves down to its rank among those that stay. -/
theorem renumbering_vertex {v : Vertex} (hv : c.isLiveVertex v = true) :
    c.renumbering.vertex v = ⟨rank (c.vertices.toList.map (·.deleted)) v.slot⟩ := by
  obtain ⟨a, ha, hd⟩ := (c.isLiveVertex_iff v).1 hv
  unfold Renumbering.vertex renumbering
  simp only [getElem?_newSlots, getElem?_map_eq_false.2 ⟨a, ha, hd⟩]
  rfl

/-- A live halfedge keeps its side, and its edge moves down to its rank among those that stay. -/
theorem renumbering_halfedge {h : Halfedge} (hh : c.IsLive h) :
    c.renumbering.halfedge h = ⟨⟨rank (c.edges.toList.map (·.deleted)) h.edge.slot⟩, h.back⟩ := by
  obtain ⟨a, ha, hd⟩ := (c.isLiveEdge_iff h.edge).1 hh
  unfold Renumbering.halfedge renumbering
  simp only [getElem?_newSlots, getElem?_map_eq_false.2 ⟨a, ha, hd⟩]
  rfl

/-- A live facet moves down to its rank among those that stay. -/
theorem renumbering_facet {f : Facet} (hf : c.isLiveFacet f = true) :
    c.renumbering.facet f = ⟨rank (c.facets.toList.map (·.deleted)) f.slot⟩ := by
  obtain ⟨a, ha, hd⟩ := (c.isLiveFacet_iff f).1 hf
  unfold Renumbering.facet renumbering
  simp only [getElem?_newSlots, getElem?_map_eq_false.2 ⟨a, ha, hd⟩]
  rfl

/-- The record of a live halfedge is renumbered as a whole. -/
theorem record_compact {h : Halfedge} (hh : c.IsLive h) :
    c.compact.record (c.renumbering.halfedge h) = c.renumbering.halfedgeRecord (c.record h) := by
  obtain ⟨a, ha, hd⟩ := (c.isLiveEdge_iff h.edge).1 hh
  rw [renumbering_halfedge hh]
  unfold record compact
  simp only [getElem?_compacted ha hd, ha]
  unfold EdgeRecord.side
  split <;> rfl

/-! ### Vertices -/

/-- A live vertex is live in its new place. -/
theorem isLiveVertex_renumbering {v : Vertex} (hv : c.isLiveVertex v = true) :
    c.compact.isLiveVertex (c.renumbering.vertex v) = true := by
  obtain ⟨a, ha, hd⟩ := (c.isLiveVertex_iff v).1 hv
  rw [renumbering_vertex hv, isLiveVertex_iff]
  exact ⟨_, getElem?_compacted ha hd _, hd⟩

/-- Every live vertex has come from one that was live. -/
theorem exists_vertex_of_compact {w : Vertex} (hw : c.compact.isLiveVertex w = true) :
    ∃ v, c.isLiveVertex v = true ∧ c.renumbering.vertex v = w := by
  obtain ⟨b, hb, -⟩ := (c.compact.isLiveVertex_iff w).1 hw
  obtain ⟨i, a, ha, hd, hrank, -⟩ := exists_of_getElem?_compacted hb
  have hv : c.isLiveVertex ⟨i⟩ = true := (c.isLiveVertex_iff ⟨i⟩).2 ⟨a, ha, hd⟩
  refine ⟨⟨i⟩, hv, ?_⟩
  rw [renumbering_vertex hv]
  exact congrArg Vertex.mk hrank

/-- No two live vertices move to one place. -/
theorem renumbering_vertex_inj {v w : Vertex} (hv : c.isLiveVertex v = true) (hw : c.isLiveVertex w = true)
    (he : c.renumbering.vertex v = c.renumbering.vertex w) : v = w := by
  rw [renumbering_vertex hv, renumbering_vertex hw] at he
  obtain ⟨a, ha, hd⟩ := (c.isLiveVertex_iff v).1 hv
  obtain ⟨b, hb, hd'⟩ := (c.isLiveVertex_iff w).1 hw
  exact congrArg Vertex.mk (rank_inj_of_kept ha hd hb hd' (Vertex.mk.inj he))

/-- A live vertex stores what it stored. -/
theorem outgoing_compact {v : Vertex} (hv : c.isLiveVertex v = true) :
    c.compact.outgoing (c.renumbering.vertex v) = (c.outgoing v).map c.renumbering.halfedge := by
  obtain ⟨a, ha, hd⟩ := (c.isLiveVertex_iff v).1 hv
  rw [renumbering_vertex hv]
  unfold outgoing compact
  simp only [getElem?_compacted ha hd, ha]
  rfl

/-- Nothing is stored where no live vertex is. -/
theorem isLiveVertex_of_outgoing_compact {w : Vertex} {k : Halfedge} (ho : c.compact.outgoing w = some k) :
    c.compact.isLiveVertex w = true := by
  unfold outgoing at ho
  obtain ⟨b, hb, -⟩ := Option.bind_eq_some_iff.1 ho
  obtain ⟨i, a, ha, hd, -, rfl⟩ := exists_of_getElem?_compacted hb
  exact (c.compact.isLiveVertex_iff w).2 ⟨_, hb, hd⟩

/-! ### Halfedges -/

/-- A live halfedge is live in its new place. -/
theorem isLive_renumbering {h : Halfedge} (hh : c.IsLive h) :
    c.compact.IsLive (c.renumbering.halfedge h) := by
  obtain ⟨a, ha, hd⟩ := (c.isLiveEdge_iff h.edge).1 hh
  rw [renumbering_halfedge hh]
  unfold IsLive
  rw [isLiveEdge_iff]
  exact ⟨_, getElem?_compacted ha hd _, hd⟩

/-- Every live halfedge has come from one that was live. -/
theorem exists_halfedge_of_compact {k : Halfedge} (hk : c.compact.IsLive k) :
    ∃ h, c.IsLive h ∧ c.renumbering.halfedge h = k := by
  obtain ⟨b, hb, -⟩ := (c.compact.isLiveEdge_iff k.edge).1 hk
  obtain ⟨i, a, ha, hd, hrank, -⟩ := exists_of_getElem?_compacted hb
  have hh : c.IsLive ⟨⟨i⟩, k.back⟩ := (c.isLiveEdge_iff ⟨i⟩).2 ⟨a, ha, hd⟩
  refine ⟨⟨⟨i⟩, k.back⟩, hh, ?_⟩
  rw [renumbering_halfedge hh]
  exact Halfedge.ext_of_back (congrArg Edge.mk hrank) rfl

/-- No two live halfedges move to one place. -/
theorem renumbering_halfedge_inj {h k : Halfedge} (hh : c.IsLive h) (hk : c.IsLive k)
    (he : c.renumbering.halfedge h = c.renumbering.halfedge k) : h = k := by
  rw [renumbering_halfedge hh, renumbering_halfedge hk, Halfedge.mk.injEq, Edge.mk.injEq] at he
  obtain ⟨a, ha, hd⟩ := (c.isLiveEdge_iff h.edge).1 hh
  obtain ⟨b, hb, hd'⟩ := (c.isLiveEdge_iff k.edge).1 hk
  exact Halfedge.ext_of_back (congrArg Edge.mk (rank_inj_of_kept ha hd hb hd' he.1)) he.2

/-! ### Facets -/

/-- A live facet is live in its new place. -/
theorem isLiveFacet_renumbering {f : Facet} (hf : c.isLiveFacet f = true) :
    c.compact.isLiveFacet (c.renumbering.facet f) = true := by
  obtain ⟨a, ha, hd⟩ := (c.isLiveFacet_iff f).1 hf
  rw [renumbering_facet hf, isLiveFacet_iff]
  exact ⟨_, getElem?_compacted ha hd _, hd⟩

/-- Every live facet has come from one that was live. -/
theorem exists_facet_of_compact {g : Facet} (hg : c.compact.isLiveFacet g = true) :
    ∃ f, c.isLiveFacet f = true ∧ c.renumbering.facet f = g := by
  obtain ⟨b, hb, -⟩ := (c.compact.isLiveFacet_iff g).1 hg
  obtain ⟨i, a, ha, hd, hrank, -⟩ := exists_of_getElem?_compacted hb
  have hf : c.isLiveFacet ⟨i⟩ = true := (c.isLiveFacet_iff ⟨i⟩).2 ⟨a, ha, hd⟩
  refine ⟨⟨i⟩, hf, ?_⟩
  rw [renumbering_facet hf]
  exact congrArg Facet.mk hrank

/-- No two live facets move to one place. -/
theorem renumbering_facet_inj {f g : Facet} (hf : c.isLiveFacet f = true) (hg : c.isLiveFacet g = true)
    (he : c.renumbering.facet f = c.renumbering.facet g) : f = g := by
  rw [renumbering_facet hf, renumbering_facet hg] at he
  obtain ⟨a, ha, hd⟩ := (c.isLiveFacet_iff f).1 hf
  obtain ⟨b, hb, hd'⟩ := (c.isLiveFacet_iff g).1 hg
  exact congrArg Facet.mk (rank_inj_of_kept ha hd hb hd' (Facet.mk.inj he))

/-- A live facet starts where it did. -/
theorem start_compact {f : Facet} (hf : c.isLiveFacet f = true) :
    c.compact.start (c.renumbering.facet f) = c.renumbering.halfedge (c.start f) := by
  obtain ⟨a, ha, hd⟩ := (c.isLiveFacet_iff f).1 hf
  rw [renumbering_facet hf]
  unfold start compact
  simp only [getElem?_compacted ha hd, ha]

/-- Compaction gives the live elements other handles, and keeps how they are linked. -/
theorem compact_renames : c.Renames c.renumbering c.compact where
  vertex_live := isLiveVertex_renumbering
  exists_vertex := exists_vertex_of_compact
  vertex_inj := renumbering_vertex_inj
  halfedge_live := isLive_renumbering
  exists_halfedge := exists_halfedge_of_compact
  halfedge_inj := renumbering_halfedge_inj
  facet_live := isLiveFacet_renumbering
  exists_facet := exists_facet_of_compact
  facet_inj := renumbering_facet_inj
  -- The record of a live halfedge is the old one with renumbered links.
  head hh := by
    unfold head
    rw [record_compact hh]
    rfl
  next hh := by
    unfold next
    rw [record_compact hh]
    rfl
  prev hh := by
    unfold prev
    rw [record_compact hh]
    rfl
  facetOf hh := by
    unfold facetOf
    rw [record_compact hh]
    rfl
  outgoing := outgoing_compact
  start := start_compact
  outgoing_live := isLiveVertex_of_outgoing_compact

/-! ### Sizes -/

/-- After the compaction no vertex is deleted. -/
theorem isLiveVertex_compact {v : Vertex} :
    c.compact.isLiveVertex v = true ↔ v.slot < c.compact.vertices.size := by
  refine ⟨slot_lt_of_isLiveVertex, fun hv => ?_⟩
  have hget := Array.getElem?_eq_getElem hv
  obtain ⟨i, a, -, hd, -, hb⟩ := exists_of_getElem?_compacted hget
  rw [← hb] at hget
  exact (c.compact.isLiveVertex_iff v).2 ⟨_, hget, hd⟩

/-- After the compaction no facet is deleted. -/
theorem isLiveFacet_compact {f : Facet} :
    c.compact.isLiveFacet f = true ↔ f.slot < c.compact.facets.size := by
  refine ⟨slot_lt_of_isLiveFacet, fun hf => ?_⟩
  have hget := Array.getElem?_eq_getElem hf
  obtain ⟨i, a, -, hd, -, hb⟩ := exists_of_getElem?_compacted hget
  rw [← hb] at hget
  exact (c.compact.isLiveFacet_iff f).2 ⟨_, hget, hd⟩

/-- The vertices that are not marked stay. -/
theorem size_vertices_compact :
    c.compact.vertices.size = (c.vertices.toList.map (·.deleted)).count false := by
  unfold compact
  rw [Array.size_map, size_filter]

/-- The edges that are not marked stay. -/
theorem size_edges_compact :
    c.compact.edges.size = (c.edges.toList.map (·.deleted)).count false := by
  unfold compact
  rw [Array.size_map, size_filter]

/-- The facets that are not marked stay. -/
theorem size_facets_compact :
    c.compact.facets.size = (c.facets.toList.map (·.deleted)).count false := by
  unfold compact
  rw [Array.size_map, size_filter]

end Compaction

end Connectivity

end RegionMesh
