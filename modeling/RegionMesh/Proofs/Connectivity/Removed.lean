import RegionMesh.Connectivity.Detach
import RegionMesh.Proofs.Connectivity.WellFormed

/-!
# Taking edges out

An edge with both sides on the border can be taken out of the links (`Linked.removeEdge`). At either end its
halfedge is taken out of the fan of the vertex, and a vertex whose last edge is taken out is deleted. What
this does to each link is the same at both ends (`Unhooks`), so every argument is made for one of them.

A list of edges is taken out one by one (`Linked.removeEdges`), and what is left is described by the
edges that are gone (`Removed`).
-/

namespace RegionMesh

namespace Connectivity

/-- No live halfedge leaves the vertex. -/
def Bare (c : Connectivity) (v : Vertex) : Prop := ∀ g, c.IsLive g → c.tail g ≠ v

/-- What taking an edge out does to the links, said for either of its sides `g`, which leaves `c.tail g`. -/
structure Unhooks (c : Connectivity) (e : Edge) (c' : Connectivity) : Prop where
  /-- There are as many vertices. -/
  size : c'.vertices.size = c.vertices.size
  /-- The facets are the same. -/
  facets : c'.facets = c.facets
  /-- The edge is deleted, and no other one. -/
  live : ∀ d, c'.isLiveEdge d = true ↔ c.isLiveEdge d = true ∧ d ≠ e
  /-- Halfedges point where they did. -/
  head : ∀ g, c'.head g = c.head g
  /-- Halfedges have the facets that they had. -/
  facetOf : ∀ g, c'.facetOf g = c.facetOf g
  /-- The halfedge before the edge is linked past it. -/
  next_on : ∀ g, g.edge = e → c'.next (c.prev g) = c.next g.opposite
  /-- The other halfedges keep their next ones. -/
  next_off : ∀ g, (∀ k, k.edge = e → g ≠ c.prev k) → c'.next g = c.next g
  /-- The halfedge behind the edge is linked past it. -/
  prev_on : ∀ g, g.edge = e → c'.prev (c.next g.opposite) = c.prev g
  /-- The other halfedges keep their previous ones. -/
  prev_off : ∀ g, (∀ k, k.edge = e → g ≠ c.next k) → c'.prev g = c.prev g
  /-- An end that stores the side of the edge stores the halfedge behind it, if there is one. -/
  outgoing_on : ∀ g, g.edge = e → c'.outgoing (c.tail g) =
    if c.outgoing (c.tail g) = some g then
      if c.next g.opposite = g then none else some (c.next g.opposite)
    else c.outgoing (c.tail g)
  /-- The other vertices store what they stored. -/
  outgoing_off : ∀ v, (∀ g, g.edge = e → c.tail g ≠ v) → c'.outgoing v = c.outgoing v
  /-- An end is deleted if it stores the side of the edge and there is no halfedge behind it. -/
  live_on : ∀ g, g.edge = e → (c'.isLiveVertex (c.tail g) = true ↔
    c.isLiveVertex (c.tail g) = true ∧
      ¬ (c.outgoing (c.tail g) = some g ∧ c.next g.opposite = g))
  /-- The other vertices stay live. -/
  live_off : ∀ v, (∀ g, g.edge = e → c.tail g ≠ v) → c'.isLiveVertex v = c.isLiveVertex v

variable {c c' : Connectivity} {e : Edge}

/-! ## The sides of an edge -/

/-- The two sides of an edge are opposite to each other. -/
theorem opposite_side (e : Edge) (b : Bool) : (e.side b).opposite = e.side !b := rfl

/-- A side of an edge starts where the other side ends. -/
theorem tail_side (c : Connectivity) (e : Edge) (b : Bool) : c.tail (e.side b) = c.head (e.side !b) := rfl

/-- The two sides of an edge are different. -/
theorem side_ne (e : Edge) : e.side false ≠ e.side true := (Halfedge.opposite_ne (e.side false)).symm

/-- A halfedge is one of the two sides of its edge. -/
theorem eq_side {g : Halfedge} (hg : g.edge = e) : g = e.side false ∨ g = e.side true :=
  Halfedge.eq_or_eq_opposite (h := e.side false) hg

/-! ## Leaving a fan -/

section LeaveFan

variable (c) (v : Vertex) (h following : Halfedge)

/-- A halfedge leaves the fan of its head without a change to the edges. -/
@[simp]
theorem edges_leaveFan : (c.leaveFan v h following).edges = c.edges := by
  unfold leaveFan
  split
  · split <;> rfl
  · rfl

/-- A halfedge leaves the fan of its head without a change to the facets. -/
@[simp]
theorem facets_leaveFan : (c.leaveFan v h following).facets = c.facets := by
  unfold leaveFan
  split
  · split <;> rfl
  · rfl

/-- The head of a halfedge that leaves its fan stays in storage. -/
@[simp]
theorem size_vertices_leaveFan : (c.leaveFan v h following).vertices.size = c.vertices.size := by
  unfold leaveFan
  split
  · split <;> simp
  · rfl

variable {v}

/-- Only a vertex that stores the opposite of the halfedge that leaves gets something else: what followed it, or
nothing if there is nothing left. -/
theorem outgoing_leaveFan (hv : v.slot < c.vertices.size) (w : Vertex) :
    (c.leaveFan v h following).outgoing w =
      if w = v ∧ c.outgoing v = some h.opposite then
        if following = h.opposite then none else some following
      else c.outgoing w := by
  unfold leaveFan
  by_cases ho : c.outgoing v = some h.opposite
  · by_cases hf : following = h.opposite
    · simp [ho, hf, outgoing_setOutgoing c hv]
    · simp [ho, hf, outgoing_setOutgoing c hv]
  · simp [ho]

/-- Only a vertex whose last edge leaves is deleted. -/
theorem isLiveVertex_leaveFan (w : Vertex) :
    (c.leaveFan v h following).isLiveVertex w = true ↔
      c.isLiveVertex w = true ∧ ¬ (w = v ∧ c.outgoing v = some h.opposite ∧ following = h.opposite) := by
  unfold leaveFan
  by_cases ho : c.outgoing v = some h.opposite
  · by_cases hf : following = h.opposite
    · simp [ho, hf, isLiveVertex_deleteVertex]
    · simp [ho, hf]
  · simp [ho]

end LeaveFan

/-! ## One edge -/

/-- Link the halfedges around an edge past it, and delete it. -/
def bypass (c : Connectivity) (e : Edge) : Connectivity :=
  ((c.link (c.prev (e.side false)) (c.next (e.side true))).link (c.prev (e.side true))
    (c.next (e.side false))).deleteEdge e

/-- The vertices do not see that an edge is bypassed. -/
theorem vertices_bypass (c : Connectivity) (e : Edge) : (c.bypass e).vertices = c.vertices := by
  unfold bypass
  rw [vertices_deleteEdge, vertices_link, vertices_link]

/-- The facets do not see that an edge is bypassed. -/
theorem facets_bypass (c : Connectivity) (e : Edge) : (c.bypass e).facets = c.facets := by
  unfold bypass
  rw [facets_deleteEdge, facets_link, facets_link]

/-- Vertices store what they did when an edge is bypassed. -/
theorem outgoing_bypass (c : Connectivity) (e : Edge) (v : Vertex) :
    (c.bypass e).outgoing v = c.outgoing v := by
  unfold outgoing
  rw [vertices_bypass]

/-- Vertices are as live as before an edge is bypassed. -/
theorem isLiveVertex_bypass (c : Connectivity) (e : Edge) (v : Vertex) :
    (c.bypass e).isLiveVertex v = c.isLiveVertex v := by
  unfold isLiveVertex
  rw [vertices_bypass]

/-- Of the live edges only the one that is bypassed goes. -/
theorem isLiveEdge_bypass (c : Connectivity) (e d : Edge) :
    (c.bypass e).isLiveEdge d = true ↔ c.isLiveEdge d = true ∧ d ≠ e := by
  unfold bypass
  rw [isLiveEdge_deleteEdge, isLiveEdge_link, isLiveEdge_link, Bool.and_eq_true, decide_eq_true_eq]

/-- An edge is bypassed by two links. -/
theorem record_bypass (c : Connectivity) (e : Edge) (g : Halfedge) :
    (c.bypass e).record g = ((c.link (c.prev (e.side false)) (c.next (e.side true))).link (c.prev (e.side true))
      (c.next (e.side false))).record g := record_deleteEdge _ e g

/-- All halfedges end where they did before an edge is bypassed. -/
theorem head_bypass (c : Connectivity) (e : Edge) (g : Halfedge) :
    (c.bypass e).head g = c.head g := by
  unfold head
  rw [record_bypass]
  exact (head_link _ _ _ g).trans (head_link c _ _ g)

/-- All halfedges have the facet that they had before an edge is bypassed. -/
theorem facetOf_bypass (c : Connectivity) (e : Edge) (g : Halfedge) :
    (c.bypass e).facetOf g = c.facetOf g := by
  unfold facetOf
  rw [record_bypass]
  exact (facetOf_link _ _ _ g).trans (facetOf_link c _ _ g)

/-- The halfedges before and behind a side of a live edge are stored. -/
theorem Linked.slot_lt_beside (hc : c.Linked) (he : c.isLiveEdge e = true) (b : Bool) :
    (c.prev (e.side b)).edge.slot < c.edges.size ∧ (c.next (e.side b)).edge.slot < c.edges.size := by
  have hside : c.IsLive (e.side b) := he
  exact ⟨(hc.prev_live hside).1.slot_lt, (hc.next_live hside).1.slot_lt⟩

/-- What came before either side of the edge goes on behind the other side. -/
theorem Linked.next_bypass (hc : c.Linked) (he : c.isLiveEdge e = true) (g : Halfedge) :
    (c.bypass e).next g = if g = c.prev (e.side true) then c.next (e.side false)
      else if g = c.prev (e.side false) then c.next (e.side true) else c.next g := by
  obtain ⟨hph, hnh⟩ := hc.slot_lt_beside he false
  obtain ⟨hpk, hnk⟩ := hc.slot_lt_beside he true
  refine (congrArg HalfedgeRecord.next (record_bypass c e g)).trans ?_
  refine (next_link _ (by rwa [size_edges_link]) (by rwa [size_edges_link]) g).trans ?_
  rw [next_link c hph hnk]

/-- What came behind either side of the edge comes behind what was before the other side. -/
theorem Linked.prev_bypass (hc : c.Linked) (he : c.isLiveEdge e = true) (g : Halfedge) :
    (c.bypass e).prev g = if g = c.next (e.side false) then c.prev (e.side true)
      else if g = c.next (e.side true) then c.prev (e.side false) else c.prev g := by
  obtain ⟨hph, hnh⟩ := hc.slot_lt_beside he false
  obtain ⟨hpk, hnk⟩ := hc.slot_lt_beside he true
  refine (congrArg HalfedgeRecord.prev (record_bypass c e g)).trans ?_
  refine (prev_link _ (by rwa [size_edges_link]) (by rwa [size_edges_link]) g).trans ?_
  rw [prev_link c hph hnk]

/-- An edge is removed by a bypass, after which each side leaves the fan of its head. -/
theorem removeEdge_eq (c : Connectivity) (e : Edge) : c.removeEdge e =
    ((c.bypass e).leaveFan (c.head (e.side false)) (e.side false) (c.next (e.side false))).leaveFan
      (c.head (e.side true)) (e.side true) (c.next (e.side true)) := rfl

/-- The fans do not touch the records of the halfedges. -/
theorem record_removeEdge (c : Connectivity) (e : Edge) (g : Halfedge) :
    (c.removeEdge e).record g = (c.bypass e).record g := by
  unfold record
  rw [removeEdge_eq, edges_leaveFan, edges_leaveFan]

/-- Either side of an edge that is taken out is passed by. -/
theorem Linked.next_removeEdge (hc : c.Linked) (he : c.isLiveEdge e = true) :
    (∀ g, g.edge = e → (c.removeEdge e).next (c.prev g) = c.next g.opposite) ∧
      ∀ g, (∀ k, k.edge = e → g ≠ c.prev k) → (c.removeEdge e).next g = c.next g := by
  have hnext : ∀ g, (c.removeEdge e).next g = (c.bypass e).next g :=
    fun g => congrArg HalfedgeRecord.next (record_removeEdge c e g)
  -- What comes before one side comes before that side only.
  have hne : c.prev (e.side false) ≠ c.prev (e.side true) := by
    intro hp
    have hsides := (hc.prev_live (h := e.side false) he).2.2
    rw [hp, (hc.prev_live (h := e.side true) he).2.2] at hsides
    exact side_ne e hsides.symm
  constructor
  · intro g hg
    rw [hnext, hc.next_bypass he]
    rcases eq_side hg with rfl | rfl
    · rw [if_neg hne, if_pos rfl, opposite_side]
      rfl
    · rw [if_pos rfl, opposite_side]
      rfl
  · intro g hg
    rw [hnext, hc.next_bypass he, if_neg (hg _ rfl), if_neg (hg _ rfl)]

/-- Either side of an edge that is taken out is passed by backwards as well. -/
theorem Linked.prev_removeEdge (hc : c.Linked) (he : c.isLiveEdge e = true) :
    (∀ g, g.edge = e → (c.removeEdge e).prev (c.next g.opposite) = c.prev g) ∧
      ∀ g, (∀ k, k.edge = e → g ≠ c.next k) → (c.removeEdge e).prev g = c.prev g := by
  have hprev : ∀ g, (c.removeEdge e).prev g = (c.bypass e).prev g :=
    fun g => congrArg HalfedgeRecord.prev (record_removeEdge c e g)
  have hne : c.next (e.side true) ≠ c.next (e.side false) :=
    fun hn => side_ne e (hc.next_inj (g := e.side true) (h := e.side false) he he hn).symm
  constructor
  · intro g hg
    rw [hprev, hc.prev_bypass he]
    rcases eq_side hg with rfl | rfl
    · rw [opposite_side, Bool.not_false, if_neg hne, if_pos rfl]
    · rw [opposite_side, Bool.not_true, if_pos rfl]
  · intro g hg
    rw [hprev, hc.prev_bypass he, if_neg (hg _ rfl), if_neg (hg _ rfl)]

/-- The two sides of an edge point to different vertices. -/
theorem Linked.head_side_ne (hc : c.Linked) (he : c.isLiveEdge e = true) :
    c.head (e.side true) ≠ c.head (e.side false) := (hc.head_ne_tail (h := e.side false) he).symm

/-- What the ends of an edge that is taken out store afterwards. -/
theorem Linked.outgoing_removeEdge (hc : c.Linked) (he : c.isLiveEdge e = true) (v : Vertex) :
    (c.removeEdge e).outgoing v =
      if v = c.head (e.side true) ∧ c.outgoing (c.head (e.side true)) = some (e.side false) then
        if c.next (e.side true) = e.side false then none else some (c.next (e.side true))
      else if v = c.head (e.side false) ∧ c.outgoing (c.head (e.side false)) = some (e.side true) then
        if c.next (e.side false) = e.side true then none else some (c.next (e.side false))
      else c.outgoing v := by
  have hends := hc.head_side_ne he
  have hslot : ∀ b, (c.head (e.side b)).slot < (c.bypass e).vertices.size := by
    intro b
    rw [vertices_bypass]
    exact slot_lt_of_isLiveVertex (hc.head_live (h := e.side b) he)
  -- The ends of the edge are different vertices, so neither fan sees what the other one leaves.
  rw [removeEdge_eq, outgoing_leaveFan _ _ _ (by simpa using hslot true),
    outgoing_leaveFan _ _ _ (hslot false), outgoing_leaveFan _ _ _ (hslot false)]
  simp only [outgoing_bypass, opposite_side, Bool.not_false, Bool.not_true, hends, false_and, if_false]

/-- The ends of an edge that is taken out stay live unless it was their last edge. -/
theorem Linked.isLiveVertex_removeEdge (hc : c.Linked) (he : c.isLiveEdge e = true) (v : Vertex) :
    (c.removeEdge e).isLiveVertex v = true ↔ (c.isLiveVertex v = true ∧
      ¬ (v = c.head (e.side false) ∧ c.outgoing (c.head (e.side false)) = some (e.side true) ∧
        c.next (e.side false) = e.side true)) ∧
      ¬ (v = c.head (e.side true) ∧ c.outgoing (c.head (e.side true)) = some (e.side false) ∧
        c.next (e.side true) = e.side false) := by
  have hends := hc.head_side_ne he
  have hslot : (c.head (e.side false)).slot < (c.bypass e).vertices.size := by
    rw [vertices_bypass]
    exact slot_lt_of_isLiveVertex (hc.head_live (h := e.side false) he)
  -- The edge leaves the fans of its two ends, one after the other, and these are different.
  rw [removeEdge_eq, isLiveVertex_leaveFan, isLiveVertex_leaveFan, outgoing_leaveFan _ _ _ hslot]
  simp only [outgoing_bypass, isLiveVertex_bypass, opposite_side, Bool.not_false, Bool.not_true, hends,
    false_and, if_false]

/-- What taking an edge out does to the links. -/
theorem Linked.unhooks (hc : c.Linked) (he : c.isLiveEdge e = true) :
    c.Unhooks e (c.removeEdge e) where
  size := by rw [removeEdge_eq, size_vertices_leaveFan, size_vertices_leaveFan, vertices_bypass]
  facets := by rw [removeEdge_eq, facets_leaveFan, facets_leaveFan, facets_bypass]
  live d := by
    rw [← isLiveEdge_bypass c e d]
    unfold isLiveEdge
    rw [removeEdge_eq, edges_leaveFan, edges_leaveFan]
  head g := by
    rw [← head_bypass c e g]
    exact congrArg HalfedgeRecord.head (record_removeEdge c e g)
  facetOf g := by
    rw [← facetOf_bypass c e g]
    exact congrArg HalfedgeRecord.facet (record_removeEdge c e g)
  next_on := (hc.next_removeEdge he).1
  next_off := (hc.next_removeEdge he).2
  prev_on := (hc.prev_removeEdge he).1
  prev_off := (hc.prev_removeEdge he).2
  -- An edge has two ends, of which each is the tail of one side.
  outgoing_on g hg := by
    have hends := hc.head_side_ne he
    rw [hc.outgoing_removeEdge he]
    rcases eq_side hg with rfl | rfl
    · simp [tail_side, opposite_side, hends]
    · simp [tail_side, opposite_side, hends.symm]
  outgoing_off v hv := by
    have hvk : v ≠ c.head (e.side true) := (hv (e.side false) rfl).symm
    have hvh : v ≠ c.head (e.side false) := (hv (e.side true) rfl).symm
    rw [hc.outgoing_removeEdge he, if_neg fun h => hvk h.1, if_neg fun h => hvh h.1]
  live_on g hg := by
    have hends := hc.head_side_ne he
    rw [hc.isLiveVertex_removeEdge he]
    rcases eq_side hg with rfl | rfl
    · simp [tail_side, opposite_side, hends]
    · simp [tail_side, opposite_side, hends.symm]
  live_off v hv := by
    have hvk : v ≠ c.head (e.side true) := (hv (e.side false) rfl).symm
    have hvh : v ≠ c.head (e.side false) := (hv (e.side true) rfl).symm
    rw [Bool.eq_iff_iff, hc.isLiveVertex_removeEdge he]
    simp [hvk, hvh]

/-! ## The links after an edge was taken out -/

/-- A halfedge that follows itself around its tail is the only one that leaves it. -/
theorem Linked.eq_of_turnRight_eq (hc : c.Linked) {g a : Halfedge} (hg : c.IsLive g)
    (hturn : c.next g.opposite = g) (ha : c.IsLive a) (ht : c.tail a = c.tail g) : a = g := by
  -- The halfedge would be twice in its fan if there were another one.
  obtain ⟨r, hr⟩ := hc.fan_from hg
  have hmem : a ∈ g :: r := (hr.mem a).2 ⟨ha, ht⟩
  cases r with
  | nil => simpa using hmem
  | cons b r =>
    have hb : c.turnRight g = b := hr.orbit.leads_head.1
    have hgb : g = b := hturn.symm.trans hb
    have hnodup := hr.orbit.nodup
    rw [hgb] at hnodup
    simp at hnodup

/-- A vertex is an end of an edge or not. -/
theorem end_or_off (c : Connectivity) (e : Edge) (v : Vertex) :
    (∃ g : Halfedge, g.edge = e ∧ c.tail g = v) ∨ ∀ g : Halfedge, g.edge = e → c.tail g ≠ v := by
  by_cases hend : ∃ g : Halfedge, g.edge = e ∧ c.tail g = v
  · exact Or.inl hend
  · exact Or.inr fun g hg ht => hend ⟨g, hg, ht⟩

namespace Unhooks

variable (hc : c.Linked) (hu : c.Unhooks e c')

include hu

/-- The halfedges that stay live are those of the other edges. -/
theorem isLive (g : Halfedge) : c'.IsLive g ↔ c.IsLive g ∧ g.edge ≠ e := hu.live g.edge

/-- All halfedges start where they did. -/
theorem tail (g : Halfedge) : c'.tail g = c.tail g := hu.head g.opposite

include hc

/-- Apart from the side of the edge, the halfedges that leave an end stay live. -/
theorem leaves_end {g : Halfedge} (hg : g.edge = e) (a : Halfedge) :
    (c'.IsLive a ∧ c'.tail a = c.tail g) ↔ (c.IsLive a ∧ c.tail a = c.tail g) ∧ a ≠ g := by
  rw [hu.isLive, hu.tail]
  constructor
  · rintro ⟨⟨hlive, hedge⟩, htail⟩
    refine ⟨⟨hlive, htail⟩, ?_⟩
    rintro rfl
    exact hedge hg
  · rintro ⟨⟨hlive, htail⟩, hne⟩
    refine ⟨⟨hlive, fun hedge => ?_⟩, htail⟩
    -- Of the two halfedges of the edge only one leaves the vertex.
    rcases Halfedge.eq_or_eq_opposite (hedge.trans hg.symm) with rfl | rfl
    · exact hne rfl
    · rw [tail_opposite] at htail
      exact hc.head_ne_tail (h := g) hlive htail

/-- Around a vertex that is no end of the edge, nothing changes. -/
theorem turnRight_off {a : Halfedge} (hoff : ∀ g, g.edge = e → c.tail g ≠ c.tail a)
    (he : c.isLiveEdge e = true) : c'.turnRight a = c.turnRight a := by
  refine hu.next_off _ fun k hk hprev => ?_
  have hlive := isLive_of_edge he hk
  have hhead := (hc.prev_live hlive).2.1
  rw [← hprev, head_opposite] at hhead
  exact hoff k hk hhead.symm

/-- The halfedges that leave an end of the edge form one fan without its side. -/
theorem fan_end (he : c.isLiveEdge e = true) {g : Halfedge} (hg : g.edge = e) :
    ∃ l, c'.FanAt (c.tail g) l := by
  have hlive := isLive_of_edge he hg
  obtain ⟨l, hl⟩ := hc.fan (hc.tail_live hlive)
  obtain ⟨r, hr, hperm⟩ := hl.orbit.to_mem ((hl.mem g).2 ⟨hlive, rfl⟩)
  have hmem : ∀ a, a ∈ r ++ [g] ↔ c.IsLive a ∧ c.tail a = c.tail g :=
    fun a => hperm.mem_iff.trans (hl.mem a)
  have hnotr : g ∉ r := fun hgr => (List.nodup_append.1 hr.nodup).2.2 g hgr g (by simp) rfl
  -- What is left of the fan are the other halfedges.
  have hleft : ∀ a, a ∈ r ↔ c'.IsLive a ∧ c'.tail a = c.tail g := by
    intro a
    rw [leaves_end hc hu hg, ← hmem, List.mem_append, List.mem_singleton]
    constructor
    · intro har
      refine ⟨Or.inl har, ?_⟩
      rintro rfl
      exact hnotr har
    · rintro ⟨har | rfl, hne⟩
      · exact har
      · exact absurd rfl hne
  refine ⟨r, ?_, hleft⟩
  rcases List.eq_nil_or_concat r with rfl | ⟨l', y, rfl⟩
  · exact Orbit.nil
  · rw [List.concat_eq_append] at hr hmem ⊢
    rw [List.append_assoc] at hr
    -- The halfedge before the side of the edge is linked past it.
    have hyg : c.turnRight y = g := hr.step_append
    have hylive := ((hmem y).1 (by simp)).1
    have hyprev : y.opposite = c.prev g := by
      rw [← hyg, turnRight, hc.prev_next (h := y.opposite) hylive]
    have hnew : c'.turnRight y = c.turnRight g := by
      rw [turnRight, turnRight, hyprev, hu.next_on g hg]
    refine hr.remove_last ?_ hnew
    intro a ha hay
    have halive := (hmem a).1 (by simp [ha])
    refine hu.next_off _ fun k hk hprev => ?_
    have hklive := isLive_of_edge he hk
    rcases Halfedge.eq_or_eq_opposite (hk.trans hg.symm) with rfl | rfl
    · rw [← hyprev, Halfedge.opposite_inj] at hprev
      exact hay hprev
    · -- Before the other side of the edge comes a halfedge to its other end.
      have hhead := (hc.prev_live hklive).2.1
      rw [← hprev, head_opposite, halive.2, tail_opposite] at hhead
      exact hc.head_ne_tail (h := g) hklive hhead.symm

/-- The halfedges that leave a vertex form one fan without the edge. -/
theorem fan (he : c.isLiveEdge e = true) {v : Vertex} (hv : c.isLiveVertex v = true) :
    ∃ l, c'.FanAt v l := by
  -- An end of the edge loses a halfedge from its fan, and all other vertices keep theirs.
  rcases c.end_or_off e v with ⟨g, hg, rfl⟩ | hoff
  · exact fan_end hc hu he hg
  · obtain ⟨l, hl⟩ := hc.fan hv
    refine ⟨l, hl.orbit.congr fun a ha => ?_, fun a => ?_⟩
    · obtain ⟨halive, hatail⟩ := (hl.mem a).1 ha
      exact turnRight_off hc hu (fun g hg => by rw [hatail]; exact hoff g hg) he
    · rw [hl.mem, hu.isLive, hu.tail]
      constructor
      · rintro ⟨halive, hatail⟩
        exact ⟨⟨halive, fun hedge => hoff a hedge hatail⟩, hatail⟩
      · rintro ⟨⟨halive, -⟩, hatail⟩
        exact ⟨halive, hatail⟩

/-- A vertex is deleted with its last edge. -/
theorem liveVertex (he : c.isLiveEdge e = true) (v : Vertex) :
    c'.isLiveVertex v = true ↔ c.isLiveVertex v = true ∧ (c.Bare v ∨ ¬ c'.Bare v) := by
  rcases c.end_or_off e v with ⟨g, hg, rfl⟩ | hoff
  · have hlive := isLive_of_edge he hg
    have hbare : ¬ c.Bare (c.tail g) := fun hb => hb g hlive rfl
    rw [hu.live_on g hg]
    refine and_congr_right fun hv => ?_
    rw [or_iff_right hbare, not_iff_not]
    constructor
    · -- A halfedge that follows itself around the end is the only one there.
      rintro ⟨-, hturn⟩ a ha ht
      obtain ⟨⟨ha', ht'⟩, hne⟩ := (leaves_end hc hu hg a).1 ⟨ha, ht⟩
      exact hne (hc.eq_of_turnRight_eq hlive hturn ha' ht')
    · -- Otherwise the halfedge behind it would be left.
      intro hbare'
      have hturn : c.next g.opposite = g := by
        by_contra hne
        obtain ⟨hnlive, hntail⟩ := hc.next_live (h := g.opposite) hlive
        rw [head_opposite] at hntail
        obtain ⟨hnlive', hntail'⟩ := (leaves_end hc hu hg _).2 ⟨⟨hnlive, hntail⟩, hne⟩
        exact hbare' _ hnlive' hntail'
      refine ⟨?_, hturn⟩
      cases ho : c.outgoing (c.tail g) with
      | none => exact absurd rfl (hc.isolated hv ho hlive)
      | some a =>
        obtain ⟨ha, hat⟩ := hc.outgoing hv ho
        rw [hc.eq_of_turnRight_eq hlive hturn ha hat]
  · rw [hu.live_off v hoff]
    refine (and_iff_left_of_imp fun _ => ?_).symm
    by_cases hbare : c.Bare v
    · exact Or.inl hbare
    · right
      intro hbare'
      refine hbare fun g hg ht => hbare' g ?_ ?_
      · rw [hu.isLive]
        exact ⟨hg, fun hedge => hoff g hedge ht⟩
      · rw [hu.tail, ht]

/-- A live vertex stores one of the halfedges that are left. -/
theorem outgoing (he : c.isLiveEdge e = true) {v : Vertex} (hv : c.isLiveVertex v = true) {a : Halfedge}
    (ho : c'.outgoing v = some a) : c'.IsLive a ∧ c'.tail a = v := by
  rcases c.end_or_off e v with ⟨g, hg, rfl⟩ | hoff
  · rw [leaves_end hc hu hg]
    rw [hu.outgoing_on g hg] at ho
    split at ho
    · -- The end stored the side of the edge, and has chosen the halfedge behind it.
      split at ho
      · cases ho
      · rename_i hne
        obtain ⟨hnlive, hntail⟩ := hc.next_live (h := g.opposite) (isLive_of_edge he hg)
        rw [head_opposite] at hntail
        rw [← Option.some.inj ho]
        exact ⟨⟨hnlive, hntail⟩, hne⟩
    · rename_i hne
      refine ⟨hc.outgoing hv ho, ?_⟩
      rintro rfl
      exact hne ho
  · rw [hu.outgoing_off v hoff] at ho
    obtain ⟨halive, hatail⟩ := hc.outgoing hv ho
    rw [hu.isLive, hu.tail]
    exact ⟨⟨halive, fun hedge => hoff a hedge hatail⟩, hatail⟩

/-- No halfedge leaves a vertex that is left live and stores none. -/
theorem isolated (he : c.isLiveEdge e = true) {v : Vertex} (hv : c'.isLiveVertex v = true)
    (ho : c'.outgoing v = none) {a : Halfedge} (ha : c'.IsLive a) : c'.tail a ≠ v := by
  intro ht
  have hv' := ((liveVertex hc hu he v).1 hv).1
  have halive := ((hu.isLive a).1 ha).1
  rw [hu.tail] at ht
  rcases c.end_or_off e v with ⟨g, hg, rfl⟩ | hoff
  · rw [hu.outgoing_on g hg] at ho
    split at ho
    · rename_i hstored
      split at ho
      · -- Without a halfedge behind the side of the edge, the end was deleted.
        rename_i hturn
        exact ((hu.live_on g hg).1 hv).2 ⟨hstored, hturn⟩
      · cases ho
    · exact hc.isolated hv' ho halive ht
  · rw [hu.outgoing_off v hoff] at ho
    exact hc.isolated hv' ho halive ht

/-- The links stay in order when an edge is taken out. -/
theorem linked (he : c.isLiveEdge e = true) (hb : ∀ g : Halfedge, g.edge = e → c.facetOf g = none) :
    c'.Linked where
  head_live := by
    intro a ha
    obtain ⟨halive, -⟩ := (hu.isLive a).1 ha
    rw [hu.head, liveVertex hc hu he]
    refine ⟨hc.head_live halive, Or.inr fun hbare => hbare a.opposite ha ?_⟩
    rw [hu.tail, tail_opposite]
  head_ne_tail := by
    intro a ha
    rw [hu.head, hu.tail]
    exact hc.head_ne_tail ((hu.isLive a).1 ha).1
  prev_next := by
    intro a ha
    obtain ⟨halive, hedge⟩ := (hu.isLive a).1 ha
    by_cases hprev : ∃ k : Halfedge, k.edge = e ∧ a = c.prev k
    · obtain ⟨k, hk, rfl⟩ := hprev
      rw [hu.next_on k hk, hu.prev_on k hk]
    · -- What comes behind `a` is not linked past the edge, as `a` would then be a side of it.
      rw [hu.next_off a fun k hk hak => hprev ⟨k, hk, hak⟩, hu.prev_off, hc.prev_next halive]
      intro k hk hnext
      rw [hc.next_inj halive (isLive_of_edge he hk) hnext] at hedge
      exact hedge hk
  facet_next := by
    intro a ha
    obtain ⟨halive, hedge⟩ := (hu.isLive a).1 ha
    rw [hu.facetOf, hu.facetOf]
    by_cases hprev : ∃ k : Halfedge, k.edge = e ∧ a = c.prev k
    · -- Both sides of the edge are on the border, and so is what is linked past it.
      obtain ⟨k, hk, rfl⟩ := hprev
      have hlive := isLive_of_edge he hk
      rw [hu.next_on k hk, hc.facet_next (h := k.opposite) hlive, hc.facet_prev hlive, hb k hk,
        hb k.opposite hk]
    · rw [hu.next_off a fun k hk hak => hprev ⟨k, hk, hak⟩, hc.facet_next halive]
  fan := fun hv => fan hc hu he ((liveVertex hc hu he _).1 hv).1
  outgoing := fun hv => outgoing hc hu he ((liveVertex hc hu he _).1 hv).1
  isolated := isolated hc hu he

end Unhooks

/-! ## Several edges -/

/-- What is left when edges with both sides on the border have been taken out. -/
structure Removed (c : Connectivity) (es : List Edge) (c' : Connectivity) : Prop where
  /-- There are as many vertices. -/
  size : c'.vertices.size = c.vertices.size
  /-- The facets are the same. -/
  facets : c'.facets = c.facets
  /-- The edges are deleted, and no other ones. -/
  live : ∀ d, c'.isLiveEdge d = true ↔ c.isLiveEdge d = true ∧ d ∉ es
  /-- Halfedges point where they did. -/
  head : ∀ g, c'.head g = c.head g
  /-- Halfedges have the facets that they had. -/
  facetOf : ∀ g, c'.facetOf g = c.facetOf g
  /-- Inside the facets the halfedges keep their next ones. -/
  next : ∀ g, c'.IsLive g → c.facetOf g ≠ none → c'.next g = c.next g
  /-- Vertices are deleted with their last edge. -/
  liveVertex : ∀ v, c'.isLiveVertex v = true ↔ c.isLiveVertex v = true ∧ (c.Bare v ∨ ¬ c'.Bare v)
  /-- Vertices without a deleted edge store what they stored. -/
  outgoing : ∀ v, (∀ g : Halfedge, g.edge ∈ es → c.tail g ≠ v) → c'.outgoing v = c.outgoing v
  /-- Deleted vertices store nothing. -/
  outgoing_live : (∀ v g, c.outgoing v = some g → c.isLiveVertex v = true) →
    ∀ v g, c'.outgoing v = some g → c'.isLiveVertex v = true

namespace Removed

variable {c'' : Connectivity} {es ds : List Edge}

/-- Nothing is removed from links that stay as they are. -/
theorem refl (c : Connectivity) : c.Removed [] c where
  size := rfl
  facets := rfl
  live := by simp
  head _ := rfl
  facetOf _ := rfl
  next _ _ _ := rfl
  liveVertex v := (and_iff_left_of_imp fun _ => Classical.em (c.Bare v)).symm
  outgoing _ _ := rfl
  outgoing_live h := h

/-- The halfedges that stay live are those whose edge is not removed. -/
theorem isLive (h : c.Removed es c') (g : Halfedge) :
    c'.IsLive g ↔ c.IsLive g ∧ g.edge ∉ es := h.live g.edge

/-- All halfedges start where they did before the edges are removed. -/
theorem tail (h : c.Removed es c') (g : Halfedge) : c'.tail g = c.tail g := h.head g.opposite

/-- A vertex without an edge gets none. -/
theorem bare (h : c.Removed es c') {v : Vertex} (hv : c.Bare v) : c'.Bare v := by
  intro g hg
  rw [h.tail]
  exact hv g ((h.isLive g).1 hg).1

/-- Edges may be removed in two runs. -/
theorem trans (h : c.Removed es c') (h' : c'.Removed ds c'') : c.Removed (es ++ ds) c'' where
  size := h'.size.trans h.size
  facets := h'.facets.trans h.facets
  live d := by rw [h'.live, h.live, List.mem_append, not_or, and_assoc]
  head g := (h'.head g).trans (h.head g)
  facetOf g := (h'.facetOf g).trans (h.facetOf g)
  next g hg hf := by
    have hlive : c'.IsLive g := ((h'.isLive g).1 hg).1
    rw [h'.next g hg (by rwa [h.facetOf]), h.next g hlive hf]
  liveVertex v := by
    rw [h'.liveVertex, h.liveVertex]
    have h₁ : c.Bare v → c'.Bare v := h.bare
    have h₂ : c'.Bare v → c''.Bare v := h'.bare
    tauto
  outgoing v hv := by
    -- The edges of the second run have the ends that they had before the first run.
    rw [h'.outgoing v fun g hg => ?_, h.outgoing v fun g hg => hv g (List.mem_append_left _ hg)]
    rw [h.tail]
    exact hv g (List.mem_append_right _ hg)
  outgoing_live hall := h'.outgoing_live (h.outgoing_live hall)

end Removed

/-- What is left when one edge has been taken out. -/
theorem Unhooks.removed (hc : c.Linked) (hu : c.Unhooks e c') (he : c.isLiveEdge e = true)
    (hb : ∀ g : Halfedge, g.edge = e → c.facetOf g = none) : c.Removed [e] c' where
  size := hu.size
  facets := hu.facets
  live d := by rw [hu.live, List.mem_singleton]
  head := hu.head
  facetOf := hu.facetOf
  next g _ hf := by
    refine hu.next_off g fun k hk hprev => hf ?_
    have hlive := isLive_of_edge he hk
    rw [hprev, hc.facet_prev hlive, hb k hk]
  liveVertex := hu.liveVertex hc he
  outgoing v hv := hu.outgoing_off v fun g hg => hv g (List.mem_singleton.2 hg)
  outgoing_live hall v a ho := by
    -- An end is deleted only if nothing else leaves it, and then it stores nothing any more.
    rcases c.end_or_off e v with ⟨g, hg, rfl⟩ | hoff
    · rw [hu.outgoing_on g hg] at ho
      rw [hu.live_on g hg]
      split at ho
      · rename_i hstored
        split at ho
        · cases ho
        · rename_i hturn
          exact ⟨hall _ _ hstored, fun h => hturn h.2⟩
      · rename_i hstored
        exact ⟨hall _ _ ho, fun h => hstored h.1⟩
    · rw [hu.outgoing_off v hoff] at ho
      rw [hu.live_off v hoff]
      exact hall v a ho

/-- Edges with both sides on the border can be taken out one after another. -/
theorem Linked.removeEdges (hc : c.Linked) {es : List Edge} (hn : es.Nodup)
    (hlive : ∀ e ∈ es, c.isLiveEdge e = true)
    (hb : ∀ g : Halfedge, g.edge ∈ es → c.facetOf g = none) :
    (es.foldl removeEdge c).Linked ∧ c.Removed es (es.foldl removeEdge c) := by
  induction es generalizing c with
  | nil => exact ⟨hc, Removed.refl c⟩
  | cons e rest ih =>
    rw [List.nodup_cons] at hn
    have he := hlive e List.mem_cons_self
    have hbe : ∀ g : Halfedge, g.edge = e → c.facetOf g = none :=
      fun g hg => hb g (hg ▸ List.mem_cons_self)
    have hu := hc.unhooks he
    have hremoved := hu.removed hc he hbe
    -- The other edges are live without this one, and still on the border.
    have hrest : ∀ d ∈ rest, (c.removeEdge e).isLiveEdge d = true := by
      intro d hd
      refine (hu.live d).2 ⟨hlive d (List.mem_cons_of_mem e hd), ?_⟩
      rintro rfl
      exact hn.1 hd
    have hbrest : ∀ g : Halfedge, g.edge ∈ rest → (c.removeEdge e).facetOf g = none := by
      intro g hg
      rw [hu.facetOf]
      exact hb g (List.mem_cons_of_mem e hg)
    obtain ⟨hlinked, hall⟩ := ih (hu.linked hc he hbe) hn.2 hrest hbrest
    exact ⟨hlinked, hremoved.trans hall⟩

end Connectivity

end RegionMesh
