import RegionMesh.Proofs.Connectivity.Walks

/-!
# Well-formed links

What the links of a mesh promise. Around every live vertex the halfedges that leave it form one orbit
(`FanAt`), and the halfedges of every live facet form one orbit that starts where the facet says (`RingOf`).
`Linked` collects the promises that hold at every moment of a change, and `WellFormed` those that hold
between two changes: then a vertex stores a halfedge on the border if one leaves it, and every facet has
its ring. The walks of the library close on such links, and meet what they should (`Linked.fan_spec`,
`Linked.loop_spec`, `WellFormed.ringOf`).

`Simple` holds of the meshes that are built facet by facet: no edge without a facet, no two edges between
the same vertices, and nothing stored at a deleted vertex.
-/

namespace RegionMesh

namespace Connectivity

/-! ## What the links promise -/

variable (c : Connectivity)

/-- The halfedges that leave a vertex, each once and in clockwise order. -/
structure FanAt (v : Vertex) (l : List Halfedge) : Prop where
  /-- Turning right leads through the list and back to its start. -/
  orbit : Orbit c.turnRight l
  /-- The list holds the live halfedges that leave the vertex. -/
  mem : ∀ h, h ∈ l ↔ c.IsLive h ∧ c.tail h = v

/-- The halfedges of a facet, each once and in the order of the ring from its start on. -/
structure RingOf (f : Facet) (l : List Halfedge) : Prop where
  /-- The next halfedges lead through the list and back to its start. -/
  orbit : Orbit c.next l
  /-- The list starts where the facet says. -/
  head : l.head? = some (c.start f)
  /-- The facet has at least three corners. -/
  length : 3 ≤ l.length
  /-- The list holds the live halfedges of the facet. -/
  mem : ∀ h, h ∈ l ↔ c.IsLive h ∧ c.facetOf h = some f

/-- If a vertex stores a halfedge of a facet, no halfedge that leaves it is on the border. -/
def BorderFirst (v : Vertex) : Prop :=
  ∀ h, c.outgoing v = some h → c.facetOf h ≠ none →
    ∀ g, c.IsLive g → c.tail g = v → c.facetOf g ≠ none

/-- The halfedges are linked to each other and to the vertices as they should be. -/
structure Linked : Prop where
  /-- A halfedge points to a live vertex. -/
  head_live : ∀ {h}, c.IsLive h → c.isLiveVertex (c.head h) = true
  /-- A halfedge joins different vertices. -/
  head_ne_tail : ∀ {h}, c.IsLive h → c.head h ≠ c.tail h
  /-- A halfedge is the previous one of its next one. -/
  prev_next : ∀ {h}, c.IsLive h → c.prev (c.next h) = h
  /-- The next halfedge has the same facet. -/
  facet_next : ∀ {h}, c.IsLive h → c.facetOf (c.next h) = c.facetOf h
  /-- The halfedges that leave a vertex form one fan. -/
  fan : ∀ {v}, c.isLiveVertex v = true → ∃ l, c.FanAt v l
  /-- A vertex stores one of the halfedges that leave it. -/
  outgoing : ∀ {v h}, c.isLiveVertex v = true → c.outgoing v = some h → c.IsLive h ∧ c.tail h = v
  /-- No halfedge leaves a vertex that stores none. -/
  isolated : ∀ {v}, c.isLiveVertex v = true → c.outgoing v = none →
    ∀ {h}, c.IsLive h → c.tail h ≠ v

/-- The links are in order between two changes of the mesh. -/
structure WellFormed : Prop extends c.Linked where
  /-- A vertex stores a halfedge on the border if one leaves it. -/
  borderFirst : ∀ {v}, c.isLiveVertex v = true → c.BorderFirst v
  /-- A halfedge's facet is live. -/
  facet_live : ∀ {h f}, c.IsLive h → c.facetOf h = some f → c.isLiveFacet f = true
  /-- The halfedges of a facet form its ring. -/
  ring : ∀ {f}, c.isLiveFacet f = true → ∃ l, c.RingOf f l

/-- Links as they come about when a mesh is built facet by facet. -/
structure Simple : Prop where
  /-- Every edge has a facet on one of its sides. -/
  faced : ∀ {h}, c.IsLive h → c.facetOf h = none → c.facetOf h.opposite ≠ none
  /-- No two halfedges join the same vertices in the same direction. -/
  unique : ∀ {g h}, c.IsLive g → c.IsLive h → c.tail g = c.tail h → c.head g = c.head h → g = h
  /-- A vertex that is not live stores no halfedge. -/
  outgoing_live : ∀ {v h}, c.outgoing v = some h → c.isLiveVertex v = true

variable {c}

/-! ## Consequences -/

/-- A vertex that stores what it stored, with its old halfedges and their facets, still has a halfedge on the border
first. -/
theorem BorderFirst.congr {c' : Connectivity} {v : Vertex} (h : c.BorderFirst v)
    (ho : c'.outgoing v = c.outgoing v)
    (hstored : ∀ a, c.outgoing v = some a → c'.facetOf a = c.facetOf a)
    (hleaves : ∀ g, c'.IsLive g → c'.tail g = v →
      c.IsLive g ∧ c.tail g = v ∧ c'.facetOf g = c.facetOf g) : c'.BorderFirst v := by
  intro a ha haf g hg ht
  rw [ho] at ha
  rw [hstored a ha] at haf
  obtain ⟨hglive, hgtail, hgf⟩ := hleaves g hg ht
  rw [hgf]
  exact h a ha haf g hglive hgtail

/-- Links that are in order stay so if only the facets of the halfedges and the halfedges that the vertices store
change, and what they become is in order. -/
theorem Linked.congr {c' : Connectivity} (hc : c.Linked) (hvertex : ∀ v, c'.isLiveVertex v = c.isLiveVertex v)
    (hlive : ∀ g, c'.IsLive g ↔ c.IsLive g) (hhead : ∀ g, c'.head g = c.head g) (hnext : ∀ g, c'.next g = c.next g)
    (hprev : ∀ g, c'.prev g = c.prev g)
    (hfacet : ∀ g, c.IsLive g → c'.facetOf (c.next g) = c'.facetOf g)
    (hstored : ∀ v g, c.isLiveVertex v = true → c'.outgoing v = some g → c.IsLive g ∧ c.tail g = v)
    (hnone : ∀ v, c.isLiveVertex v = true → c'.outgoing v = none → c.outgoing v = none) : c'.Linked where
  head_live := by
    intro g hg
    rw [hvertex, hhead]
    exact hc.head_live ((hlive g).1 hg)
  head_ne_tail := by
    intro g hg
    unfold tail
    rw [hhead, hhead]
    exact hc.head_ne_tail ((hlive g).1 hg)
  prev_next := by
    intro g hg
    rw [hnext, hprev]
    exact hc.prev_next ((hlive g).1 hg)
  facet_next := by
    intro g hg
    rw [hnext]
    exact hfacet g ((hlive g).1 hg)
  -- Turning around a vertex follows the next halfedges, which are the same.
  fan := by
    intro v hv
    rw [hvertex] at hv
    obtain ⟨l, hl⟩ := hc.fan hv
    refine ⟨l, hl.orbit.congr fun g _ => hnext g.opposite, fun g => ?_⟩
    unfold tail
    rw [hl.mem, hlive, hhead]
    rfl
  outgoing := by
    intro v g hv ho
    rw [hvertex] at hv
    unfold tail
    rw [hlive, hhead]
    exact hstored v g hv ho
  isolated := by
    intro v hv ho g hg
    rw [hvertex] at hv
    unfold tail
    rw [hhead]
    exact hc.isolated hv (hnone v hv ho) ((hlive g).1 hg)

namespace Linked

variable {v : Vertex} {h : Halfedge}

/-- A live halfedge starts at a live vertex. -/
theorem tail_live (hc : c.Linked) (hh : c.IsLive h) : c.isLiveVertex (c.tail h) = true :=
  hc.head_live (h := h.opposite) hh

/-- The next halfedge is live and leaves the head. -/
theorem next_live (hc : c.Linked) (hh : c.IsLive h) :
    c.IsLive (c.next h) ∧ c.tail (c.next h) = c.head h := by
  obtain ⟨l, hl⟩ := hc.fan (hc.head_live hh)
  have hmem : h.opposite ∈ l := (hl.mem _).2 ⟨hh, tail_opposite h⟩
  have hstep := hl.orbit.step_mem hmem
  rw [turnRight, Halfedge.opposite_opposite] at hstep
  exact (hl.mem _).1 hstep

/-- The previous halfedge is live and points to the tail, and the halfedge is its next one. -/
theorem prev_live (hc : c.Linked) (hh : c.IsLive h) :
    c.IsLive (c.prev h) ∧ c.head (c.prev h) = c.tail h ∧ c.next (c.prev h) = h := by
  obtain ⟨l, hl⟩ := hc.fan (hc.tail_live hh)
  obtain ⟨g, hg, hgh⟩ := hl.orbit.exists_step_eq ((hl.mem h).2 ⟨hh, rfl⟩)
  obtain ⟨hlive, htail⟩ := (hl.mem g).1 hg
  -- The halfedge before `h` is the other side of the one that turns right to `h`.
  have hprev : c.prev h = g.opposite := by rw [← hgh, turnRight, hc.prev_next (h := g.opposite) hlive]
  rw [hprev]
  exact ⟨hlive, htail, hgh⟩

/-- The halfedge before another one has the same facet. -/
theorem facet_prev (hc : c.Linked) (hh : c.IsLive h) : c.facetOf (c.prev h) = c.facetOf h := by
  obtain ⟨hlive, -, hnext⟩ := hc.prev_live hh
  calc c.facetOf (c.prev h) = c.facetOf (c.next (c.prev h)) := (hc.facet_next hlive).symm
    _ = c.facetOf h := by rw [hnext]

/-- Different halfedges have different next ones. -/
theorem next_inj (hc : c.Linked) {g : Halfedge} (hg : c.IsLive g) (hh : c.IsLive h)
    (he : c.next g = c.next h) : g = h := by
  calc g = c.prev (c.next g) := (hc.prev_next hg).symm
    _ = c.prev (c.next h) := by rw [he]
    _ = h := hc.prev_next hh

/-- Turning left undoes turning right. -/
theorem turnLeft_turnRight (hc : c.Linked) (hh : c.IsLive h) : c.turnLeft (c.turnRight h) = h := by
  calc c.turnLeft (c.turnRight h) = (c.prev (c.next h.opposite)).opposite := rfl
    _ = h.opposite.opposite := by rw [hc.prev_next (h := h.opposite) hh]
    _ = h := Halfedge.opposite_opposite h

/-- The orbit of the halfedges that leave a vertex, from any of them on. -/
theorem fan_from (hc : c.Linked) (hh : c.IsLive h) : ∃ r, c.FanAt (c.tail h) (h :: r) := by
  obtain ⟨l, hl⟩ := hc.fan (hc.tail_live hh)
  obtain ⟨r, hr, hp⟩ := hl.orbit.from_mem ((hl.mem h).2 ⟨hh, rfl⟩)
  exact ⟨r, hr, fun g => by rw [hp.mem_iff, hl.mem]⟩

/-- Both walks around a vertex from a halfedge that leaves it close, and meet every halfedge that leaves
it once. -/
theorem turn_spec (hc : c.Linked) (hh : c.IsLive h) :
    ∃ r, c.walk c.turnLeft h = ⟨h :: r, true⟩ ∧ c.walk c.turnRight h = ⟨h :: r.reverse, true⟩ ∧
      Orbit c.turnLeft (h :: r) ∧ ∀ g, g ∈ h :: r ↔ c.IsLive g ∧ c.tail g = c.tail h := by
  obtain ⟨r, hr⟩ := hc.fan_from hh
  -- The counterclockwise walk meets the same halfedges in the reverse order.
  have hleft : Orbit c.turnLeft (h :: r.reverse) :=
    hr.orbit.reverse fun g hg => hc.turnLeft_turnRight ((hr.mem g).1 hg).1
  have hmem : ∀ g, g ∈ h :: r.reverse ↔ c.IsLive g ∧ c.tail g = c.tail h := by
    intro g
    rw [← hr.mem, List.mem_cons, List.mem_cons, List.mem_reverse]
  refine ⟨r.reverse, ?_, ?_, hleft, hmem⟩
  · exact walk_of_orbit hleft fun g hg => ((hmem g).1 hg).1.slot_lt
  · rw [List.reverse_reverse]
    exact walk_of_orbit hr.orbit fun g hg => ((hr.mem g).1 hg).1.slot_lt

/-- The fan of a vertex closes and meets every halfedge that leaves the vertex once. -/
theorem fan_spec (hc : c.Linked) (hv : c.isLiveVertex v = true) :
    (c.fan v).closed = true ∧ (c.fan v).path.Nodup ∧
      ∀ h, h ∈ (c.fan v).path ↔ c.IsLive h ∧ c.tail h = v := by
  unfold Connectivity.fan
  cases ho : c.outgoing v with
  | none =>
    refine ⟨rfl, List.nodup_nil, fun h => ?_⟩
    -- A vertex that stores nothing has no halfedges, and its walk goes nowhere.
    have hnone : ¬ (c.IsLive h ∧ c.tail h = v) := fun hh => hc.isolated hv ho hh.1 hh.2
    simp [Walk.nowhere, hnone]
  | some h =>
    obtain ⟨hh, rfl⟩ := hc.outgoing hv ho
    obtain ⟨r, hwalk, -, horbit, hmem⟩ := hc.turn_spec hh
    simp only [hwalk]
    exact ⟨trivial, horbit.nodup, hmem⟩

/-- The clockwise fan of a vertex closes and lists the same halfedges as the fan. -/
theorem fanRight_spec (hc : c.Linked) (hv : c.isLiveVertex v = true) :
    (c.fanRight v).closed = true ∧ (c.fanRight v).path.Perm (c.fan v).path := by
  unfold Connectivity.fanRight Connectivity.fan
  cases ho : c.outgoing v with
  | none => exact ⟨rfl, List.Perm.refl _⟩
  | some h =>
    obtain ⟨hh, rfl⟩ := hc.outgoing hv ho
    obtain ⟨r, hleft, hright, -, -⟩ := hc.turn_spec hh
    simp only [hleft, hright]
    exact ⟨trivial, (List.reverse_perm r).cons h⟩

/-- The loop of a halfedge is an orbit of live halfedges with the same facet. -/
theorem loop_orbit (hc : c.Linked) (hh : c.IsLive h) :
    ∃ r, Orbit c.next (h :: r) ∧ ∀ g ∈ h :: r, c.IsLive g ∧ c.facetOf g = c.facetOf h := by
  -- The halfedges with this facet are finitely many, and the next halfedge of one is another one.
  let alike := c.liveHalfedges.filter (c.facetOf · = c.facetOf h)
  have hmem : ∀ g, g ∈ alike ↔ c.IsLive g ∧ c.facetOf g = c.facetOf h := by
    intro g
    simp [alike, mem_liveHalfedges]
  have hnext : ∀ g ∈ alike, c.next g ∈ alike := by
    intro g hg
    rw [hmem] at hg ⊢
    exact ⟨(hc.next_live hg.1).1, (hc.facet_next hg.1).trans hg.2⟩
  have hback : ∀ g ∈ alike, c.prev (c.next g) = g := fun g hg => hc.prev_next ((hmem g).1 hg).1
  obtain ⟨r, hr, hr'⟩ := Orbit.exists_of_finite hnext hback ((hmem h).2 ⟨hh, rfl⟩)
  exact ⟨r, hr, fun g hg => (hmem g).1 (hr' g hg)⟩

/-- The loop of a halfedge closes. -/
theorem loop_spec (hc : c.Linked) (hh : c.IsLive h) :
    ∃ r, c.loop h = ⟨h :: r, true⟩ ∧ Orbit c.next (h :: r) ∧
      ∀ g ∈ h :: r, c.IsLive g ∧ c.facetOf g = c.facetOf h := by
  obtain ⟨r, hr, hmem⟩ := hc.loop_orbit hh
  exact ⟨r, walk_of_orbit hr fun g hg => (hmem g hg).1.slot_lt, hr, hmem⟩

/-- The first halfedge from a live vertex to another vertex, if there is one. -/
theorem find?_eq_some (hc : c.Linked) (hv : c.isLiveVertex v = true) {w : Vertex}
    (hf : c.find? v w = some h) : c.IsLive h ∧ c.tail h = v ∧ c.head h = w := by
  have hmem := List.mem_of_find?_eq_some hf
  have hhead := List.find?_some hf
  have hfan := ((hc.fan_spec hv).2.2 h).1 hmem
  exact ⟨hfan.1, hfan.2, by simpa using hhead⟩

/-- Where none is found, no halfedge joins the vertices. -/
theorem find?_eq_none (hc : c.Linked) (hv : c.isLiveVertex v = true) {w : Vertex}
    (hf : c.find? v w = none) (hh : c.IsLive h) (ht : c.tail h = v) : c.head h ≠ w := by
  have hmem := ((hc.fan_spec hv).2.2 h).2 ⟨hh, ht⟩
  simpa using List.find?_eq_none.1 hf h hmem

end Linked

/-- The ring of a facet is its list of halfedges. -/
theorem RingOf.ring_eq {f : Facet} {l : List Halfedge} (h : c.RingOf f l) : c.ring f = ⟨l, true⟩ := by
  obtain ⟨a, r, rfl⟩ : ∃ a r, l = a :: r := by
    cases l with
    | nil => exact absurd h.length (by simp)
    | cons a r => exact ⟨a, r, rfl⟩
  obtain rfl : a = c.start f := by simpa using h.head
  exact walk_of_orbit h.orbit fun g hg => ((h.mem g).1 hg).1.slot_lt

/-- The corners of a facet are the vertices to which the halfedges of its ring point. -/
theorem RingOf.corners_eq {f : Facet} {l : List Halfedge} (h : c.RingOf f l) :
    c.corners f = l.map c.head := by
  unfold corners
  rw [h.ring_eq]

namespace WellFormed

variable {f : Facet}

/-- The path of a facet's ring lists its halfedges. -/
theorem ringOf (hc : c.WellFormed) (hf : c.isLiveFacet f = true) : c.RingOf f (c.ring f).path := by
  obtain ⟨l, hl⟩ := hc.ring hf
  rw [hl.ring_eq]
  exact hl

/-- The ring of a facet closes. -/
theorem ring_closed (hc : c.WellFormed) (hf : c.isLiveFacet f = true) : (c.ring f).closed = true := by
  obtain ⟨l, hl⟩ := hc.ring hf
  rw [hl.ring_eq]

/-- The corners of a facet are the vertices that its halfedges point to. -/
theorem mem_corners (hc : c.WellFormed) (hf : c.isLiveFacet f = true) {v : Vertex} :
    v ∈ c.corners f ↔ ∃ h, c.IsLive h ∧ c.facetOf h = some f ∧ c.head h = v := by
  unfold corners
  rw [List.mem_map]
  simp only [(hc.ringOf hf).mem, and_assoc]

/-- The corners of a facet are the vertices that its halfedges leave. -/
theorem mem_corners_tail (hc : c.WellFormed) (hf : c.isLiveFacet f = true) {v : Vertex} :
    v ∈ c.corners f ↔ ∃ h, c.IsLive h ∧ c.facetOf h = some f ∧ c.tail h = v := by
  rw [hc.mem_corners hf]
  -- A halfedge points to the vertex that the next one leaves.
  constructor
  · rintro ⟨h, hh, hhf, rfl⟩
    obtain ⟨hn, ht⟩ := hc.next_live hh
    exact ⟨c.next h, hn, (hc.facet_next hh).trans hhf, ht⟩
  · rintro ⟨h, hh, hhf, rfl⟩
    obtain ⟨hp, ht, -⟩ := hc.prev_live hh
    exact ⟨c.prev h, hp, (hc.facet_prev hh).trans hhf, ht⟩

end WellFormed

/-! ## New vertices -/

/-- A new vertex is live, and the others are as live as before. -/
theorem isLiveVertex_addVertex (v : Vertex) :
    c.addVertex.2.isLiveVertex v = true ↔ v = ⟨c.vertices.size⟩ ∨ c.isLiveVertex v = true := by
  obtain ⟨i⟩ := v
  unfold isLiveVertex addVertex
  by_cases hi : i = c.vertices.size
  · subst hi
    simp
  · simp [Array.getElem?_push, hi]

/-- A new vertex stores nothing, and the others what they stored. -/
theorem outgoing_addVertex (v : Vertex) : c.addVertex.2.outgoing v = c.outgoing v := by
  obtain ⟨i⟩ := v
  unfold outgoing addVertex
  by_cases hi : i = c.vertices.size
  · subst hi
    simp
  · simp [Array.getElem?_push, hi]

/-- No vertex behind the storage is live. -/
theorem isLiveVertex_new : c.isLiveVertex ⟨c.vertices.size⟩ = false := by
  rw [Bool.eq_false_iff]
  exact fun hv => absurd (slot_lt_of_isLiveVertex hv) (Nat.lt_irrefl _)

/-- A new vertex is linked to nothing, and leaves the other links in order. -/
theorem WellFormed.addVertex (hc : c.WellFormed) : c.addVertex.2.WellFormed := by
  -- Nothing leaves the new vertex, as it was not live before.
  have hlive : ∀ {h}, c.IsLive h → c.tail h ≠ ⟨c.vertices.size⟩ := by
    intro h hh he
    have htail := hc.tail_live hh
    rw [he, isLiveVertex_new] at htail
    cases htail
  have hnew : ∀ {h}, c.addVertex.2.IsLive h → c.addVertex.2.tail h ≠ ⟨c.vertices.size⟩ :=
    fun hh => hlive hh
  refine ⟨⟨fun hh => isLiveVertex_addVertex _ |>.2 (Or.inr (hc.head_live hh)), hc.head_ne_tail, hc.prev_next,
    hc.facet_next, ?_, ?_, ?_⟩, ?_, hc.facet_live, ?_⟩
  · intro v hv
    rcases (isLiveVertex_addVertex v).1 hv with rfl | hv
    · refine ⟨[], Orbit.nil, fun h => ?_⟩
      have hnot : ¬ (c.addVertex.2.IsLive h ∧ c.addVertex.2.tail h = ⟨c.vertices.size⟩) :=
        fun hh => hnew hh.1 hh.2
      simp [hnot]
    · obtain ⟨l, hl⟩ := hc.fan hv
      exact ⟨l, hl.orbit, hl.mem⟩
  · intro v h hv ho
    rw [outgoing_addVertex] at ho
    rcases (isLiveVertex_addVertex v).1 hv with rfl | hv
    · unfold outgoing at ho
      simp at ho
    · exact hc.outgoing hv ho
  · intro v hv ho h hh
    rw [outgoing_addVertex] at ho
    rcases (isLiveVertex_addVertex v).1 hv with rfl | hv
    · exact hnew hh
    · exact hc.isolated hv ho hh
  · intro v hv h ho
    rw [outgoing_addVertex] at ho
    rcases (isLiveVertex_addVertex v).1 hv with rfl | hv
    · unfold outgoing at ho
      simp at ho
    · exact hc.borderFirst hv h ho
  · intro f hf
    obtain ⟨l, hl⟩ := hc.ring hf
    exact ⟨l, hl.orbit, hl.head, hl.length, hl.mem⟩

/-- Meshes that are built facet by facet stay so. -/
theorem Simple.addVertex (hs : c.Simple) : c.addVertex.2.Simple := by
  refine ⟨hs.faced, hs.unique, fun ho => ?_⟩
  rw [outgoing_addVertex] at ho
  exact (isLiveVertex_addVertex _).2 (Or.inr (hs.outgoing_live ho))

/-- Links without elements are in order. -/
theorem wellFormed_empty : ({} : Connectivity).WellFormed := by
  refine ⟨⟨?_, ?_, ?_, ?_, ?_, ?_, ?_⟩, ?_, ?_, ?_⟩
  all_goals
    intros
    simp_all [IsLive, isLiveEdge, isLiveVertex, isLiveFacet]

/-- Without elements no two edges join the same vertices. -/
theorem simple_empty : ({} : Connectivity).Simple := by
  refine ⟨?_, ?_, ?_⟩
  all_goals
    intros
    simp_all [IsLive, isLiveEdge, outgoing]

end Connectivity

end RegionMesh
