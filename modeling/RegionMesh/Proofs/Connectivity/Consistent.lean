import RegionMesh.Proofs.Connectivity.WellFormed

/-!
# Consistent links

What links need for the check to accept them, element by element (`Consistent`): every halfedge agrees with its
neighbours in the loop and points to live elements, the halfedges around every vertex form one fan with those on the
border first, no loop changes its facet, and every facet starts at one of its own halfedges on a loop of at least three.

Links that are in order are consistent (`WellFormed.consistent`). Consistent links keep all promises of `Linked`
(`Consistent.linked`), but a facet may have halfedges that are not on its ring.
-/

namespace RegionMesh

namespace Connectivity

variable (c : Connectivity)

/-- A halfedge joins different vertices, points to live elements, and agrees with its neighbours in the loop. -/
structure HalfedgeAgrees (h : Halfedge) : Prop where
  /-- The halfedge leaves another vertex than it points to. -/
  tail_ne_head : c.tail h ≠ c.head h
  /-- The vertex that it points to is live. -/
  head_live : c.isLiveVertex (c.head h) = true
  /-- Its facet is live, if it has one. -/
  facet_live : ∀ f, c.facetOf h = some f → c.isLiveFacet f = true
  /-- The next halfedge is live. -/
  next_live : c.IsLive (c.next h)
  /-- The previous halfedge is live. -/
  prev_live : c.IsLive (c.prev h)
  /-- The halfedge is the next one of its previous one. -/
  next_prev : c.next (c.prev h) = h
  /-- The halfedge is the previous one of its next one. -/
  prev_next : c.prev (c.next h) = h
  /-- The next halfedge leaves the vertex that the halfedge points to. -/
  tail_next : c.tail (c.next h) = c.head h

/-- A vertex stores nothing and no halfedge leaves it, or it stores one from which turning left meets all
halfedges that leave it, each once. -/
inductive VertexAgrees (v : Vertex) : Prop
  /-- No halfedge leaves the vertex. -/
  | isolated (stores : c.outgoing v = none) (alone : ∀ h, c.IsLive h → c.tail h ≠ v)
  /-- The halfedges that leave the vertex are `h :: r`. If the stored one has a facet, all of them have. -/
  | fan (h : Halfedge) (r : List Halfedge) (stores : c.outgoing v = some h)
    (orbit : Orbit c.turnLeft (h :: r)) (mem : ∀ g, g ∈ h :: r ↔ c.IsLive g ∧ c.tail g = v)
    (border : c.facetOf h ≠ none → ∀ g ∈ h :: r, c.facetOf g ≠ none)

/-- A facet starts at a halfedge of its own, on a loop of at least three. -/
structure FacetAgrees (f : Facet) : Prop where
  /-- The halfedge at which the facet starts is live. -/
  start_live : c.IsLive (c.start f)
  /-- It belongs to the facet. -/
  facetOf_start : c.facetOf (c.start f) = some f
  /-- Its loop comes back to it, and has at least three halfedges. -/
  ring : ∃ r, Orbit c.next (c.start f :: r) ∧ 3 ≤ (c.start f :: r).length

/-- All live elements agree with each other. -/
structure Consistent : Prop where
  /-- Every live halfedge agrees with what is next to it. -/
  halfedge : ∀ h, c.IsLive h → c.HalfedgeAgrees h
  /-- Every live vertex agrees with the halfedges around it. -/
  vertex : ∀ v, c.isLiveVertex v = true → c.VertexAgrees v
  /-- All halfedges of a loop have the same facet, or none. -/
  loop : ∀ h, c.IsLive h → ∀ n, c.facetOf (c.next^[n] h) = c.facetOf h
  /-- Every live facet agrees with its halfedges. -/
  facet : ∀ f, c.isLiveFacet f = true → c.FacetAgrees f

variable {c}

namespace Consistent

/-- Consistent links keep the promises that hold at every moment of a change. -/
theorem linked (hc : c.Consistent) : c.Linked where
  head_live hh := (hc.halfedge _ hh).head_live
  head_ne_tail hh := (hc.halfedge _ hh).tail_ne_head.symm
  prev_next hh := (hc.halfedge _ hh).prev_next
  facet_next hh := hc.loop _ hh 1
  fan {v} hv := by
    cases hc.vertex v hv with
    | isolated stores alone =>
      refine ⟨[], Orbit.nil, fun h => ?_⟩
      have hnone : ¬ (c.IsLive h ∧ c.tail h = v) := fun hh => alone h hh.1 hh.2
      simp [hnone]
    | fan h r stores orbit mem border =>
      -- Turning right undoes turning left, so the fan in clockwise order is the orbit backwards.
      have hback : ∀ g ∈ h :: r, c.turnRight (c.turnLeft g) = g := by
        intro g hg
        rw [turnRight, turnLeft, Halfedge.opposite_opposite]
        exact (hc.halfedge g ((mem g).1 hg).1).next_prev
      refine ⟨h :: r.reverse, orbit.reverse hback, fun g => ?_⟩
      rw [← mem, List.mem_cons, List.mem_cons, List.mem_reverse]
  outgoing {v h} hv ho := by
    cases hc.vertex v hv with
    | isolated stores alone => simp [stores] at ho
    | fan g r stores orbit mem border =>
      obtain rfl : g = h := Option.some.inj (stores.symm.trans ho)
      exact (mem g).1 List.mem_cons_self
  isolated {v} hv ho h hh := by
    cases hc.vertex v hv with
    | isolated stores alone => exact alone h hh
    | fan g r stores orbit mem border => simp [stores] at ho

/-- A vertex on the border of consistent links stores a halfedge on the border. -/
theorem borderFirst (hc : c.Consistent) {v : Vertex} (hv : c.isLiveVertex v = true) :
    c.BorderFirst v := by
  intro h ho hf g hg hgv
  cases hc.vertex v hv with
  | isolated stores alone => simp [stores] at ho
  | fan a r stores orbit mem border =>
    obtain rfl : a = h := Option.some.inj (stores.symm.trans ho)
    exact border hf g ((mem g).2 ⟨hg, hgv⟩)

/-- On consistent links the ring of a facet closes. -/
theorem ring_eq (hc : c.Consistent) {f : Facet} (hf : c.isLiveFacet f = true) :
    ∃ r, c.ring f = ⟨c.start f :: r, true⟩ ∧ Orbit c.next (c.start f :: r) ∧ 3 ≤ (c.start f :: r).length ∧
      ∀ h ∈ c.start f :: r, c.IsLive h ∧ c.facetOf h = some f := by
  obtain ⟨hstart, hfacet, r, hr, hlen⟩ := hc.facet f hf
  have hmem : ∀ h ∈ c.start f :: r, c.IsLive h ∧ c.facetOf h = some f := by
    refine hr.forall_mem (p := fun h => c.IsLive h ∧ c.facetOf h = some f) List.mem_cons_self ⟨hstart, hfacet⟩ ?_
    rintro g - ⟨hg, hgf⟩
    exact ⟨(hc.linked.next_live hg).1, (hc.linked.facet_next hg).trans hgf⟩
  exact ⟨r, walk_of_orbit hr fun g hg => (hmem g hg).1.slot_lt, hr, hlen, hmem⟩

end Consistent

/-- Around every live vertex of linked halfedges turning left meets those that leave it. -/
theorem Linked.vertexAgrees (hc : c.Linked) {v : Vertex} (hv : c.isLiveVertex v = true)
    (hborder : c.BorderFirst v) : c.VertexAgrees v := by
  cases ho : c.outgoing v with
  | none => exact .isolated ho fun h hh => hc.isolated hv ho hh
  | some h =>
    obtain ⟨hh, rfl⟩ := hc.outgoing hv ho
    obtain ⟨r, -, -, horbit, hmem⟩ := hc.turn_spec hh
    refine .fan h r ho horbit hmem fun hf g hg => ?_
    exact hborder h ho hf g ((hmem g).1 hg).1 ((hmem g).1 hg).2

/-- If taking the next halfedge keeps the facet, it stays the same all along a loop. -/
theorem facetOf_iterate
    (hnext : ∀ {g}, c.IsLive g → c.IsLive (c.next g) ∧ c.facetOf (c.next g) = c.facetOf g) {h : Halfedge}
    (hh : c.IsLive h) (n : ℕ) : c.facetOf (c.next^[n] h) = c.facetOf h := by
  induction n generalizing h with
  | zero => rfl
  | succ n ih =>
    rw [Function.iterate_succ_apply, ih (hnext hh).1]
    exact (hnext hh).2

/-- Links that are in order are consistent. -/
theorem WellFormed.consistent (hc : c.WellFormed) : c.Consistent where
  halfedge h hh := by
    obtain ⟨hnext, htail⟩ := hc.next_live hh
    obtain ⟨hprev, -, hback⟩ := hc.prev_live hh
    exact ⟨(hc.head_ne_tail hh).symm, hc.head_live hh, fun f => hc.facet_live hh, hnext, hprev, hback,
      hc.prev_next hh, htail⟩
  vertex v hv := hc.vertexAgrees hv (hc.borderFirst hv)
  loop h hh n := facetOf_iterate (fun hg => ⟨(hc.next_live hg).1, hc.facet_next hg⟩) hh n
  facet f hf := by
    obtain ⟨l, hl⟩ := hc.ring hf
    obtain ⟨r, rfl⟩ := List.head?_eq_some_iff.1 hl.head
    obtain ⟨hlive, hfacet⟩ := (hl.mem _).1 List.mem_cons_self
    exact ⟨hlive, hfacet, r, hl.orbit, hl.length⟩

end Connectivity

end RegionMesh
