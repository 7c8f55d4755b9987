import RegionMesh.Proofs.Connectivity.Checked
import RegionMesh.Proofs.Connectivity.Rings

/-!
# The links that the check accepts

The check accepts the consistent links and no others (`check_eq_ok_iff`). What is left to show after `Checked` is that
links which pass are consistent. The walks of the check close on them, so each runs through an orbit, whatever the
steps are like, and the halfedges around a vertex are those that leave it, since each was looked for there.

Where the halfedges of every facet form one loop, consistent links are in order (`Consistent.wellFormed`). So the links
that are in order are those that the check accepts and whose rings hold all halfedges of their facets
(`accepted_iff`).
-/

namespace RegionMesh

namespace Connectivity

variable {c : Connectivity} {v : Vertex} {h : Halfedge} {f : Facet}

section Check

variable (hc : c.check = .ok ())

include hc

/-- On links that pass the check, a live halfedge agrees with its neighbours. -/
theorem halfedgeAgrees_of_check (hh : c.IsLive h) : c.HalfedgeAgrees h := by
  obtain ⟨hne, hlinks, -⟩ := checkHalfedge_eq_ok_iff.1 ((parts_of_check hc).2.1 h hh)
  obtain ⟨hprev, hnext, hhead, hfacet, hnextPrev, hprevNext, htail, -⟩ := checkLinks_eq_ok_iff.1 hlinks
  exact ⟨hne, hhead, hfacet, hnext, hprev, hnextPrev, hprevNext, htail.symm⟩

/-- Turning left from a live halfedge leads to a live one that leaves the same vertex. -/
theorem turnLeft_of_check (hh : c.IsLive h) : c.IsLive (c.turnLeft h) ∧ c.tail (c.turnLeft h) = c.tail h := by
  obtain ⟨hprev, -, -, -, -, -, -, htail⟩ := checkLinks_eq_ok_iff.1 (checkLinks_of_check hc hh)
  exact ⟨hprev, (tail_opposite _).trans htail.symm⟩

/-- On links that pass the check, a live vertex stores a halfedge of its fan, or is isolated. -/
theorem vertexAgrees_of_check (hv : c.isLiveVertex v = true) : c.VertexAgrees v := by
  obtain ⟨hvertices, hhalfedges, -⟩ := parts_of_check hc
  obtain ⟨m, m', hvertex⟩ := hvertices v hv
  obtain ⟨hstored, hclosed⟩ := checkVertex_ok hvertex
  have hmet : ∀ g, c.IsLive g → c.tail g = v → g ∈ (c.fan v).path := by
    rintro g hg rfl
    exact (checkHalfedge_eq_ok_iff.1 (hhalfedges g hg)).2.2.1
  cases ho : c.outgoing v with
  | none =>
    have hfan : c.fan v = .nowhere := by
      unfold fan
      rw [ho]
    refine .isolated ho fun g hg hgv => ?_
    have hmem := hmet g hg hgv
    rw [hfan] at hmem
    cases hmem
  | some a =>
    obtain ⟨halive, hatail, hborder⟩ := checkOutgoing_eq_ok_iff.1 (hstored a ho)
    have hfan : c.fan v = c.walk c.turnLeft a := by
      unfold fan
      rw [ho]
    rw [hfan] at hclosed hmet hborder
    obtain ⟨r, hwalk, horbit⟩ := orbit_of_closed hclosed
    rw [hwalk] at hmet hborder
    -- The fan starts at a live halfedge that leaves the vertex, and turning left keeps that.
    have hleaves : ∀ g ∈ a :: r, c.IsLive g ∧ c.tail g = v := by
      refine horbit.forall_mem (p := fun g => c.IsLive g ∧ c.tail g = v) List.mem_cons_self ⟨halive, hatail⟩ ?_
      rintro g - ⟨hg, rfl⟩
      exact turnLeft_of_check hc hg
    refine .fan a r ho horbit (fun g => ⟨hleaves g, fun hg => hmet g hg.1 hg.2⟩) fun hf g hg hnone => ?_
    have hnot := Walk.forall_of_meets (hborder hf) g hg
    rw [(isBorder_iff g).2 hnone] at hnot
    cases hnot

/-- On links that pass the check, the ring of a live facet closes and has the facet. -/
theorem facetAgrees_of_check (hf : c.isLiveFacet f = true) : c.FacetAgrees f := by
  obtain ⟨hlive, hfacet, hclosed, hlen⟩ := checkFacet_eq_ok_iff.1 ((parts_of_check hc).2.2.2 f hf)
  obtain ⟨r, hring, horbit⟩ : ∃ r, c.ring f = ⟨c.start f :: r, true⟩ ∧ Orbit c.next (c.start f :: r) :=
    orbit_of_closed hclosed
  rw [hring] at hlen
  exact ⟨hlive, hfacet, r, horbit, hlen⟩

/-- Links that pass the check are consistent. -/
theorem consistent_of_check : c.Consistent where
  halfedge _ hh := halfedgeAgrees_of_check hc hh
  vertex _ hv := vertexAgrees_of_check hc hv
  loop _ hh n :=
    facetOf_iterate (fun hg => ⟨(halfedgeAgrees_of_check hc hg).next_live, facetOf_next_of_check hc hg⟩) hh n
  facet _ hf := facetAgrees_of_check hc hf

end Check

/-- The check accepts the consistent links and no others. -/
theorem check_eq_ok_iff : c.check = .ok () ↔ c.Consistent :=
  ⟨consistent_of_check, Consistent.check_eq_ok⟩

/-! ## Rings that hold all halfedges -/

variable (c)

/-- The halfedges of a facet form one loop. -/
def OneLoopEach : Prop := ∀ f g h, c.IsLive g → c.facetOf g = some f → c.IsLive h → c.facetOf h = some f →
  h ∈ (c.loop g).path

/-- The check accepts the links, and every halfedge of a facet is on its ring. -/
structure Accepted : Prop where
  /-- The check succeeds. -/
  check : c.check = .ok ()
  /-- A halfedge with a facet is on its ring. -/
  onRing : ∀ h f, c.IsLive h → c.facetOf h = some f → h ∈ (c.ring f).path

variable {c}

/-- Consistent links where the halfedges of every facet form one loop are in order. -/
theorem Consistent.wellFormed (hc : c.Consistent) (hone : c.OneLoopEach) : c.WellFormed where
  toLinked := hc.linked
  borderFirst hv := hc.borderFirst hv
  facet_live hh hf := (hc.halfedge _ hh).facet_live _ hf
  ring {f} hf := by
    obtain ⟨r, hring, horbit, hlen, hmem⟩ := hc.ring_eq hf
    obtain ⟨hstart, hfacet⟩ := hmem _ List.mem_cons_self
    refine ⟨c.start f :: r, horbit, rfl, hlen, fun h => ⟨hmem h, fun hh => ?_⟩⟩
    -- The facet has one loop, so `h` is on the loop of the halfedge that the facet stores.
    have hloop := hone f _ h hstart hfacet hh.1 hh.2
    rwa [← ring, hring] at hloop

/-- If all halfedges of a facet are on its ring, they form one loop, from whichever of them it is walked. -/
theorem Consistent.oneLoopEach (hc : c.Consistent)
    (honRing : ∀ h f, c.IsLive h → c.facetOf h = some f → h ∈ (c.ring f).path) : c.OneLoopEach := by
  intro f g h hg hgf hh hhf
  obtain ⟨r, hring, horbit, -, hmem⟩ := hc.ring_eq ((hc.halfedge g hg).facet_live f hgf)
  have hgring := honRing g f hg hgf
  have hhring := honRing h f hh hhf
  rw [hring] at hgring hhring
  -- The ring is an orbit, and walking from another of its halfedges turns it round without losing any.
  obtain ⟨r', horbit', hperm⟩ := horbit.from_mem hgring
  have hloop : c.loop g = ⟨g :: r', true⟩ :=
    walk_of_orbit horbit' fun a ha => (hmem a (hperm.mem_iff.1 ha)).1.slot_lt
  rw [hloop]
  exact hperm.mem_iff.2 hhring

/-- The links that are in order are those that the check accepts, with the halfedges of every facet on its ring. -/
theorem accepted_iff : c.Accepted ↔ c.WellFormed := by
  constructor
  · intro h
    have hconsistent := consistent_of_check h.check
    exact hconsistent.wellFormed (hconsistent.oneLoopEach h.onRing)
  · intro hc
    exact ⟨hc.check_eq_ok, fun h f hh hf => ((hc.ringOf (hc.facet_live hh hf)).mem h).2 ⟨hh, hf⟩⟩

end Connectivity

end RegionMesh
