import RegionMesh.Proofs.Connectivity.Consistent
import RegionMesh.Proofs.Connectivity.Parts

/-!
# Links that pass the check

Consistent links pass every part of the check (`Consistent.check_eq_ok`), and so do links that are in order
(`WellFormed.check_eq_ok`). The marks of the pass over the vertices are taken away again at each vertex. In the
passes over the loops the marked halfedges are closed under taking the next one, so a loop is marked as a whole or
not at all.
-/

namespace RegionMesh

namespace Connectivity

variable {c : Connectivity}

/-! ## The vertices, halfedges and facets -/

namespace Consistent

variable {v : Vertex} {h : Halfedge} {f : Facet}

/-- On consistent links the halfedge that a vertex stores passes the check. -/
theorem checkOutgoing_eq_ok (hc : c.Consistent) (hv : c.isLiveVertex v = true) (ho : c.outgoing v = some h) :
    c.checkOutgoing v h = .ok () := by
  obtain ⟨hlive, htail⟩ := hc.linked.outgoing hv ho
  obtain ⟨hclosed, -, hmem⟩ := hc.linked.fan_spec hv
  refine checkOutgoing_eq_ok_iff.2 ⟨hlive, htail, fun hf => Walk.meets_of_forall hclosed fun g hg => ?_⟩
  obtain ⟨hglive, hgtail⟩ := (hmem g).1 hg
  rw [Bool.eq_false_iff]
  exact fun hgb => hc.borderFirst hv h ho hf g hglive hgtail ((isBorder_iff g).1 hgb)

/-- At every vertex the marks are set and taken away again. -/
theorem checkVertex_eq_ok (hc : c.Consistent) (hv : c.isLiveVertex v = true) {m : Marks}
    (hm : ∀ h, m.contains h = false) :
    ∃ m', c.checkVertex m v = .ok m' ∧ ∀ h, m'.contains h = false := by
  obtain ⟨hclosed, hnodup, -⟩ := hc.linked.fan_spec hv
  obtain ⟨hclosed', hperm⟩ := hc.linked.fanRight_spec hv
  have hfree : ∀ h ∈ (c.fan v).path, m.contains h ≠ true := fun h _ => by rw [hm h]; simp
  have haccept : ∀ h : Halfedge, (fun _ => .ok () : Halfedge → Except LinkFault Unit) h = .ok () :=
    fun _ => rfl
  -- The marks that are set on the way left are taken away on the way right, which meets the same halfedges.
  obtain ⟨m₁, hm₁, hset⟩ := markAlong_eq_ok true hclosed hnodup hfree fun h _ => haccept h
  have hmarked : ∀ h ∈ (c.fanRight v).path, m₁.contains h ≠ false := fun h hh => by
    rw [hset, if_pos (hperm.mem_iff.1 hh)]
    simp
  obtain ⟨m₂, hm₂, hcleared⟩ := markAlong_eq_ok false hclosed' (hperm.nodup_iff.2 hnodup) hmarked
    fun h _ => haccept h
  refine ⟨m₂, ?_, fun h => ?_⟩
  · unfold checkVertex
    cases ho : c.outgoing v with
    | none => exact bind_eq_ok.2 ⟨m₁, hm₁ _, hm₂ _⟩
    | some h =>
      rw [bind_eq_ok]
      exact ⟨(), hc.checkOutgoing_eq_ok hv ho, bind_eq_ok.2 ⟨m₁, hm₁ _, hm₂ _⟩⟩
  · rw [hcleared, hset, hm]
    by_cases hh : h ∈ (c.fanRight v).path
    · rw [if_pos hh]
    · rw [if_neg hh, if_neg fun hin => hh (hperm.mem_iff.2 hin)]

/-- On consistent links every live halfedge passes the check. -/
theorem checkHalfedge_eq_ok (hc : c.Consistent) (hh : c.IsLive h) : c.checkHalfedge h = .ok () := by
  have hagrees := hc.halfedge h hh
  obtain ⟨-, htail, -⟩ := hc.linked.prev_live hh
  -- The walks around its two ends list all halfedges there, so both meet it.
  have hfan : h ∈ (c.fan (c.tail h)).path := ((hc.linked.fan_spec (hc.linked.tail_live hh)).2.2 h).2 ⟨hh, rfl⟩
  have hfanIn : h ∈ (c.fanIn (c.head h)).path := by
    have hmem := ((hc.linked.fan_spec hagrees.head_live).2.2 h.opposite).2 ⟨hh, tail_opposite h⟩
    exact List.mem_map.2 ⟨h.opposite, hmem, Halfedge.opposite_opposite h⟩
  refine checkHalfedge_eq_ok_iff.2 ⟨hagrees.tail_ne_head, checkLinks_eq_ok_iff.2 ?_, hfan, hfanIn⟩
  exact ⟨hagrees.prev_live, hagrees.next_live, hagrees.head_live, hagrees.facet_live, hagrees.next_prev,
    hagrees.prev_next, hagrees.tail_next.symm, htail.symm⟩

/-- On consistent links every live facet passes the check. -/
theorem checkFacet_eq_ok (hc : c.Consistent) (hf : c.isLiveFacet f = true) : c.checkFacet f = .ok () := by
  obtain ⟨hstart, hfacet, -⟩ := hc.facet f hf
  obtain ⟨r, hring, -, hlen, -⟩ := hc.ring_eq hf
  exact checkFacet_eq_ok_iff.2 ⟨hstart, hfacet, by rw [hring], by rw [hring]; exact hlen⟩

end Consistent

/-! ## The loops -/

namespace WellFormed

/-- The halfedges with a mark are closed under taking the next one. -/
def Closed (c : Connectivity) (marked : Bool) (m : Marks) : Prop :=
  ∀ g, c.IsLive g → m.contains g = marked → m.contains (c.next g) = marked

/-- All halfedges of a loop have the mark if one of them has it. -/
theorem Closed.loop {marked : Bool} {m : Marks} (hm : Closed c marked m)
    {l : List Halfedge} (hl : Orbit c.next l) (hlive : ∀ g ∈ l, c.IsLive g) {a : Halfedge} (ha : a ∈ l)
    (hmark : m.contains a = marked) : ∀ g ∈ l, m.contains g = marked :=
  hl.forall_mem (p := fun g => m.contains g = marked) ha hmark fun g hg => hm g (hlive g hg)

/-- The halfedges without the mark are closed under taking the next one as well. -/
theorem Closed.not (hc : c.Linked) {marked : Bool} {m : Marks} (hm : Closed c marked m) :
    Closed c (!marked) m := by
  intro g hg hmark
  obtain ⟨r, hr, hmem⟩ := hc.loop_orbit hg
  rw [Bool.eq_not] at hmark ⊢
  intro hnext
  have hin : c.next g ∈ g :: r := hr.step_mem List.mem_cons_self
  exact hmark (hm.loop hr (fun a ha => (hmem a ha).1) hin hnext g List.mem_cons_self)

end WellFormed

/-- A pass over one loop marks it as a whole. -/
theorem Linked.checkLoop_eq_ok (hc : c.Linked) {h : Halfedge} (hh : c.IsLive h) {marked : Bool} {m : Marks}
    (hm : WellFormed.Closed c marked m) :
    ∃ m', c.checkLoop marked m h = .ok m' ∧ WellFormed.Closed c marked m' := by
  obtain ⟨r, hloop, horbit, hmem⟩ := hc.loop_spec hh
  have hlive : ∀ g ∈ h :: r, c.IsLive g := fun g hg => (hmem g hg).1
  unfold checkLoop
  by_cases hmark : m.contains h = marked
  · exact ⟨m, if_pos hmark, hm⟩
  · -- A loop that is not marked as a whole has no mark at all.
    have hnone : ∀ g ∈ (c.loop h).path, m.contains g ≠ marked := by
      rw [hloop]
      intro g hg hgm
      exact hmark (hm.loop horbit hlive hg hgm h List.mem_cons_self)
    have hpath : (c.loop h).path = h :: r := by rw [hloop]
    have hclosed : (c.loop h).closed = true := by rw [hloop]
    have hnodup : (c.loop h).path.Nodup := by rw [hpath]; exact horbit.nodup
    have haccept : ∀ g ∈ (c.loop h).path, (if c.facetOf g = c.facetOf h then .ok ()
        else .error (.inconsistentFacetInLoop g) : Except LinkFault Unit) = .ok () := by
      rw [hpath]
      exact fun g hg => if_pos (hmem g hg).2
    obtain ⟨m', hok, hset⟩ := markAlong_eq_ok marked hclosed hnodup hnone haccept
    refine ⟨m', ?_, fun g hg hgm => ?_⟩
    · rw [if_neg hmark]
      exact hok _
    · rw [hset, hpath] at hgm ⊢
      by_cases hgr : g ∈ h :: r
      · rw [if_pos (horbit.step_mem hgr)]
      · rw [if_neg hgr] at hgm
        have hnext := hm g hg hgm
        split
        · rfl
        · exact hnext

/-- Consistent links pass the check. -/
theorem Consistent.check_eq_ok (hc : c.Consistent) : c.check = .ok () := by
  obtain ⟨m₁, hvertices, hm₁⟩ := exists_foldlM (f := c.checkVertex) (l := c.liveVertices)
    (p := fun m => ∀ h, m.contains h = false) (fun m v hv hm =>
      hc.checkVertex_eq_ok (mem_liveVertices.1 hv) hm) (s := {}) (by
        intro h
        simp [Marks.contains])
  have hhalfedges : c.liveHalfedges.forM c.checkHalfedge = .ok () :=
    forM_eq_ok.2 fun h hh => hc.checkHalfedge_eq_ok (mem_liveHalfedges.1 hh)
  -- The first pass over the loops starts without marks, and the second one where the first one has ended.
  obtain ⟨m₂, hloops, hm₂⟩ := exists_foldlM (f := c.checkLoop true) (l := c.liveHalfedges)
    (p := WellFormed.Closed c true) (fun m h hh hm => hc.linked.checkLoop_eq_ok (mem_liveHalfedges.1 hh) hm)
    (s := m₁) (fun g _ hg => by simp [hm₁] at hg)
  obtain ⟨m₃, hloops', -⟩ := exists_foldlM (f := c.checkLoop false) (l := c.liveHalfedges)
    (p := WellFormed.Closed c false) (fun m h hh hm => hc.linked.checkLoop_eq_ok (mem_liveHalfedges.1 hh) hm)
    (s := m₂) (hm₂.not hc.linked)
  have hfacets : c.liveFacets.forM c.checkFacet = .ok () :=
    forM_eq_ok.2 fun f hf => hc.checkFacet_eq_ok (mem_liveFacets.1 hf)
  unfold check
  rw [bind_eq_ok]
  refine ⟨m₁, hvertices, bind_eq_ok.2 ⟨(), hhalfedges, bind_eq_ok.2 ⟨m₂, hloops, ?_⟩⟩⟩
  exact bind_eq_ok.2 ⟨m₃, hloops', hfacets⟩

/-- Links that are in order pass the check. -/
theorem WellFormed.check_eq_ok (hc : c.WellFormed) : c.check = .ok () := hc.consistent.check_eq_ok

end Connectivity

end RegionMesh
