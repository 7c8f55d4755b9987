import RegionMesh.Proofs.Connectivity.Parts

/-!
# Rings of links that pass the check

What a check that succeeds says about facets and their halfedges. The pass over the halfedges has seen that the facet
of each is live (`facet_live_of_check`). Of the two passes over the loops the first leaves every live halfedge marked,
so the second takes every mark away, and only along loops that close and belong to one facet: the next halfedge has the
same facet (`facetOf_next_of_check`). A facet starts at a halfedge of its own, so its ring holds nothing but
halfedges of its own (`ring_of_check`).

The rings of links that pass the check need not hold all halfedges of their facets.
-/

namespace RegionMesh

namespace Connectivity

variable {c : Connectivity} {f : Facet} {h : Halfedge}

/-- A pass over a loop marks the halfedge that it is about and takes no mark away, and where it sets a new mark, the
next halfedge has the same facet. -/
theorem checkLoop_ok {marked : Bool} {m m' : Marks} (hok : c.checkLoop marked m h = .ok m') :
    m'.contains h = marked ∧ ∀ g, (m.contains g = marked → m'.contains g = marked) ∧
      (m'.contains g = marked → m.contains g = marked ∨ c.facetOf (c.next g) = c.facetOf g) := by
  unfold checkLoop at hok
  split at hok
  · rename_i hmark
    obtain rfl := Except.ok.inj hok
    exact ⟨hmark, fun g => ⟨id, Or.inl⟩⟩
  · obtain ⟨hclosed, haccept, hset⟩ := markAlong_ok hok
    obtain ⟨r, hloop, horbit⟩ : ∃ r, c.loop h = ⟨h :: r, true⟩ ∧ Orbit c.next (h :: r) :=
      orbit_of_closed hclosed
    rw [hloop] at haccept hset
    -- The pass accepts only halfedges with the facet of the one that it starts from.
    have hsame : ∀ g ∈ h :: r, c.facetOf g = c.facetOf h := by
      intro g hg
      have hg' := haccept g hg
      by_contra hne
      rw [if_neg hne] at hg'
      cases hg'
    refine ⟨by rw [hset, if_pos List.mem_cons_self], fun g => ⟨fun hg => ?_, fun hg => ?_⟩⟩
    · rw [hset, hg, ite_self]
    · rw [hset] at hg
      split at hg
      · rename_i hmem
        right
        exact (hsame _ (horbit.step_mem hmem)).trans (hsame g hmem).symm
      · exact Or.inl hg

/-- A pass over the loops of some halfedges marks them all, and where it sets a new mark, the next halfedge has the same
facet. -/
theorem checkLoops_ok {marked : Bool} {l : List Halfedge} {m m' : Marks}
    (hok : l.foldlM (c.checkLoop marked) m = .ok m') :
    (∀ g ∈ l, m'.contains g = marked) ∧ ∀ g, (m.contains g = marked → m'.contains g = marked) ∧
      (m'.contains g = marked → m.contains g = marked ∨ c.facetOf (c.next g) = c.facetOf g) := by
  induction l generalizing m with
  | nil =>
    obtain rfl : m = m' := Except.ok.inj hok
    exact ⟨by simp, fun g => ⟨id, Or.inl⟩⟩
  | cons h rest ih =>
    rw [List.foldlM_cons, bind_eq_ok] at hok
    obtain ⟨m₁, hloop, hrest⟩ := hok
    obtain ⟨hmark, hstep⟩ := checkLoop_ok hloop
    obtain ⟨hall, hsteps⟩ := ih hrest
    -- Marks stay, so the first loop is still marked when the others are.
    refine ⟨List.forall_mem_cons.2 ⟨(hsteps h).1 hmark, hall⟩, fun g => ⟨fun hg => ?_, fun hg => ?_⟩⟩
    · exact (hsteps g).1 ((hstep g).1 hg)
    · rcases (hsteps g).2 hg with hg | hg
      · exact (hstep g).2 hg
      · exact Or.inr hg

section Check

variable (hc : c.check = .ok ())

include hc

/-- The links of a live halfedge pass their check. -/
theorem checkLinks_of_check (hh : c.IsLive h) : c.checkLinks h = .ok () :=
  (checkHalfedge_eq_ok_iff.1 ((parts_of_check hc).2.1 h hh)).2.1

/-- The vertex to which a live halfedge points is live. -/
theorem head_live_of_check (hh : c.IsLive h) : c.isLiveVertex (c.head h) = true :=
  (checkLinks_eq_ok_iff.1 (checkLinks_of_check hc hh)).2.2.1

/-- The facet of a live halfedge is live. -/
theorem facet_live_of_check (hh : c.IsLive h) (hf : c.facetOf h = some f) : c.isLiveFacet f = true :=
  (checkLinks_eq_ok_iff.1 (checkLinks_of_check hc hh)).2.2.2.1 f hf

/-- The next halfedge has the same facet. -/
theorem facetOf_next_of_check (hh : c.IsLive h) : c.facetOf (c.next h) = c.facetOf h := by
  obtain ⟨-, -, ⟨m₁, m₂, m₃, hset, htaken⟩, -⟩ := parts_of_check hc
  have hmem := mem_liveHalfedges.2 hh
  have hmarked := (checkLoops_ok hset).1 h hmem
  obtain ⟨hcleared, hsame⟩ := checkLoops_ok htaken
  -- The second pass meets no mark that the first one has not set.
  rcases (hsame h).2 (hcleared h hmem) with hunmarked | hsame
  · rw [hmarked] at hunmarked
    cases hunmarked
  · exact hsame

/-- The ring of a live facet holds live halfedges of this facet alone. -/
theorem ring_of_check (hf : c.isLiveFacet f = true) :
    ∀ h ∈ (c.ring f).path, c.IsLive h ∧ c.facetOf h = some f := by
  obtain ⟨hlive, hfacet, -⟩ := checkFacet_eq_ok_iff.1 ((parts_of_check hc).2.2.2 f hf)
  refine Walk.forall_mem_follow (p := fun h => c.IsLive h ∧ c.facetOf h = some f) ⟨hlive, hfacet⟩ ?_
  rintro g ⟨hg, hgf⟩
  have hlinks := checkLinks_eq_ok_iff.1 (checkLinks_of_check hc hg)
  exact ⟨hlinks.2.1, (facetOf_next_of_check hc hg).trans hgf⟩

end Check

end Connectivity

end RegionMesh
