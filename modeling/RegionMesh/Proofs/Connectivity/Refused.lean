import RegionMesh.Proofs.Connectivity.Added

/-!
# Facets that do not fit

Why a facet is refused, said of the halfedges alone (`Misfit`): a corner is enclosed by facets, a side has a facet
already, or two existing sides bound the same fan of a corner at which other fans hang. On links where every edge has a
facet and two vertices have one edge at most, a facet is refused exactly for one of these reasons
(`addFacet_refused_iff`).

The search for a gap finds the first halfedge on the border that turning right leads to (`search_eq_some_iff`). So it
finds the first side of a corner exactly if the two sides bound the same fan (`gapAfter_eq_some_iff`), and then the fans
between them have nowhere to go.
-/

namespace RegionMesh

namespace Connectivity

variable {c : Connectivity} {vs : List Vertex} {u v w : Vertex} {g h n p : Halfedge}

/-! ## Fans between two sides -/

/-- Turning right around a vertex from `n` on, past facets only, the first halfedge on the border that points to the
vertex is `p`. -/
def SameFan (c : Connectivity) (n p : Halfedge) : Prop :=
  c.facetOf p = none ∧ ∃ k, (c.turnRight^[k + 1] n).opposite = p ∧
    ∀ j ≤ k, c.facetOf (c.turnRight^[j] n).opposite ≠ none

/-- The search for a gap finds the first halfedge on the border among those that turning right leads to. -/
theorem search_eq_some_iff {fuel : ℕ} : gapAfter.search c fuel h.opposite = some g ↔
    ∃ k < fuel, (c.turnRight^[k + 1] h).opposite = g ∧ c.facetOf g = none ∧
      ∀ j < k, c.facetOf (c.turnRight^[j + 1] h).opposite ≠ none := by
  induction fuel generalizing h with
  | zero => simp [gapAfter.search]
  | succ fuel ih =>
    have hstep : (c.next h.opposite).opposite = (c.turnRight h).opposite := rfl
    rw [gapAfter.search, hstep]
    by_cases hb : c.isBorder (c.turnRight h).opposite = true
    · -- The first turn leads to the border, so nothing behind it is looked at.
      rw [if_pos hb]
      have hborder := (isBorder_iff _).1 hb
      constructor
      · intro hg
        obtain rfl := Option.some.inj hg
        exact ⟨0, Nat.succ_pos _, rfl, hborder, by simp⟩
      · rintro ⟨k, -, rfl, -, hall⟩
        cases k with
        | zero => rfl
        | succ k => exact absurd hborder (hall 0 (Nat.succ_pos k))
    · rw [if_neg hb, ih]
      have hfacet : c.facetOf (c.turnRight h).opposite ≠ none := fun hnone => hb ((isBorder_iff _).2 hnone)
      constructor
      · rintro ⟨k, hk, hg, hnone, hall⟩
        refine ⟨k + 1, Nat.succ_lt_succ hk, hg, hnone, fun j hj => ?_⟩
        cases j with
        | zero => exact hfacet
        | succ j => exact hall j (Nat.lt_of_succ_lt_succ hj)
      · rintro ⟨k, hk, rfl, hnone, hall⟩
        cases k with
        | zero => exact absurd hnone hfacet
        | succ k => exact ⟨k, Nat.lt_of_succ_lt_succ hk, rfl, hnone, fun j hj => hall (j + 1) (Nat.succ_lt_succ hj)⟩

/-- Where a gap is found and turning starts past a facet, it is the first side of a corner exactly if the sides bound
the same fan. -/
theorem gapAfter_eq_some_iff (hgap : c.gapAfter n.opposite = some g) (hf : c.facetOf n.opposite ≠ none) :
    g = p ↔ c.SameFan n p := by
  obtain ⟨k, -, rfl, hnone, hall⟩ := search_eq_some_iff.1 hgap
  constructor
  · rintro rfl
    refine ⟨hnone, k, rfl, fun j hj => ?_⟩
    cases j with
    | zero => exact hf
    | succ j => exact hall j hj
  · rintro ⟨hpnone, k', rfl, hall'⟩
    -- Neither of the two comes before the other one.
    rcases Nat.lt_trichotomy k k' with hlt | rfl | hlt
    · exact absurd hnone (hall' (k + 1) hlt)
    · rfl
    · exact absurd hpnone (hall k' hlt)

/-! ## Reasons to refuse a facet -/

/-- Why a facet along a list of vertices does not fit. -/
inductive Misfit (c : Connectivity) (vs : List Vertex) : Prop
  /-- Halfedges leave a corner, and all of them have facets. -/
  | enclosed {v : Vertex} {h : Halfedge} (corner : v ∈ vs) (live : c.IsLive h) (leaves : c.tail h = v)
    (faced : ∀ g, c.IsLive g → c.tail g = v → c.facetOf g ≠ none)
  /-- A side exists and has a facet. -/
  | taken {u v : Vertex} {h : Halfedge} (side : (u, v) ∈ cyclicPairs vs) (live : c.IsLive h)
    (ends : c.ends h = (u, v)) (faced : c.facetOf h ≠ none)
  /-- Two sides that meet in a corner exist on the border and bound the same fan, but do not follow each other. -/
  | shut {u v w : Vertex} {p n : Halfedge} (first : (u, v) ∈ cyclicPairs vs) (second : (v, w) ∈ cyclicPairs vs)
    (firstLive : c.IsLive p) (firstEnds : c.ends p = (u, v)) (firstBorder : c.facetOf p = none)
    (secondLive : c.IsLive n) (secondEnds : c.ends n = (v, w)) (secondBorder : c.facetOf n = none)
    (fan : c.SameFan n p) (apart : c.next p ≠ n)

namespace WellFormed

variable (hc : c.WellFormed) (hlive : ∀ v ∈ vs, c.isLiveVertex v = true)

include hc

/-- A vertex counts as on the border unless it is enclosed by facets. -/
theorem isBorderVertex_iff (hv : c.isLiveVertex v = true) : c.isBorderVertex v = true ↔
    ((∃ h, c.IsLive h ∧ c.tail h = v) → ∃ g, c.IsLive g ∧ c.tail g = v ∧ c.facetOf g = none) := by
  unfold isBorderVertex
  cases ho : c.outgoing v with
  | none =>
    refine iff_of_true rfl ?_
    rintro ⟨h, hh, hhv⟩
    exact absurd hhv (hc.isolated hv ho hh)
  -- A vertex on the border stores a halfedge on the border, so it is enough to look at that.
  | some a =>
    obtain ⟨ha, hav⟩ := hc.outgoing hv ho
    rw [isBorder_iff]
    constructor
    · exact fun hb _ => ⟨a, ha, hav, hb⟩
    · intro hex
      obtain ⟨g, hg, hgv, hgb⟩ := hex ⟨a, ha, hav⟩
      by_contra haf
      exact hc.borderFirst hv a ho haf g hg hgv hgb

/-- Where no two halfedges join the same vertices, the search for a side finds the one that does. -/
theorem find?_eq_some_of_ends (hunique : ∀ g h, c.IsLive g → c.IsLive h → c.ends g = c.ends h → g = h)
    (hu : c.isLiveVertex u = true) (hh : c.IsLive h) (hends : c.ends h = (u, v)) : c.find? u v = some h := by
  obtain ⟨htail, hhead⟩ := Prod.mk.inj hends
  cases hf : c.find? u v with
  | none => exact absurd hhead (hc.find?_eq_none hu hf hh htail)
  | some g =>
    obtain ⟨hg, hgtail, hghead⟩ := hc.find?_eq_some hu hf
    rw [hunique g h hg hh ((Prod.ext hgtail hghead).trans hends.symm)]

include hlive

/-- A facet that is added is no misfit. -/
theorem not_misfit (hunique : ∀ g h, c.IsLive g → c.IsLive h → c.ends g = c.ends h → g = h) (hn : vs.Nodup)
    {f : Facet} {c' : Connectivity} (hadd : Connectivity.addFacet vs c = (.ok f, c')) : ¬ c.Misfit vs := by
  obtain ⟨existing, moved, hsides, hmoved, -, -⟩ := addFacet_eq_ok.1 hadd
  obtain ⟨hlen, hall⟩ := zip_of_mapM hsides
  rw [length_cyclicPairs] at hlen
  -- The halfedges that join consecutive corners have been found, and are on the border.
  have hfound : ∀ {u v h}, (u, v) ∈ cyclicPairs vs → c.IsLive h → c.ends h = (u, v) →
      ((u, v), some h) ∈ (cyclicPairs vs).zip existing ∧ c.facetOf h = none := by
    intro u v h huv hh hends
    obtain ⟨o, hmem⟩ := exists_side_between hlen huv
    obtain ⟨-, hfind, hborder⟩ := borderSide_eq_ok.1 (hall _ hmem)
    rw [hc.find?_eq_some_of_ends hunique (hlive u (mem_of_mem_cyclicPairs huv).1) hh hends] at hfind
    subst hfind
    exact ⟨hmem, hborder h rfl⟩
  intro hmisfit
  cases hmisfit with
  | enclosed corner live leaves faced =>
    obtain ⟨w, hw⟩ := exists_successor corner
    obtain ⟨o, hmem⟩ := exists_side_between hlen hw
    have hborder := (borderSide_eq_ok.1 (hall _ hmem)).1
    obtain ⟨g, hg, hgv, hgb⟩ := (hc.isBorderVertex_iff (hlive _ corner)).1 hborder ⟨_, live, leaves⟩
    exact faced g hg hgv hgb
  | taken side live ends faced => exact faced (hfound side live ends).2
  | shut first second firstLive firstEnds firstBorder secondLive secondEnds secondBorder fan apart =>
    have hpair := mem_cyclicPairs_of_sides hn hlen (hfound first firstLive firstEnds).1
      (hfound second secondLive secondEnds).1
    obtain ⟨g, hgap, hne⟩ := (relinks_spec hmoved).2 _ _ hpair apart
    have hfacet := fan.2.choose_spec.2 0 (Nat.zero_le _)
    exact hne ((gapAfter_eq_some_iff hgap hfacet).2 fan)

/-- A facet that is no misfit is added. -/
theorem exists_addFacet (hfaced : ∀ h, c.IsLive h → c.facetOf h = none → c.facetOf h.opposite ≠ none)
    (hn : vs.Nodup) (hthree : 3 ≤ vs.length) (hfits : ¬ c.Misfit vs) :
    ∃ f c', Connectivity.addFacet vs c = (.ok f, c') := by
  -- If a side were refused, its vertex would be enclosed or the side taken.
  obtain ⟨existing, hsides⟩ : ∃ existing, (cyclicPairs vs).mapM c.borderSide = .ok existing := by
    refine exists_mapM ?_
    rintro ⟨u, v⟩ huv
    have hu := (mem_of_mem_cyclicPairs huv).1
    have hborder : c.isBorderVertex u = true := by
      rw [hc.isBorderVertex_iff (hlive u hu)]
      rintro ⟨h, hh, hhu⟩
      by_contra hnone
      exact hfits (.enclosed hu hh hhu fun g hg hgu hgb => hnone ⟨g, hg, hgu, hgb⟩)
    refine ⟨c.find? u v, borderSide_eq_ok.2 ⟨hborder, rfl, fun h hfind => ?_⟩⟩
    obtain ⟨hh, htail, hhead⟩ := hc.find?_eq_some (hlive u hu) hfind
    by_contra hfacet
    exact hfits (.taken huv hh (Prod.ext htail hhead) hfacet)
  -- If the fans at a corner could not be moved, it would be shut.
  obtain ⟨moved, hmoved⟩ : ∃ moved, c.relinks existing = .ok moved := by
    refine exists_relinks fun p n hpn hne => ?_
    obtain ⟨hin, hout, htail, hp, hnlive, hpb, hnb⟩ := corner_of_existing hc.toLinked hlive hsides hpn
    obtain ⟨k, y, m, -, -, hgap⟩ := exists_gap_behind hc.toLinked hp hnlive htail
      (head_ne_of_sides hn hthree hin hout) hpb
    refine ⟨_, hgap, fun hy => ?_⟩
    have hfan := (gapAfter_eq_some_iff hgap (hfaced n hnlive hnb)).1 hy
    exact hfits (.shut hin hout hp rfl hpb hnlive (Prod.ext htail rfl) hnb hfan hne)
  exact ⟨_, _, addFacet_eq_ok.2 ⟨existing, moved, hsides, hmoved, by omega, rfl⟩⟩

end WellFormed

/-- Where the check accepts the links, the rings hold all halfedges of their facets, every edge has a facet, and two
vertices have one edge at most, an attempt to add a facet ends, and it is refused exactly if the facet does not fit. -/
theorem addFacet_refused_iff (hc : c.Accepted)
    (hfaced : ∀ h, c.IsLive h → c.facetOf h = none → c.facetOf h.opposite ≠ none)
    (hsingle : ∀ g h, c.IsLive g → c.IsLive h → (c.ends g = c.ends h ∨ c.ends g = (c.ends h).swap) → g.edge = h.edge)
    (hlive : ∀ v ∈ vs, c.isLiveVertex v = true) (hn : vs.Nodup) (hthree : 3 ≤ vs.length) :
    c.AttemptEnds vs ∧ ((∃ e c', Connectivity.addFacet vs c = (.error e, c')) ↔ c.Misfit vs) := by
  have hwell := accepted_iff.1 hc
  have hunique : ∀ g h, c.IsLive g → c.IsLive h → c.ends g = c.ends h → g = h := by
    intro g h hg hh hends
    refine (Halfedge.eq_or_eq_opposite (hsingle g h hg hh (Or.inl hends))).resolve_right ?_
    rintro rfl
    -- A halfedge that joined the same vertices as its opposite would lead back to where it starts.
    exact hwell.head_ne_tail hh ((tail_opposite h).symm.trans (congrArg Prod.fst hends))
  refine ⟨hwell.attemptEnds hlive hn hthree, ?_⟩
  constructor
  · rintro ⟨e, c', herror⟩
    by_contra hfits
    obtain ⟨f, c'', hok⟩ := hwell.exists_addFacet hlive hfaced hn hthree hfits
    rw [herror] at hok
    simp at hok
  · intro hmisfit
    rcases hadd : Connectivity.addFacet vs c with ⟨e | f, c'⟩
    · exact ⟨e, c', rfl⟩
    · exact absurd hmisfit (hwell.not_misfit hlive hunique hn hadd)

/-- The gap between the first triangle's two sides at the vertex in which three triangles meet is no place for a fourth
one, as it would shut the other two in. -/
theorem addFacet_refused_pinwheel :
    let vs := [1, 0, 2].map Vertex.mk
    pinwheel.Accepted ∧
      (∀ h, pinwheel.IsLive h → pinwheel.facetOf h = none → pinwheel.facetOf h.opposite ≠ none) ∧
      (∀ g h, pinwheel.IsLive g → pinwheel.IsLive h →
        (pinwheel.ends g = pinwheel.ends h ∨ pinwheel.ends g = (pinwheel.ends h).swap) → g.edge = h.edge) ∧
      (∀ v ∈ vs, pinwheel.isLiveVertex v = true) ∧ vs.Nodup ∧ 3 ≤ vs.length ∧
      (∃ e c', Connectivity.addFacet vs pinwheel = (.error e, c')) ∧ pinwheel.Misfit vs := by
  -- The halfedges are finitely many, so what is said of all of them is evaluated on their list.
  have hfaced : ∀ h, pinwheel.IsLive h → pinwheel.facetOf h = none → pinwheel.facetOf h.opposite ≠ none := by
    have hall : ∀ h ∈ pinwheel.liveHalfedges, pinwheel.facetOf h = none → pinwheel.facetOf h.opposite ≠ none := by
      decide +kernel
    exact fun h hh => hall h (mem_liveHalfedges.2 hh)
  have hsingle : ∀ g h, pinwheel.IsLive g → pinwheel.IsLive h →
      (pinwheel.ends g = pinwheel.ends h ∨ pinwheel.ends g = (pinwheel.ends h).swap) → g.edge = h.edge := by
    have hall : ∀ g ∈ pinwheel.liveHalfedges, ∀ h ∈ pinwheel.liveHalfedges,
        (pinwheel.ends g = pinwheel.ends h ∨ pinwheel.ends g = (pinwheel.ends h).swap) → g.edge = h.edge := by
      decide +kernel
    exact fun g h hg hh => hall g (mem_liveHalfedges.2 hg) h (mem_liveHalfedges.2 hh)
  have hlive : ∀ v ∈ [1, 0, 2].map Vertex.mk, pinwheel.isLiveVertex v = true := by decide +kernel
  have haccepted := accepted_iff.2 wellFormed_pinwheel
  have hiff := (addFacet_refused_iff haccepted hfaced hsingle hlive (by decide) (by decide)).2
  have herror : (Connectivity.addFacet ([1, 0, 2].map Vertex.mk) pinwheel).1.isOk = false := by decide +kernel
  have hrefused : ∃ e c', Connectivity.addFacet ([1, 0, 2].map Vertex.mk) pinwheel = (.error e, c') := by
    rcases hadd : Connectivity.addFacet ([1, 0, 2].map Vertex.mk) pinwheel with ⟨e | f, c'⟩
    · exact ⟨e, c', rfl⟩
    · rw [hadd] at herror
      cases herror
  exact ⟨haccepted, hfaced, hsingle, hlive, by decide, by decide, hrefused, hiff.1 hrefused⟩

end Connectivity

end RegionMesh
