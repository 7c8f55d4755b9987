import RegionMesh.Connectivity.Attach
import RegionMesh.Proofs.Connectivity.WellFormed

/-!
# The corners of a new facet

What happens at one corner of a facet that is attached, where its side `p` ends and its side `n` starts. Either
side may exist already or be brought by the facet, and the links that are set at the corner (`cornerLinks`)
depend on it. In all cases they turn the orbit of the halfedges that leave the corner into an orbit of these
and of the new ones (`CornerFits.rewires`): new halfedges are put in behind one that stays, and where two existing
sides do not follow each other, the fans between them change places.
-/

namespace RegionMesh

namespace Connectivity

variable (c : Connectivity)

/-- The links that bring two existing sides together. -/
def movedLinks (p n : Halfedge) : List (Halfedge × Halfedge) :=
  if c.next p = n then []
  else
    match c.gapAfter n.opposite with
    | some gap => [(gap, c.next p), (c.prev n, c.next gap), (p, n)]
    | none => []

/-- All links that are set at a corner. -/
def cornerLinks (v : Vertex) (p n : RingSide) : List (Halfedge × Halfedge) :=
  (if p.fresh || n.fresh then [] else c.movedLinks p.inner n.inner) ++ (c.cornerChange v p n).links

/-- The new halfedges that leave a corner. -/
def freshAt (p n : RingSide) : List Halfedge :=
  (if p.fresh then [p.outer] else []) ++ if n.fresh then [n.inner] else []

/-- Two sides of a facet fit together at a vertex. -/
structure CornerFits (v : Vertex) (p n : RingSide) : Prop where
  /-- The vertex is live. -/
  live : c.isLiveVertex v = true
  /-- The vertex is not enclosed by facets. -/
  border : c.isBorderVertex v = true
  /-- An existing first side points to the vertex and is on the border. -/
  incoming : p.fresh = false → c.IsLive p.inner ∧ c.head p.inner = v ∧ c.facetOf p.inner = none
  /-- An existing second side leaves the vertex and is on the border. -/
  leaving : n.fresh = false → c.IsLive n.inner ∧ c.tail n.inner = v ∧ c.facetOf n.inner = none
  /-- A new first side is behind the storage. -/
  incoming_fresh : p.fresh = true → c.edges.size ≤ p.inner.edge.slot
  /-- A new second side is behind the storage. -/
  leaving_fresh : n.fresh = true → c.edges.size ≤ n.inner.edge.slot
  /-- The sides belong to different edges. -/
  apart : p.inner.edge ≠ n.inner.edge
  /-- The fans between two existing sides can be moved. -/
  gap : p.fresh = false → n.fresh = false → c.next p.inner ≠ n.inner →
    ∃ g, c.gapAfter n.inner.opposite = some g ∧ g ≠ p.inner

/-- Links that are set at a corner, and what becomes of the halfedges that leave it. -/
structure Rewires (v : Vertex) (p n : RingSide) (links : List (Halfedge × Halfedge)) : Prop where
  /-- No halfedge gets two next ones. -/
  fst_nodup : (links.map Prod.fst).Nodup
  /-- No halfedge gets two previous ones. -/
  snd_nodup : (links.map Prod.snd).Nodup
  /-- All links are from halfedges that point to the vertex to halfedges that leave it. -/
  ends : ∀ x ∈ links, ((c.IsLive x.1 ∧ c.head x.1 = v) ∨ x.1.opposite ∈ freshAt p n) ∧
    ((c.IsLive x.2 ∧ c.tail x.2 = v) ∨ x.2 ∈ freshAt p n)
  /-- Apart from the link inside the facet, the border is linked. -/
  border : ∀ x ∈ links, x = (p.inner, n.inner) ∨ (c.facetOf x.1 = none ∧ c.facetOf x.2 = none)
  /-- Inside the facet the second side follows the first one. -/
  turn : (p.inner, n.inner) ∈ links ∨ (links = [] ∧ freshAt p n = [] ∧ c.next p.inner = n.inner)
  /-- The new halfedges are linked. -/
  fresh : ∀ g ∈ freshAt p n, g.opposite ∈ links.map Prod.fst
  /-- With the new links the old and the new halfedges form an orbit. -/
  fan : ∀ l, c.FanAt v l → ∀ turn : Halfedge → Halfedge, (∀ x ∈ links, turn x.1.opposite = x.2) →
    (∀ g ∈ l, g.opposite ∉ links.map Prod.fst → turn g = c.turnRight g) →
    ∃ l', Orbit turn l' ∧ ∀ g, g ∈ l' ↔ g ∈ l ∨ g ∈ freshAt p n

variable {c} {v : Vertex} {p n : RingSide}

/-! ## The search for the next gap -/

/-- The search for a gap finds the first halfedge on the border that points to the vertex. -/
theorem search_eq {a y : Halfedge} {k : List Halfedge} {fuel : ℕ}
    (h : Leads c.turnRight (a :: k) y) (hk : ∀ x ∈ k, c.facetOf x.opposite ≠ none)
    (hy : c.facetOf y.opposite = none) (hf : k.length < fuel) :
    gapAfter.search c fuel a.opposite = some y.opposite := by
  -- The search turns past the halfedges of `k` one by one, which are not on the border, and stops at `y`.
  induction k generalizing a fuel with
  | nil =>
    obtain ⟨m, rfl⟩ : ∃ m, fuel = m + 1 := ⟨fuel - 1, by simp at hf; omega⟩
    have ha : c.next a.opposite = y := h.1
    rw [gapAfter.search, ha, if_pos ((isBorder_iff _).2 hy)]
  | cons x k ih =>
    obtain ⟨m, rfl⟩ : ∃ m, fuel = m + 1 := ⟨fuel - 1, by simp at hf; omega⟩
    have ha : c.next a.opposite = x := h.1
    have hx : ¬ c.isBorder x.opposite = true := fun hb => hk x (by simp) ((isBorder_iff _).1 hb)
    rw [gapAfter.search, ha, if_neg hx]
    exact ih h.2 (fun z hz => hk z (List.mem_cons_of_mem x hz)) (by simp at hf; omega)

/-- From a halfedge that leaves a vertex with a further halfedge on the border that points to it, the search
for a gap finds the first one of these. -/
theorem exists_gapAfter {a q : Halfedge} {r : List Halfedge} (hl : c.FanAt v (a :: r)) (hq : q ∈ r)
    (hb : c.facetOf q.opposite = none) :
    ∃ k y m, r = k ++ y :: m ∧ (∀ x ∈ k, c.facetOf x.opposite ≠ none) ∧
      c.facetOf y.opposite = none ∧ c.gapAfter a.opposite = some y.opposite := by
  obtain ⟨y, hy⟩ : ∃ y, r.find? (fun x => c.isBorder x.opposite) = some y := by
    have hsome : (r.find? fun x => c.isBorder x.opposite).isSome := by
      rw [List.find?_isSome]
      exact ⟨q, hq, (isBorder_iff _).2 hb⟩
    exact Option.isSome_iff_exists.1 hsome
  obtain ⟨hyb, k, m, rfl, hk⟩ := List.find?_eq_some_iff_append.1 hy
  have hk' : ∀ x ∈ k, c.facetOf x.opposite ≠ none := by
    intro x hx hxb
    simpa [(isBorder_iff _).2 hxb] using hk x hx
  refine ⟨k, y, m, rfl, hk', (isBorder_iff _).1 hyb, ?_⟩
  -- A fan has no more halfedges than there are, so the search does not run out of steps.
  have hlen := length_le_halfedgeCount hl.orbit.nodup fun g hg => ((hl.mem g).1 hg).1.slot_lt
  refine search_eq hl.orbit.leads_to hk' ((isBorder_iff _).1 hyb) ?_
  simp only [List.length_cons, List.length_append] at hlen
  omega

/-! ## The four kinds of corners -/

/-- New halfedges are not among those that left the vertex. -/
theorem FanAt.notMem_of_size_le {l : List Halfedge} (hl : c.FanAt v l) {g : Halfedge}
    (hg : c.edges.size ≤ g.edge.slot) : g ∉ l := by
  intro hmem
  have hlt := ((hl.mem g).1 hmem).1.slot_lt
  omega

/-- A live halfedge is not one that is yet to be stored. -/
theorem IsLive.ne_of_size_le {g h : Halfedge} (hg : c.IsLive g) (hh : c.edges.size ≤ h.edge.slot) :
    g ≠ h := by
  rintro rfl
  have hlt := hg.slot_lt
  omega

/-- What a new link says of the turn around the vertex: the opposite of its first halfedge turns to the second one. -/
theorem turn_of_link {links : List (Halfedge × Halfedge)} {turn : Halfedge → Halfedge} {g h : Halfedge}
    (hon : ∀ x ∈ links, turn x.1.opposite = x.2) (hlink : (g.opposite, h) ∈ links) : turn g = h := by
  have hturn := hon (g.opposite, h) hlink
  rwa [Halfedge.opposite_opposite] at hturn

namespace CornerFits

/-- The outer halfedge of the first side is not the inner one of the second side. -/
theorem outer_ne (hf : c.CornerFits v p n) : p.outer ≠ n.inner := by
  intro he
  exact hf.apart (by rw [← he, RingSide.outer, Halfedge.edge_opposite])

/-- The outer halfedge of the second side is not the inner one of the first side. -/
theorem ne_outer (hf : c.CornerFits v p n) : n.outer ≠ p.inner := by
  intro he
  exact hf.apart (by rw [← he, RingSide.outer, Halfedge.edge_opposite])

/-- The halfedge that the vertex of a corner stores is on the border. -/
theorem facetOf_outgoing (hf : c.CornerFits v p n) {h : Halfedge} (ho : c.outgoing v = some h) :
    c.facetOf h = none := by
  have hb := hf.border
  unfold isBorderVertex at hb
  rw [ho] at hb
  exact (isBorder_iff h).1 hb

/-- A new first side that meets an existing one is put in between the halfedges that were linked there. -/
theorem rewires_fresh_old (hc : c.Linked) (hf : c.CornerFits v p n) (hp : p.fresh = true)
    (hn : n.fresh = false) : c.Rewires v p n (c.cornerLinks v p n) := by
  obtain ⟨hlive, htail, hborder⟩ := hf.leaving hn
  obtain ⟨hprev, hhead, hnext⟩ := hc.prev_live hlive
  have hsize : c.edges.size ≤ p.outer.edge.slot := hf.incoming_fresh hp
  have hlinks : c.cornerLinks v p n = [(c.prev n.inner, p.outer), (p.inner, n.inner)] := by
    simp [cornerLinks, cornerChange, hp, hn]
  have hfresh : freshAt p n = [p.outer] := by simp [freshAt, hp, hn]
  have hfst : c.prev n.inner ≠ p.inner := hprev.ne_of_size_le hsize
  have hsnd : n.inner ≠ p.outer := hlive.ne_of_size_le hsize
  rw [hlinks]
  exact {
    fst_nodup := by simpa using hfst
    snd_nodup := by simpa using hsnd.symm
    ends := by simp [hfresh, RingSide.outer, hprev, hlive, hhead, htail]
    border := by
      have hfacet : c.facetOf (c.prev n.inner) = none := (hc.facet_prev hlive).trans hborder
      simp [hfacet, facetOf_of_size_le hsize]
    turn := by simp
    fresh := by simp [hfresh, RingSide.outer]
    fan := by
      intro l hl turn hon hoff
      -- The new halfedge comes in behind the one that leads to the second side.
      have hy : (c.prev n.inner).opposite ∈ l := (hl.mem _).2 ⟨hprev, by rw [tail_opposite, hhead, htail]⟩
      have hmem : p.outer ∉ l := hl.notMem_of_size_le hsize
      rw [hfresh]
      refine hl.orbit.exists_insert hy ?_ ?_ (by simp) (by simpa using hmem)
      · intro g hg hgy
        refine hoff g hg ?_
        have hgp : g.opposite ≠ p.inner := by
          intro he
          obtain rfl : g = p.outer := Halfedge.opposite_eq_iff.1 he
          exact hmem hg
        have hgn : g.opposite ≠ c.prev n.inner := fun he => hgy (Halfedge.opposite_eq_iff.1 he)
        simp [hgp, hgn]
      · have h₁ : turn (c.prev n.inner).opposite = p.outer := hon (c.prev n.inner, p.outer) (by simp)
        have h₂ : turn p.outer = n.inner := hon (p.inner, n.inner) (by simp)
        rw [turnRight, Halfedge.opposite_opposite, hnext]
        exact ⟨h₁, h₂, trivial⟩
  }

/-- A new second side that meets an existing one is put in between the halfedges that were linked there. -/
theorem rewires_old_fresh (hc : c.Linked) (hf : c.CornerFits v p n) (hp : p.fresh = false)
    (hn : n.fresh = true) : c.Rewires v p n (c.cornerLinks v p n) := by
  obtain ⟨hlive, hhead, hborder⟩ := hf.incoming hp
  obtain ⟨hnext, htail⟩ := hc.next_live hlive
  have hsize : c.edges.size ≤ n.inner.edge.slot := hf.leaving_fresh hn
  have hlinks : c.cornerLinks v p n = [(n.outer, c.next p.inner), (p.inner, n.inner)] := by
    simp [cornerLinks, cornerChange, hp, hn]
  have hfresh : freshAt p n = [n.inner] := by simp [freshAt, hp, hn]
  have hfst : p.inner ≠ n.outer := hlive.ne_of_size_le hsize
  have hsnd : c.next p.inner ≠ n.inner := hnext.ne_of_size_le hsize
  rw [hlinks]
  exact {
    fst_nodup := by simpa using hfst.symm
    snd_nodup := by simpa using hsnd
    ends := by simp [hfresh, RingSide.outer, hnext, hlive, hhead, htail]
    border := by
      have hfacet : c.facetOf (c.next p.inner) = none := (hc.facet_next hlive).trans hborder
      have hfacet' : c.facetOf n.outer = none := facetOf_of_size_le hsize
      simp [hfacet, hfacet']
    turn := by simp
    fresh := by simp [hfresh, RingSide.outer]
    fan := by
      intro l hl turn hon hoff
      -- The new halfedge comes in behind the first side.
      have hy : p.outer ∈ l := (hl.mem _).2 ⟨hlive, by rw [RingSide.outer, tail_opposite, hhead]⟩
      have hmem : n.inner ∉ l := hl.notMem_of_size_le hsize
      rw [hfresh]
      refine hl.orbit.exists_insert hy ?_ ?_ (by simp) (by simpa using hmem)
      · intro g hg hgy
        refine hoff g hg ?_
        have hgp : g.opposite ≠ p.inner := fun he => hgy (Halfedge.opposite_eq_iff.1 he)
        have hgn : g.opposite ≠ n.outer := fun he => hmem (Halfedge.opposite_inj.1 he ▸ hg)
        simp [hgp, hgn]
      · have h₁ : turn p.outer = n.inner := hon (p.inner, n.inner) (by simp)
        have h₂ : turn n.inner = c.next p.inner := turn_of_link hon (by simp [RingSide.outer])
        rw [turnRight, RingSide.outer, Halfedge.opposite_opposite]
        exact ⟨h₁, h₂, trivial⟩
  }

/-- Two new sides form a fan of their own at a vertex that stores no halfedge. -/
theorem rewires_isolated (hc : c.Linked) (hf : c.CornerFits v p n) (hp : p.fresh = true)
    (hn : n.fresh = true) (ho : c.outgoing v = none) : c.Rewires v p n (c.cornerLinks v p n) := by
  have hfresh : freshAt p n = [p.outer, n.inner] := by simp [freshAt, hp, hn]
  have hapart : p.outer ≠ n.inner := hf.outer_ne
  have hapart' : n.outer ≠ p.inner := hf.ne_outer
  have hbp : c.facetOf p.outer = none := facetOf_of_size_le (hf.incoming_fresh hp)
  have hbn : c.facetOf n.outer = none := facetOf_of_size_le (hf.leaving_fresh hn)
  have hlinks : c.cornerLinks v p n = [(n.outer, p.outer), (p.inner, n.inner)] := by
    simp [cornerLinks, cornerChange, hp, hn, ho]
  rw [hlinks]
  exact {
    fst_nodup := by simpa using hapart'
    snd_nodup := by simpa using hapart
    ends := by simp [hfresh, RingSide.outer]
    border := by simp [hbp, hbn]
    turn := by simp
    fresh := by simp [hfresh, RingSide.outer]
    fan := by
      intro l hl turn hon hoff
      -- Nothing left the vertex, and the new sides lead to each other.
      have hnil : ∀ g, g ∉ l := by
        intro g hg
        obtain ⟨hlive, htail⟩ := (hl.mem g).1 hg
        exact hc.isolated hf.live ho hlive htail
      have h₁ : turn p.outer = n.inner := hon (p.inner, n.inner) (by simp)
      have h₂ : turn n.inner = p.outer := turn_of_link hon (by simp [RingSide.outer])
      refine ⟨[p.outer, n.inner], ⟨by simpa using hapart, ?_⟩, ?_⟩
      · simp [h₁, h₂]
      · simp [hfresh, hnil]
  }

/-- Two new sides are put in before the halfedge that the vertex stores. -/
theorem rewires_before_stored (hc : c.Linked) (hf : c.CornerFits v p n) (hp : p.fresh = true)
    (hn : n.fresh = true) {h : Halfedge} (ho : c.outgoing v = some h) :
    c.Rewires v p n (c.cornerLinks v p n) := by
  have hsizep : c.edges.size ≤ p.outer.edge.slot := hf.incoming_fresh hp
  have hsizen : c.edges.size ≤ n.inner.edge.slot := hf.leaving_fresh hn
  have hfresh : freshAt p n = [p.outer, n.inner] := by simp [freshAt, hp, hn]
  have hapart : p.outer ≠ n.inner := hf.outer_ne
  have hapart' : n.outer ≠ p.inner := hf.ne_outer
  have hbp : c.facetOf p.outer = none := facetOf_of_size_le hsizep
  have hbn : c.facetOf n.outer = none := facetOf_of_size_le hsizen
  obtain ⟨hlive, htail⟩ := hc.outgoing hf.live ho
  obtain ⟨hprev, hhead, hnext⟩ := hc.prev_live hlive
  have hborder : c.facetOf h = none := hf.facetOf_outgoing ho
  have hlinks : c.cornerLinks v p n = [(c.prev h, p.outer), (n.outer, h), (p.inner, n.inner)] := by
    simp [cornerLinks, cornerChange, hp, hn, ho]
  have hfst₁ : c.prev h ≠ n.outer := hprev.ne_of_size_le hsizen
  have hfst₂ : c.prev h ≠ p.inner := hprev.ne_of_size_le hsizep
  have hsnd₁ : h ≠ p.outer := hlive.ne_of_size_le hsizep
  have hsnd₂ : h ≠ n.inner := hlive.ne_of_size_le hsizen
  rw [hlinks]
  exact {
    fst_nodup := by simp [hfst₁, hfst₂, hapart']
    snd_nodup := by simp [hsnd₁.symm, hsnd₂, hapart]
    ends := by simp [hfresh, RingSide.outer, hprev, hlive, hhead, htail]
    border := by simp [hbp, hbn, hborder, hc.facet_prev hlive]
    turn := by simp
    fresh := by simp [hfresh, RingSide.outer]
    fan := by
      intro l hl turn hon hoff
      have hy : (c.prev h).opposite ∈ l := (hl.mem _).2 ⟨hprev, by rw [tail_opposite, hhead, htail]⟩
      have hmemp : p.outer ∉ l := hl.notMem_of_size_le hsizep
      have hmemn : n.inner ∉ l := hl.notMem_of_size_le hsizen
      rw [hfresh]
      refine hl.orbit.exists_insert hy ?_ ?_ (by simpa using hapart) (by simp [hmemp, hmemn])
      · -- The other halfedges turn as they did.
        intro g hg hgy
        refine hoff g hg ?_
        have hgp : g.opposite ≠ p.inner := by
          intro he
          obtain rfl : g = p.outer := Halfedge.opposite_eq_iff.1 he
          exact hmemp hg
        have hgn : g.opposite ≠ n.outer := fun he => hmemn (Halfedge.opposite_inj.1 he ▸ hg)
        have hgh : g.opposite ≠ c.prev h := fun he => hgy (Halfedge.opposite_eq_iff.1 he)
        simp [hgp, hgn, hgh]
      · -- The new ones lead from the one before `h` on to `h`.
        have h₁ : turn (c.prev h).opposite = p.outer := hon (c.prev h, p.outer) (by simp)
        have h₂ : turn p.outer = n.inner := hon (p.inner, n.inner) (by simp)
        have h₃ : turn n.inner = h := turn_of_link hon (by simp [RingSide.outer])
        rw [turnRight, Halfedge.opposite_opposite, hnext]
        exact ⟨h₁, h₂, h₃, trivial⟩
  }

/-- Two new sides are put in before the halfedge that the vertex stores, and form a fan of their own where
it stores none. -/
theorem rewires_fresh_fresh (hc : c.Linked) (hf : c.CornerFits v p n) (hp : p.fresh = true)
    (hn : n.fresh = true) : c.Rewires v p n (c.cornerLinks v p n) := by
  cases ho : c.outgoing v with
  | none => exact hf.rewires_isolated hc hp hn ho
  | some h => exact hf.rewires_before_stored hc hp hn ho

/-- The orbit around a corner where existing sides are brought together, cut behind the three halfedges whose
successors change. -/
theorem exists_cuts (hc : c.Linked) (hf : c.CornerFits v p n) (hp : p.fresh = false)
    (hn : n.fresh = false) (hne : c.next p.inner ≠ n.inner) :
    ∃ k y l m z, c.FanAt v (((n.inner :: k) ++ [y]) ++ ((l ++ [p.outer]) ++ (m ++ [z]))) ∧
      c.gapAfter n.inner.opposite = some y.opposite ∧ c.facetOf y.opposite = none ∧
      c.prev n.inner = z.opposite := by
  obtain ⟨hnlive, hntail, -⟩ := hf.leaving hn
  obtain ⟨hplive, hphead, hpborder⟩ := hf.incoming hp
  obtain ⟨r, hr⟩ := hc.fan_from hnlive
  rw [hntail] at hr
  have hpr : p.outer ∈ r := by
    have hmem : p.outer ∈ n.inner :: r := (hr.mem _).2 ⟨hplive, by rw [RingSide.outer, tail_opposite, hphead]⟩
    exact (List.mem_cons.1 hmem).resolve_left hf.outer_ne
  have hpout : c.facetOf p.outer.opposite = none := by rwa [RingSide.outer, Halfedge.opposite_opposite]
  obtain ⟨k, y, m, rfl, hk, hyb, hgap⟩ := exists_gapAfter hr hpr hpout
  -- The gap is not at the first side, so the first side comes later.
  have hyp : p.outer ≠ y := by
    rintro rfl
    obtain ⟨g, hg, hgne⟩ := hf.gap hp hn hne
    rw [hgap, RingSide.outer, Halfedge.opposite_opposite] at hg
    exact hgne (Option.some.inj hg).symm
  have hpm : p.outer ∈ m := by
    rcases List.mem_append.1 hpr with hmem | hmem
    · exact absurd hpout (hk _ hmem)
    · exact (List.mem_cons.1 hmem).resolve_left hyp
  obtain ⟨l, m, rfl⟩ := List.append_of_mem hpm
  -- Something comes behind the first side, as the second one does not.
  rcases List.eq_nil_or_concat m with rfl | ⟨m, z, rfl⟩
  · have hturn : c.turnRight p.outer = n.inner := hr.orbit.step_last (by simp [List.getLast?_cons])
    rw [turnRight, RingSide.outer, Halfedge.opposite_opposite] at hturn
    exact absurd hturn hne
  · refine ⟨k, y, l, m, z, by simpa using hr, hgap, hyb, ?_⟩
    have hzlive := ((hr.mem z).1 (by simp)).1
    have hturn : c.turnRight z = n.inner := hr.orbit.step_last (by simp [List.getLast?_cons])
    rw [← hturn, turnRight, hc.prev_next (h := z.opposite) hzlive]

/-- Two existing sides that follow each other already need no links. -/
theorem rewires_following (hp : p.fresh = false) (hn : n.fresh = false)
    (hnext : c.next p.inner = n.inner) : c.Rewires v p n (c.cornerLinks v p n) := by
  have hfresh : freshAt p n = [] := by simp [freshAt, hp, hn]
  have hlinks : c.cornerLinks v p n = [] := by
    simp [cornerLinks, cornerChange, movedLinks, hp, hn, hnext]
  rw [hlinks]
  -- Without links every fan is the old one.
  exact {
    fst_nodup := by simp
    snd_nodup := by simp
    ends := by simp
    border := by simp
    turn := Or.inr ⟨rfl, hfresh, hnext⟩
    fresh := by simp [hfresh]
    fan := fun l hl turn _ hoff => ⟨l, hl.orbit.congr fun g hg => hoff g hg (by simp), by simp [hfresh]⟩
  }

/-- Two existing sides that are apart are brought together by moving the fans between them. -/
theorem rewires_apart (hc : c.Linked) (hf : c.CornerFits v p n) (hp : p.fresh = false)
    (hn : n.fresh = false) (hne : c.next p.inner ≠ n.inner) : c.Rewires v p n (c.cornerLinks v p n) := by
  obtain ⟨hnlive, hntail, hnborder⟩ := hf.leaving hn
  obtain ⟨hplive, hphead, hpborder⟩ := hf.incoming hp
  obtain ⟨k, y, l, m, z, hl, hgap, hyb, hz⟩ := hf.exists_cuts hc hp hn hne
  have hfresh : freshAt p n = [] := by simp [freshAt, hp, hn]
  have hlinks : c.cornerLinks v p n =
      [(y.opposite, c.next p.inner), (z.opposite, c.next y.opposite), (p.inner, n.inner)] := by
    simp [cornerLinks, cornerChange, movedLinks, hp, hn, hne, hgap, hz]
  have hlive : ∀ g ∈ ((n.inner :: k) ++ [y]) ++ ((l ++ [p.outer]) ++ (m ++ [z])),
      c.IsLive g ∧ c.tail g = v := fun g hg => (hl.mem g).1 hg
  obtain ⟨hylive, hytail⟩ := hlive y (by simp)
  obtain ⟨hzlive, hztail⟩ := hlive z (by simp)
  obtain ⟨hpnlive, hpntail⟩ := hc.next_live hplive
  obtain ⟨hynlive, hyntail⟩ := hc.next_live (h := y.opposite) hylive
  have hnext : c.next z.opposite = n.inner :=
    calc c.next z.opposite = c.next (c.prev n.inner) := by rw [hz]
      _ = n.inner := (hc.prev_live hnlive).2.2
  obtain ⟨hyp, hyz, hpz⟩ := Orbit.cuts_ne hl.orbit.nodup
  have hyp' : y.opposite ≠ p.inner := fun he => hyp (Halfedge.opposite_eq_iff.1 he)
  have hzp' : z.opposite ≠ p.inner := fun he => hpz (Halfedge.opposite_eq_iff.1 he).symm
  have hyz' : y.opposite ≠ z.opposite := fun he => hyz (Halfedge.opposite_inj.1 he)
  rw [hlinks]
  exact {
    fst_nodup := by simp [hyz, hyp', hzp']
    snd_nodup := by
      have h₁ : c.next p.inner ≠ c.next y.opposite := fun he =>
        hyp' (hc.next_inj hplive (h := y.opposite) hylive he).symm
      have h₂ : c.next y.opposite ≠ n.inner := fun he =>
        hyz' (hc.next_inj (g := y.opposite) (h := z.opposite) hylive hzlive (he.trans hnext.symm))
      simp [h₁, h₂, hne]
    ends := by
      simp [hylive, hzlive, hplive, hnlive, hpnlive, hynlive, hytail, hztail, hphead, hntail, hpntail,
        hyntail]
    border := by
      have hzb : c.facetOf z.opposite = none :=
        calc c.facetOf z.opposite = c.facetOf (c.prev n.inner) := by rw [hz]
          _ = c.facetOf n.inner := hc.facet_prev hnlive
          _ = none := hnborder
      have hynb : c.facetOf (c.next y.opposite) = none :=
        (hc.facet_next (h := y.opposite) hylive).trans hyb
      simp [hyb, hzb, hynb, hc.facet_next hplive, hpborder]
    turn := by simp
    fresh := by simp [hfresh]
    fan := by
      -- The three links exchange the parts between the cuts.
      intro l' hl' turn hon hoff
      have hy' : turn y = c.turnRight p.outer := by
        rw [turn_of_link hon (h := c.next p.inner) (by simp), turnRight, RingSide.outer, Halfedge.opposite_opposite]
      have hz' : turn z = c.turnRight y := turn_of_link hon (by simp [turnRight])
      have hp' : turn p.outer = c.turnRight z :=
        (hon (p.inner, n.inner) (by simp)).trans hnext.symm
      have hmem : ∀ g, g ∈ ((n.inner :: k) ++ [y]) ++ ((l ++ [p.outer]) ++ (m ++ [z])) ↔ g ∈ l' := by
        intro g
        rw [hl.mem, hl'.mem]
      refine ⟨_, hl.orbit.exchange ?_ hy' hp' hz', ?_⟩
      · intro g hg hgy hgp hgz
        refine hoff g ((hmem g).1 hg) ?_
        have hgp' : g.opposite ≠ p.inner := fun he => hgp (Halfedge.opposite_eq_iff.1 he)
        simp [hgy, hgz, hgp']
      · intro g
        rw [(List.perm_append_comm.append_left ((n.inner :: k) ++ [y])).mem_iff, hmem]
        simp [hfresh]
  }

/-- At every corner the links that are set bring the sides together. -/
theorem rewires (hc : c.Linked) (hf : c.CornerFits v p n) : c.Rewires v p n (c.cornerLinks v p n) := by
  rcases hp : p.fresh <;> rcases hn : n.fresh
  · by_cases hnext : c.next p.inner = n.inner
    · exact rewires_following hp hn hnext
    · exact hf.rewires_apart hc hp hn hnext
  · exact hf.rewires_old_fresh hc hp hn
  · exact hf.rewires_fresh_old hc hp hn
  · exact hf.rewires_fresh_fresh hc hp hn

/-- After the change the vertex of a corner stores a halfedge that leaves it. It is on the border, or said to be
adjusted. -/
theorem stored (hc : c.Linked) (hf : c.CornerFits v p n) :
    ∃ h, (c.cornerChange v p n).outgoing.or (c.outgoing v) = some h ∧
      ((c.IsLive h ∧ c.tail h = v) ∨ h ∈ freshAt p n) ∧
      ((c.facetOf h = none ∧ h ≠ n.inner) ∨ (c.cornerChange v p n).adjust = true) := by
  -- Two existing sides leave what is stored, and otherwise the vertex stores a halfedge outside the facet.
  rcases hp : p.fresh <;> rcases hn : n.fresh
  · obtain ⟨hnlive, hntail, -⟩ := hf.leaving hn
    cases ho : c.outgoing v with
    | none => exact absurd hntail (hc.isolated hf.live ho hnlive)
    | some h =>
      refine ⟨h, by simp [cornerChange, hp, hn], Or.inl (hc.outgoing hf.live ho), ?_⟩
      by_cases hh : h = n.inner
      · right
        simp [cornerChange, hp, hn, ho, hh]
      · exact Or.inl ⟨hf.facetOf_outgoing ho, hh⟩
  · obtain ⟨hplive, hphead, hpborder⟩ := hf.incoming hp
    obtain ⟨hlive, htail⟩ := hc.next_live hplive
    have hne : c.next p.inner ≠ n.inner := hlive.ne_of_size_le (hf.leaving_fresh hn)
    exact ⟨c.next p.inner, by simp [cornerChange, hp, hn], Or.inl ⟨hlive, htail.trans hphead⟩,
      Or.inl ⟨(hc.facet_next hplive).trans hpborder, hne⟩⟩
  · have hborder : c.facetOf p.outer = none := facetOf_of_size_le (hf.incoming_fresh hp)
    exact ⟨p.outer, by simp [cornerChange, hp, hn], Or.inr (by simp [freshAt, hp, hn]),
      Or.inl ⟨hborder, hf.outer_ne⟩⟩
  · cases ho : c.outgoing v with
    | none =>
      have hborder : c.facetOf p.outer = none := facetOf_of_size_le (hf.incoming_fresh hp)
      exact ⟨p.outer, by simp [cornerChange, hp, hn, ho], Or.inr (by simp [freshAt, hp, hn]),
        Or.inl ⟨hborder, hf.outer_ne⟩⟩
    | some h =>
      -- Two new sides are put into the gap at the stored halfedge.
      have hlive := hc.outgoing hf.live ho
      have hne : h ≠ n.inner := hlive.1.ne_of_size_le (hf.leaving_fresh hn)
      exact ⟨h, by simp [cornerChange, hp, hn, ho], Or.inl hlive, Or.inl ⟨hf.facetOf_outgoing ho, hne⟩⟩

end CornerFits

end Connectivity

end RegionMesh
