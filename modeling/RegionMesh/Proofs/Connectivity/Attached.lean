import RegionMesh.Proofs.Connectivity.Joined

/-!
# Links after an attachment

A facet that fits is attached without disturbing anything else (`Placement.wellFormed`): the links are in
order afterwards, the corners of the new facet are those that were asked for, in this order, and the rings
of the other facets are what they were.

At every corner the new links turn one orbit into another one (`CornerFits.rewires`), so the fans stay what they
should be (`Placement.fan_joined`). Apart from the inside of the facet only the border is linked anew, so the
rings of the other facets stay too.
-/

namespace RegionMesh

namespace Connectivity

variable {c c' : Connectivity} {vs : List Vertex} {existing : List (Option Halfedge)}
  {moved : List (Halfedge × Halfedge)}

namespace Placement

/-- The corners that choose another halfedge are those whose stored one ceases to be on the border. -/
theorem mem_adjusted (h : c.Placement vs existing moved) {v : Vertex} :
    v ∈ c.adjusted vs (ringSides existing c.edges.size) ↔
      ∃ p n, (v, p, n) ∈ (successors vs).zip (cyclicPairs (ringSides existing c.edges.size)) ∧
        (c.cornerChange v p n).adjust = true := by
  obtain ⟨hchanges, -⟩ := changeCorners_spec h.nodup_corners h.corner_slot_lt
  unfold adjusted
  rw [hchanges]
  simp only [List.mem_map, List.mem_filter]
  constructor
  · rintro ⟨y, ⟨⟨⟨v', p, n⟩, hk, rfl⟩, hadjust⟩, rfl⟩
    exact ⟨p, n, hk, hadjust⟩
  · rintro ⟨p, n, hk, hadjust⟩
    exact ⟨_, ⟨⟨_, hk, rfl⟩, hadjust⟩, rfl⟩

/-- A halfedge is linked anew at some corner or at none. -/
theorem linked_or_off (c : Connectivity) (vs : List Vertex) (sides : List RingSide) (g : Halfedge) :
    (∃ k ∈ (successors vs).zip (cyclicPairs sides), ∃ x ∈ c.cornerLinks k.1 k.2.1 k.2.2, x.1 = g) ∨
      ∀ k ∈ (successors vs).zip (cyclicPairs sides), g ∉ (c.cornerLinks k.1 k.2.1 k.2.2).map Prod.fst := by
  by_cases hlink : ∃ k ∈ (successors vs).zip (cyclicPairs sides),
      g ∈ (c.cornerLinks k.1 k.2.1 k.2.2).map Prod.fst
  · obtain ⟨k, hk, hmem⟩ := hlink
    exact Or.inl ⟨k, hk, List.mem_map.1 hmem⟩
  · exact Or.inr fun k hk hmem => hlink ⟨k, hk, hmem⟩

section Joined

variable (hc : c.Linked) (h : c.Placement vs existing moved)
  (hj : c.Joins vs (ringSides existing c.edges.size) c')

include hc h hj

omit hc h in
/-- A halfedge of a new edge is a side of the facet, or opposite to one. -/
theorem new_halfedge {g : Halfedge} (hg : c'.IsLive g) (hn : ¬ c.IsLive g) :
    ∃ u v s, ((u, v), s) ∈ (cyclicPairs vs).zip (ringSides existing c.edges.size) ∧ s.fresh = true ∧
      ((g = s.inner ∧ c'.tail g = u ∧ c'.head g = v) ∨
        (g = s.outer ∧ c'.tail g = v ∧ c'.head g = u)) := by
  obtain ⟨⟨⟨u, v⟩, s⟩, hs, hf, he⟩ := ((hj.live g).1 hg).resolve_left hn
  obtain ⟨htail, hhead⟩ := hj.ends _ hs hf
  refine ⟨u, v, s, hs, hf, ?_⟩
  -- It belongs to the edge of a side, and an edge has two halfedges.
  rcases Halfedge.eq_or_eq_opposite he.symm with rfl | rfl
  · exact Or.inl ⟨rfl, htail, hhead⟩
  · refine Or.inr ⟨rfl, ?_, ?_⟩
    · rw [tail_opposite, hhead]
    · rw [head_opposite, htail]

omit hc h in
/-- A halfedge of a new edge had no facet before. -/
theorem facetOf_of_new {g : Halfedge} (hg : c'.IsLive g) (hn : ¬ c.IsLive g) : c.facetOf g = none := by
  refine facetOf_of_size_le ?_
  obtain ⟨u, v, s, hs, hf, ⟨rfl, -⟩ | ⟨rfl, -⟩⟩ := new_halfedge hj hg hn
  · exact (hj.size _ hs hf).1
  · exact (hj.size _ hs hf).1

/-- A side of the facet joins its corners. -/
theorem side_joined {u v : Vertex} {s : RingSide}
    (hs : ((u, v), s) ∈ (cyclicPairs vs).zip (ringSides existing c.edges.size)) :
    c'.IsLive s.inner ∧ c'.tail s.inner = u ∧ c'.head s.inner = v := by
  rcases hf : s.fresh
  · obtain ⟨hlive, htail, hhead, -⟩ := h.old hc hs hf
    obtain ⟨hlive', htail', hhead'⟩ := keeps hj.toBrings hlive
    exact ⟨hlive', htail'.trans htail, hhead'.trans hhead⟩
  · obtain ⟨htail, hhead⟩ := hj.ends _ hs hf
    exact ⟨(hj.live _).2 (Or.inr ⟨_, hs, hf, rfl⟩), htail, hhead⟩

/-- A side of the facet had no facet before. -/
theorem facetOf_side {u v : Vertex} {s : RingSide}
    (hs : ((u, v), s) ∈ (cyclicPairs vs).zip (ringSides existing c.edges.size)) :
    c.facetOf s.inner = none := by
  rcases hf : s.fresh
  · exact (h.old hc hs hf).2.2.2
  · exact facetOf_of_size_le (hj.size _ hs hf).1

/-- The facets of the halfedges afterwards. -/
theorem facetOf_joined (g : Halfedge) : c'.facetOf g =
    if g ∈ (ringSides existing c.edges.size).map RingSide.inner then some ⟨c.facets.size⟩
    else c.facetOf g := by
  refine hj.facetOf (fun s hs hf => ?_) g
  obtain ⟨u, v, hs'⟩ := exists_side h.length_sides hs
  exact (h.old hc hs' hf).1.slot_lt

/-- A halfedge that points to a corner is linked at this corner, or not at all. -/
theorem notMem_firsts {v : Vertex} {p n : RingSide}
    (hk : (v, p, n) ∈ (successors vs).zip (cyclicPairs (ringSides existing c.edges.size)))
    {g : Halfedge} (hv : c'.head g = v) (hg : g ∉ (c.cornerLinks v p n).map Prod.fst) :
    ∀ k ∈ (successors vs).zip (cyclicPairs (ringSides existing c.edges.size)),
      g ∉ (c.cornerLinks k.1 k.2.1 k.2.2).map Prod.fst := by
  intro k hk' hmem
  obtain ⟨x, hx, rfl⟩ := List.mem_map.1 hmem
  have hends := (h.link_ends hc hj.toBrings hk' hx).1.2
  -- What is linked at a corner points to it, and no two corners are the same vertex.
  obtain rfl : k = (v, p, n) := corner_ext h.nodup h.length_sides hk' hk (hends.symm.trans hv)
  exact hg hmem

/-- A halfedge that points elsewhere than to a corner is not linked. -/
theorem notMem_firsts_of_head {g : Halfedge} (hv : c'.head g ∉ vs) :
    ∀ k ∈ (successors vs).zip (cyclicPairs (ringSides existing c.edges.size)),
      g ∉ (c.cornerLinks k.1 k.2.1 k.2.2).map Prod.fst := by
  intro k hk hmem
  obtain ⟨x, hx, rfl⟩ := List.mem_map.1 hmem
  have hends := (h.link_ends hc hj.toBrings hk hx).1.2
  exact hv (hends ▸ corner_mem h.length_sides hk)

/-! ## Fans -/

omit hc in
/-- The live halfedges that leave a corner are those that left it and the new ones there. -/
theorem leaves_corner {v : Vertex} {p n : RingSide}
    (hk : (v, p, n) ∈ (successors vs).zip (cyclicPairs (ringSides existing c.edges.size)))
    (g : Halfedge) :
    (c'.IsLive g ∧ c'.tail g = v) ↔ (c.IsLive g ∧ c.tail g = v) ∨ g ∈ freshAt p n := by
  obtain ⟨⟨u, hp⟩, w, hn⟩ := sides_of_corner h.length_sides hk
  constructor
  · rintro ⟨hlive, htail⟩
    by_cases hold : c.IsLive g
    · exact Or.inl ⟨hold, (keeps hj.toBrings hold).2.1 ▸ htail⟩
    · obtain ⟨a, b, s, hs, hf, ⟨rfl, ha, hb⟩ | ⟨rfl, ha, hb⟩⟩ := new_halfedge hj hlive hold
      · -- A new side that starts here is the second one.
        have hsn := side_ext_left h.nodup h.length_sides hs hn (ha.symm.trans htail)
        obtain ⟨-, rfl⟩ := Prod.mk.inj hsn
        exact Or.inr (by simp [freshAt, hf])
      · -- A new side that ends here is the first one.
        have hsp := side_ext_right h.nodup h.length_sides hs hp (ha.symm.trans htail)
        obtain ⟨-, rfl⟩ := Prod.mk.inj hsp
        exact Or.inr (by simp [freshAt, hf])
  · rintro (⟨hlive, htail⟩ | hfresh)
    · obtain ⟨hlive', htail', -⟩ := keeps hj.toBrings hlive
      exact ⟨hlive', htail'.trans htail⟩
    · exact h.freshAt_leaves hj.toBrings hk hfresh

omit hc h in
/-- No new halfedge leaves a vertex that is no corner. -/
theorem leaves_other {v : Vertex} (hv : v ∉ vs) (g : Halfedge) :
    (c'.IsLive g ∧ c'.tail g = v) ↔ c.IsLive g ∧ c.tail g = v := by
  constructor
  · rintro ⟨hlive, htail⟩
    by_cases hold : c.IsLive g
    · exact ⟨hold, (keeps hj.toBrings hold).2.1 ▸ htail⟩
    · -- A new halfedge leaves a corner, whichever side of its edge it is.
      obtain ⟨a, b, s, hs, hf, ⟨rfl, ha, hb⟩ | ⟨rfl, ha, hb⟩⟩ := new_halfedge hj hlive hold
      · have hmem := (mem_of_mem_cyclicPairs (List.of_mem_zip hs).1).1
        exact absurd (htail ▸ ha ▸ hmem) hv
      · have hmem := (mem_of_mem_cyclicPairs (List.of_mem_zip hs).1).2
        exact absurd (htail ▸ ha ▸ hmem) hv
  · rintro ⟨hlive, htail⟩
    obtain ⟨hlive', htail', -⟩ := keeps hj.toBrings hlive
    exact ⟨hlive', htail'.trans htail⟩

/-- The halfedges that leave a live vertex form one fan afterwards. -/
theorem fan_joined {v : Vertex} (hv : c.isLiveVertex v = true) : ∃ l, c'.FanAt v l := by
  obtain ⟨l, hl⟩ := hc.fan hv
  by_cases hmem : v ∈ vs
  · -- At a corner the new links turn the old fan into the new one.
    obtain ⟨p, n, hk⟩ := exists_corner h.length_sides hmem
    have hrewires := (h.corner hc hk).rewires hc
    have hlinked : ∀ x ∈ c.cornerLinks v p n, c'.turnRight x.1.opposite = x.2 := by
      intro x hx
      rw [turnRight, Halfedge.opposite_opposite]
      exact hj.next_on _ hk x hx
    have hkept : ∀ g ∈ l, g.opposite ∉ (c.cornerLinks v p n).map Prod.fst →
        c'.turnRight g = c.turnRight g := by
      intro g hg hoff
      obtain ⟨hlive, htail⟩ := (hl.mem g).1 hg
      have hhead : c'.head g.opposite = v := (keeps hj.toBrings hlive).2.1.trans htail
      exact hj.next_off _ hlive.slot_lt (notMem_firsts hc h hj hk hhead hoff)
    obtain ⟨l', horbit, hl'⟩ := hrewires.fan l hl c'.turnRight hlinked hkept
    refine ⟨l', horbit, fun g => ?_⟩
    rw [hl', hl.mem, leaves_corner h hj hk]
  · -- Elsewhere no halfedge is linked anew, as all of these point to corners.
    refine ⟨l, hl.orbit.congr fun g hg => ?_, fun g => ?_⟩
    · obtain ⟨hlive, htail⟩ := (hl.mem g).1 hg
      have hhead : c'.head g.opposite ∉ vs := by
        have htail' : c'.head g.opposite = c.tail g := (keeps hj.toBrings hlive).2.1
        rwa [htail', htail]
      exact hj.next_off _ hlive.slot_lt (notMem_firsts_of_head hc h hj hhead)
    · rw [hl.mem, leaves_other hj hmem]

/-! ## Links -/

/-- Every new halfedge is linked at a corner. -/
theorem exists_link_of_new {g : Halfedge} (hg : c'.IsLive g) (hn : ¬ c.IsLive g) :
    ∃ k ∈ (successors vs).zip (cyclicPairs (ringSides existing c.edges.size)),
      g ∈ (c.cornerLinks k.1 k.2.1 k.2.2).map Prod.fst := by
  obtain ⟨u, v, s, hs, hf, ⟨rfl, -, -⟩ | ⟨rfl, -, -⟩⟩ := new_halfedge hj hg hn
  · -- The inner side of a new edge is linked where it ends, the outer one where the inner one starts.
    obtain ⟨n, hk⟩ := exists_corner_behind h.length_sides hs
    have hmem := ((h.corner hc hk).rewires hc).fresh s.outer (by simp [freshAt, hf])
    rw [RingSide.outer, Halfedge.opposite_opposite] at hmem
    exact ⟨_, hk, hmem⟩
  · obtain ⟨p, hk⟩ := exists_corner_before h.length_sides hs
    exact ⟨_, hk, ((h.corner hc hk).rewires hc).fresh s.inner (by simp [freshAt, hf])⟩

/-- A halfedge that is not linked anew is an old one, and its next one is linked anew neither. -/
theorem next_kept {g : Halfedge} (hg : c'.IsLive g)
    (hoff : ∀ k ∈ (successors vs).zip (cyclicPairs (ringSides existing c.edges.size)),
      g ∉ (c.cornerLinks k.1 k.2.1 k.2.2).map Prod.fst) :
    c.IsLive g ∧ c'.next g = c.next g ∧
      ∀ k ∈ (successors vs).zip (cyclicPairs (ringSides existing c.edges.size)),
        c.next g ∉ (c.cornerLinks k.1 k.2.1 k.2.2).map Prod.snd := by
  have hold : c.IsLive g := by
    by_contra hn
    obtain ⟨k, hk, hmem⟩ := exists_link_of_new hc h hj hg hn
    exact hoff k hk hmem
  have hnext : c'.next g = c.next g := hj.next_off g hold.slot_lt hoff
  refine ⟨hold, hnext, ?_⟩
  rintro ⟨v, p, n⟩ hk hmem
  obtain ⟨x, hx, hxg⟩ := List.mem_map.1 hmem
  obtain ⟨⟨hx₁, hx₁v⟩, hx₂, hx₂v⟩ := h.link_ends hc hj.toBrings hk hx
  -- Both `g` and the halfedge linked here would lead to the same one in the fan of the vertex.
  have hturn : c'.turnRight g.opposite = x.2 := by
    rw [turnRight, Halfedge.opposite_opposite, hnext, hxg]
  have hturn' : c'.turnRight x.1.opposite = x.2 := by
    rw [turnRight, Halfedge.opposite_opposite]
    exact hj.next_on _ hk x hx
  have hlive : c.isLiveVertex (c'.head g) = true := by
    rw [(keeps hj.toBrings hold).2.2]
    exact hc.head_live hold
  obtain ⟨l, hl⟩ := fan_joined hc h hj hlive
  have hgl : g.opposite ∈ l := (hl.mem _).2 ⟨hg, tail_opposite g⟩
  have hxl : x.2 ∈ l := hturn ▸ hl.orbit.step_mem hgl
  have hheads : v = c'.head g := by rw [← hx₂v, ((hl.mem _).1 hxl).2]
  have hx₁l : x.1.opposite ∈ l := (hl.mem _).2 ⟨hx₁, by rw [tail_opposite, hx₁v, hheads]⟩
  have hsame := hl.orbit.step_inj hgl hx₁l (hturn.trans hturn'.symm)
  rw [Halfedge.opposite_inj] at hsame
  exact hoff _ hk (hsame ▸ List.mem_map_of_mem hx)

/-- Every halfedge is the previous one of its next one. -/
theorem prev_next_joined {g : Halfedge} (hg : c'.IsLive g) : c'.prev (c'.next g) = g := by
  rcases linked_or_off c vs (ringSides existing c.edges.size) g with ⟨k, hk, x, hx, rfl⟩ | hoff
  · rw [hj.next_on k hk x hx, hj.prev_on k hk x hx]
  · obtain ⟨hold, hnext, hoff'⟩ := next_kept hc h hj hg hoff
    rw [hnext, hj.prev_off _ (hc.next_live hold).1.slot_lt hoff', hc.prev_next hold]

/-- Inside the facet a side is followed by the next one. -/
theorem next_side {v : Vertex} {p n : RingSide}
    (hk : (v, p, n) ∈ (successors vs).zip (cyclicPairs (ringSides existing c.edges.size))) :
    c'.next p.inner = n.inner := by
  obtain ⟨⟨u, hp⟩, -⟩ := sides_of_corner h.length_sides hk
  obtain ⟨-, -, hhead⟩ := side_joined hc h hj hp
  rcases ((h.corner hc hk).rewires hc).turn with hmem | ⟨hnil, hfresh, hnext⟩
  · exact hj.next_on _ hk _ hmem
  · -- Two existing sides that follow each other already are not linked.
    have hf : p.fresh = false := by
      rcases hf : p.fresh
      · rfl
      · simp [freshAt, hf] at hfresh
    have hoff : p.inner ∉ (c.cornerLinks v p n).map Prod.fst := by
      rw [hnil]
      simp
    rw [hj.next_off _ (h.old hc hp hf).1.slot_lt (notMem_firsts hc h hj hk hhead hoff), hnext]

/-- A side is followed by a side, and nothing else is. -/
theorem next_mem_sides {g : Halfedge} (hg : c'.IsLive g) :
    c'.next g ∈ (ringSides existing c.edges.size).map RingSide.inner ↔
      g ∈ (ringSides existing c.edges.size).map RingSide.inner := by
  constructor
  · intro hmem
    -- The side that follows has a corner where a side ends, and that one alone leads to it.
    obtain ⟨n, hn, hgn⟩ := List.mem_map.1 hmem
    obtain ⟨v, w, hnw⟩ := exists_side h.length_sides hn
    obtain ⟨p, hk⟩ := exists_corner_before h.length_sides hnw
    obtain ⟨⟨u, hp⟩, -⟩ := sides_of_corner h.length_sides hk
    have hplive := (side_joined hc h hj hp).1
    have hprev := prev_next_joined hc h hj hplive
    rw [next_side hc h hj hk, hgn, prev_next_joined hc h hj hg] at hprev
    rw [hprev]
    exact List.mem_map_of_mem (List.of_mem_zip hp).2
  · intro hmem
    obtain ⟨p, hp, rfl⟩ := List.mem_map.1 hmem
    obtain ⟨u, v, hpu⟩ := exists_side h.length_sides hp
    obtain ⟨n, hk⟩ := exists_corner_behind h.length_sides hpu
    obtain ⟨-, w, hn⟩ := sides_of_corner h.length_sides hk
    rw [next_side hc h hj hk]
    exact List.mem_map_of_mem (List.of_mem_zip hn).2

/-- A halfedge on the border is followed by one on the border, and a halfedge of a facet by one of the same
facet. -/
theorem facet_next_joined {g : Halfedge} (hg : c'.IsLive g) :
    c'.facetOf (c'.next g) = c'.facetOf g := by
  have hsides := next_mem_sides hc h hj hg
  rw [facetOf_joined hc h hj, facetOf_joined hc h hj]
  by_cases hside : g ∈ (ringSides existing c.edges.size).map RingSide.inner
  · rw [if_pos hside, if_pos (hsides.2 hside)]
  · rw [if_neg hside, if_neg fun hmem => hside (hsides.1 hmem)]
    rcases linked_or_off c vs (ringSides existing c.edges.size) g with ⟨⟨v, p, n⟩, hk, x, hx, rfl⟩ | hoff
    · -- Apart from the links inside the facet, the border is linked.
      rw [hj.next_on _ hk x hx]
      rcases ((h.corner hc hk).rewires hc).border x hx with rfl | ⟨h₁, h₂⟩
      · obtain ⟨⟨u, hp⟩, -⟩ := sides_of_corner h.length_sides hk
        exact absurd (List.mem_map_of_mem (List.of_mem_zip hp).2) hside
      · rw [h₁, h₂]
    · obtain ⟨hold, hnext, -⟩ := next_kept hc h hj hg hoff
      rw [hnext, hc.facet_next hold]

/-- A corner stores a halfedge that leaves it, and this one is on the border if the corner need not choose
another one. -/
theorem outgoing_joined {v : Vertex} {p n : RingSide}
    (hk : (v, p, n) ∈ (successors vs).zip (cyclicPairs (ringSides existing c.edges.size))) :
    ∃ g, c'.outgoing v = some g ∧ c'.IsLive g ∧ c'.tail g = v ∧
      (c'.facetOf g = none ∨ (c.cornerChange v p n).adjust = true) := by
  obtain ⟨g, hstored, hleaves, hborder⟩ := (h.corner hc hk).stored hc
  obtain ⟨hlive, htail⟩ := (leaves_corner h hj hk g).2 hleaves
  refine ⟨g, (hj.outgoing_corner _ hk).trans hstored, hlive, htail, ?_⟩
  refine hborder.imp_left fun ⟨hnone, hne⟩ => ?_
  -- The stored halfedge is no side: of the sides only `n` leaves the corner, and it is not `n`.
  rw [facetOf_joined hc h hj, if_neg, hnone]
  intro hmem
  obtain ⟨s, hs, rfl⟩ := List.mem_map.1 hmem
  obtain ⟨a, b, hsab⟩ := exists_side h.length_sides hs
  obtain ⟨-, w, hn⟩ := sides_of_corner h.length_sides hk
  have htail' := (side_joined hc h hj hsab).2.1
  have hsn := side_ext_left h.nodup h.length_sides hsab hn (htail'.symm.trans htail)
  obtain ⟨-, rfl⟩ := Prod.mk.inj hsn
  exact hne rfl

omit hc in
/-- A new halfedge joins two different corners. -/
theorem ends_of_new {g : Halfedge} (hg : c'.IsLive g) (hn : ¬ c.IsLive g) :
    c'.head g ∈ vs ∧ c'.head g ≠ c'.tail g := by
  have htwo : 2 ≤ vs.length := by
    have := h.three
    omega
  -- A new halfedge is one of the two of an edge that joins consecutive corners.
  obtain ⟨u, v, s, hs, -, ⟨-, htail, hhead⟩ | ⟨-, htail, hhead⟩⟩ := new_halfedge hj hg hn
  · have hmem := mem_of_mem_cyclicPairs (List.of_mem_zip hs).1
    have hne := side_ends_ne h.nodup htwo (List.of_mem_zip hs).1
    rw [htail, hhead]
    exact ⟨hmem.2, hne.symm⟩
  · have hmem := mem_of_mem_cyclicPairs (List.of_mem_zip hs).1
    have hne := side_ends_ne h.nodup htwo (List.of_mem_zip hs).1
    rw [htail, hhead]
    exact ⟨hmem.1, hne⟩

/-- The links are in order after the sides were linked. -/
theorem linked_joined : c'.Linked where
  -- Halfedges are old or brought by the facet, and vertices are corners of it or not.
  head_live := by
    intro g hg
    rw [hj.liveVertex]
    by_cases hold : c.IsLive g
    · rw [(keeps hj.toBrings hold).2.2]
      exact hc.head_live hold
    · exact h.live _ (ends_of_new h hj hg hold).1
  head_ne_tail := by
    intro g hg
    by_cases hold : c.IsLive g
    · obtain ⟨-, htail, hhead⟩ := keeps hj.toBrings hold
      rw [htail, hhead]
      exact hc.head_ne_tail hold
    · exact (ends_of_new h hj hg hold).2
  prev_next := prev_next_joined hc h hj
  facet_next := facet_next_joined hc h hj
  fan := by
    intro v hv
    rw [hj.liveVertex] at hv
    exact fan_joined hc h hj hv
  outgoing := by
    intro v g hv ho
    rw [hj.liveVertex] at hv
    by_cases hmem : v ∈ vs
    · obtain ⟨p, n, hk⟩ := exists_corner h.length_sides hmem
      obtain ⟨g', hg', hlive, htail, -⟩ := outgoing_joined hc h hj hk
      obtain rfl : g = g' := Option.some.inj (ho.symm.trans hg')
      exact ⟨hlive, htail⟩
    · rw [hj.outgoing_other v hmem] at ho
      exact (leaves_other hj hmem g).2 (hc.outgoing hv ho)
  isolated := by
    intro v hv ho g hg htail
    rw [hj.liveVertex] at hv
    by_cases hmem : v ∈ vs
    · obtain ⟨p, n, hk⟩ := exists_corner h.length_sides hmem
      obtain ⟨g', hg', -⟩ := outgoing_joined hc h hj hk
      rw [ho] at hg'
      cases hg'
    · rw [hj.outgoing_other v hmem] at ho
      obtain ⟨hlive, htail'⟩ := (leaves_other hj hmem g).1 ⟨hg, htail⟩
      exact hc.isolated hv ho hlive htail'

/-- The halfedges that leave a vertex that is no corner have the facets that they had. -/
theorem facetOf_leaving_other {v : Vertex} (hv : v ∉ vs) {g : Halfedge} (hg : c.IsLive g) (ht : c.tail g = v) :
    c'.facetOf g = c.facetOf g := by
  rw [facetOf_joined hc h hj, if_neg]
  intro hside
  obtain ⟨s, hs, rfl⟩ := List.mem_map.1 hside
  obtain ⟨a, b, hsab⟩ := exists_side h.length_sides hs
  have htail := (side_joined hc h hj hsab).2.1
  rw [(keeps hj.toBrings hg).2.1, ht] at htail
  exact hv (htail ▸ (mem_of_mem_cyclicPairs (List.of_mem_zip hsab).1).1)

/-- A vertex that need not choose another halfedge stores one on the border if one leaves it. -/
theorem borderFirst_joined {v : Vertex} (hv : c.isLiveVertex v = true) (hb : c.BorderFirst v)
    (hadj : v ∉ c.adjusted vs (ringSides existing c.edges.size)) : c'.BorderFirst v := by
  by_cases hmem : v ∈ vs
  · -- A corner that does not choose has stored a halfedge on the border.
    intro a ha haf
    obtain ⟨p, n, hk⟩ := exists_corner h.length_sides hmem
    obtain ⟨g, hg, -, -, hnone | hadjust⟩ := outgoing_joined hc h hj hk
    · obtain rfl : a = g := Option.some.inj (ha.symm.trans hg)
      exact absurd hnone haf
    · exact absurd (h.mem_adjusted.2 ⟨p, n, hk, hadjust⟩) hadj
  · refine hb.congr (hj.outgoing_other v hmem) (fun a ha => ?_) fun g hg ht => ?_
    · obtain ⟨hlive, htail⟩ := hc.outgoing hv ha
      exact facetOf_leaving_other hc h hj hmem hlive htail
    · obtain ⟨hlive, htail⟩ := (leaves_other hj hmem g).1 ⟨hg, ht⟩
      exact ⟨hlive, htail, facetOf_leaving_other hc h hj hmem hlive htail⟩

/-- The corners choose their halfedges without disturbing the links, and the other vertices store what they
stored. -/
theorem adjusted_spec :
    ((c.adjusted vs (ringSides existing c.edges.size)).foldl preferBorder c').Linked ∧
      (∀ v ∈ c.adjusted vs (ringSides existing c.edges.size),
        ((c.adjusted vs (ringSides existing c.edges.size)).foldl preferBorder c').BorderFirst v) ∧
      ∀ v, v ∉ c.adjusted vs (ringSides existing c.edges.size) →
        ((c.adjusted vs (ringSides existing c.edges.size)).foldl preferBorder c').outgoing v =
          c'.outgoing v := by
  refine preferBorders_spec (linked_joined hc h hj) fun v hv => ?_
  obtain ⟨p, n, hk, -⟩ := h.mem_adjusted.1 hv
  rw [hj.liveVertex]
  exact h.live v (corner_mem h.length_sides hk)

/-! ## Rings -/

/-- A halfedge of another facet is followed by the same one as before. -/
theorem next_interior {g : Halfedge} (hg : c.IsLive g) (hf : c.facetOf g ≠ none) :
    c'.next g = c.next g := by
  refine hj.next_off g hg.slot_lt ?_
  rintro ⟨v, p, n⟩ hk hmem
  obtain ⟨x, hx, rfl⟩ := List.mem_map.1 hmem
  rcases ((h.corner hc hk).rewires hc).border x hx with rfl | ⟨hnone, -⟩
  · obtain ⟨⟨u, hp⟩, -⟩ := sides_of_corner h.length_sides hk
    exact hf (facetOf_side hc h hj hp)
  · exact hf hnone

/-- A halfedge of another facet keeps its facet. -/
theorem facetOf_interior {g : Halfedge} (hf : c.facetOf g ≠ none) : c'.facetOf g = c.facetOf g := by
  rw [facetOf_joined hc h hj, if_neg]
  intro hmem
  obtain ⟨s, hs, rfl⟩ := List.mem_map.1 hmem
  obtain ⟨u, v, hsuv⟩ := exists_side h.length_sides hs
  exact hf (facetOf_side hc h hj hsuv)

/-- The ring of another facet is the same. -/
theorem ring_old {f : Facet} {l : List Halfedge} (hf : c.isLiveFacet f = true) (hl : c.RingOf f l) :
    c'.RingOf f l := by
  have hne : (⟨c.facets.size⟩ : Facet) ≠ f := by
    rintro rfl
    exact Nat.lt_irrefl _ (slot_lt_of_isLiveFacet hf)
  refine ⟨hl.orbit.congr fun g hg => ?_, ?_, hl.length, fun g => ?_⟩
  · obtain ⟨hlive, hfacet⟩ := (hl.mem g).1 hg
    exact next_interior hc h hj hlive (by simp [hfacet])
  · rw [hj.start_old f hf, hl.head]
  · rw [hl.mem]
    constructor
    · rintro ⟨hlive, hfacet⟩
      refine ⟨(keeps hj.toBrings hlive).1, ?_⟩
      rw [facetOf_interior hc h hj (by simp [hfacet]), hfacet]
    · rintro ⟨hlive, hfacet⟩
      -- Only the sides of the new facet got another facet, and that is none of the old ones.
      have hold : c.facetOf g = some f := by
        rw [facetOf_joined hc h hj] at hfacet
        split at hfacet
        · exact absurd (Option.some.inj hfacet) hne
        · exact hfacet
      refine ⟨?_, hold⟩
      by_contra hn
      rw [facetOf_of_new hj hlive hn] at hold
      cases hold

/-- The halfedges belong to the new facet, or to facets that were live. -/
theorem facet_live_joined (hw : ∀ {g f}, c.IsLive g → c.facetOf g = some f → c.isLiveFacet f = true)
    {g : Halfedge} {f : Facet} (hg : c'.IsLive g) (hf : c'.facetOf g = some f) :
    f = ⟨c.facets.size⟩ ∨ c.isLiveFacet f = true := by
  rw [facetOf_joined hc h hj] at hf
  split at hf
  · exact Or.inl (Option.some.inj hf).symm
  · right
    by_cases hold : c.IsLive g
    · exact hw hold hf
    · rw [facetOf_of_new hj hg hold] at hf
      cases hf

/-- The heads of the sides of the facet are its corners, each in the place of its predecessor. -/
theorem map_head_sides :
    (ringSides existing c.edges.size).map (fun s => c'.head s.inner) = successors vs := by
  refine List.ext_getElem ?_ fun i hi hi' => ?_
  · rw [List.length_map, h.length_sides, length_successors]
  · rw [List.length_map, h.length_sides] at hi
    have hj' : (i + 1) % vs.length < vs.length := Nat.mod_lt _ (by omega)
    have hmem := (mem_sides_iff h.length_sides).2 ⟨i, _, hi, hj', rfl, rfl⟩
    rw [List.getElem_map, (side_joined hc h hj hmem).2.2, getElem_successors vs hi' hj' rfl]

/-- The sides of the facet are different halfedges. -/
theorem nodup_sides : ((ringSides existing c.edges.size).map RingSide.inner).Nodup := by
  have hheads : ((ringSides existing c.edges.size).map fun s => c'.head s.inner).Nodup := by
    rw [map_head_sides hc h hj]
    exact (successors_perm vs).nodup_iff.2 h.nodup
  refine List.Nodup.of_map c'.head ?_
  rwa [List.map_map]

/-- Every side is followed by the next one, so the sides form an orbit. -/
theorem orbit_sides : Orbit c'.next ((ringSides existing c.edges.size).map RingSide.inner) := by
  refine Orbit.iff_cyclicPairs.2 ⟨nodup_sides hc h hj, fun x hx => ?_⟩
  rw [cyclicPairs_map] at hx
  obtain ⟨⟨p, n⟩, hpn, rfl⟩ := List.mem_map.1 hx
  obtain ⟨v, hk⟩ := exists_corner_between h.length_sides hpn
  exact next_side hc h hj hk

/-- The halfedges of the facet are its sides. -/
theorem mem_sides_joined (hw : ∀ {g f}, c.IsLive g → c.facetOf g = some f → c.isLiveFacet f = true)
    (g : Halfedge) : g ∈ (ringSides existing c.edges.size).map RingSide.inner ↔
      c'.IsLive g ∧ c'.facetOf g = some ⟨c.facets.size⟩ := by
  rw [facetOf_joined hc h hj]
  constructor
  · intro hg
    obtain ⟨s, hs, rfl⟩ := List.mem_map.1 hg
    obtain ⟨u, v, hsuv⟩ := exists_side h.length_sides hs
    exact ⟨(side_joined hc h hj hsuv).1, if_pos hg⟩
  · -- No other halfedge has the facet, as it is a new one.
    rintro ⟨hlive, hfacet⟩
    by_contra hg
    rw [if_neg hg] at hfacet
    by_cases hold : c.IsLive g
    · exact Nat.lt_irrefl _ (slot_lt_of_isLiveFacet (hw hold hfacet))
    · rw [facetOf_of_new hj hlive hold] at hfacet
      cases hfacet

/-- The sides of the facet are its ring, which starts at the side that comes back to the first corner. -/
theorem ring_new (hw : ∀ {g f}, c.IsLive g → c.facetOf g = some f → c.isLiveFacet f = true) :
    ∃ l, c'.RingOf ⟨c.facets.size⟩ l ∧ l.map c'.head = vs := by
  have hthree := h.three
  have hlen := h.length_sides
  obtain ⟨init, last, hsplit⟩ : ∃ init last, ringSides existing c.edges.size = init ++ [last] := by
    rcases List.eq_nil_or_concat (ringSides existing c.edges.size) with hnil | ⟨init, last, hsplit⟩
    · rw [hnil, List.length_nil] at hlen
      omega
    · exact ⟨init, last, by rw [hsplit, List.concat_eq_append]⟩
  have horbit := orbit_sides hc h hj
  have hheads := map_head_sides hc h hj
  rw [hsplit, List.map_append] at horbit
  refine ⟨last.inner :: init.map RingSide.inner, ⟨horbit.rotate, ?_, ?_, fun g => ?_⟩, ?_⟩
  · rw [hj.start_new, hsplit, List.getLast?_concat]
    rfl
  · rw [hsplit, List.length_append, List.length_singleton] at hlen
    rw [List.length_cons, List.length_map]
    omega
  · rw [← mem_sides_joined hc h hj hw, hsplit, List.map_append, List.mem_append, List.mem_cons, or_comm,
      List.map_singleton, List.mem_singleton]
  · -- The heads of the sides, from the last one on, are the corners from the first one on.
    obtain ⟨a, rest, rfl⟩ : ∃ a rest, vs = a :: rest := by
      cases vs with
      | nil => simp at hthree
      | cons a rest => exact ⟨a, rest, rfl⟩
    rw [hsplit, List.map_append, List.map_singleton] at hheads
    obtain ⟨hinit, hlast⟩ := List.append_inj' hheads rfl
    rw [List.map_cons, List.map_map]
    exact congrArg₂ List.cons (List.singleton_inj.1 hlast) hinit

/-- Every edge has a facet on one of its sides afterwards if every edge had one before. -/
theorem faced_joined (hs : c.Simple) {g : Halfedge} (hg : c'.IsLive g) (hf : c'.facetOf g = none) :
    c'.facetOf g.opposite ≠ none := by
  rw [facetOf_joined hc h hj] at hf ⊢
  split at hf
  · cases hf
  · rename_i hside
    split
    · simp
    · rename_i hside'
      by_cases hold : c.IsLive g
      · exact hs.faced hold hf
      · -- A new edge has a side of the facet.
        obtain ⟨u, v, s, hsuv, -, ⟨rfl, -⟩ | ⟨rfl, -⟩⟩ := new_halfedge hj hg hold
        · exact absurd (List.mem_map_of_mem (List.of_mem_zip hsuv).2) hside
        · rw [RingSide.outer, Halfedge.opposite_opposite] at hside'
          exact absurd (List.mem_map_of_mem (List.of_mem_zip hsuv).2) hside'

omit hc in
/-- Only live vertices store halfedges afterwards if only live ones did before. -/
theorem outgoing_live_joined (hs : c.Simple) {v : Vertex} {g : Halfedge} (ho : c'.outgoing v = some g) :
    c.isLiveVertex v = true := by
  by_cases hmem : v ∈ vs
  · exact h.live v hmem
  · rw [hj.outgoing_other v hmem] at ho
    exact hs.outgoing_live ho

end Joined

/-- Where the facet brings an edge, there was none in either direction. -/
theorem new_apart (h : c.Placement vs existing moved) (hc : c.Linked)
    (hj : c.Joins vs (ringSides existing c.edges.size) c') {a b : Halfedge} (ha : c.IsLive a)
    (hb : c'.IsLive b) (hn : ¬ c.IsLive b) (ht : c'.tail a = c'.tail b) : c'.head a ≠ c'.head b := by
  intro hh
  obtain ⟨-, ha₁, ha₂⟩ := keeps hj.toBrings ha
  obtain ⟨u, v, s, hsuv, hf, ⟨-, hb₁, hb₂⟩ | ⟨-, hb₁, hb₂⟩⟩ := new_halfedge hj hb hn
  · refine h.new hc hsuv hf ha ?_ ?_
    · rw [← ha₁, ht, hb₁]
    · rw [← ha₂, hh, hb₂]
  -- The new halfedge runs against its side, so the old one would have an opposite along the side.
  · refine h.new hc hsuv hf (g := a.opposite) ha ?_ ?_
    · rw [tail_opposite, ← ha₂, hh, hb₂]
    · rw [head_opposite, ← ha₁, ht, hb₁]

/-- Two halfedges of new edges that join the same vertices belong to the same side. -/
theorem new_unique (h : c.Placement vs existing moved)
    (hj : c.Joins vs (ringSides existing c.edges.size) c') {g g' : Halfedge} (hg : c'.IsLive g)
    (hg' : c'.IsLive g') (hn : ¬ c.IsLive g) (hn' : ¬ c.IsLive g') (ht : c'.tail g = c'.tail g')
    (hh : c'.head g = c'.head g') : g = g' := by
  obtain ⟨u, v, s, hsuv, -, hcase⟩ := new_halfedge hj hg hn
  obtain ⟨u', v', s', hsuv', -, hcase'⟩ := new_halfedge hj hg' hn'
  have hpair := (List.of_mem_zip hsuv).1
  have hpair' := (List.of_mem_zip hsuv').1
  -- Each of the two is the inner or the outer halfedge of its side. If they are of different kinds, the facet would
  -- have a side in both directions.
  rcases hcase with ⟨rfl, h₁, h₂⟩ | ⟨rfl, h₁, h₂⟩ <;>
    rcases hcase' with ⟨rfl, h₁', h₂'⟩ | ⟨rfl, h₁', h₂'⟩ <;>
    rw [h₁, h₁'] at ht <;> rw [h₂, h₂'] at hh <;> subst ht <;> subst hh
  · have hsame := side_ext_left h.nodup h.length_sides hsuv hsuv' rfl
    rw [(Prod.mk.inj hsame).2]
  · exact absurd hpair' (side_ends_swap h.nodup h.three hpair)
  · exact absurd hpair' (side_ends_swap h.nodup h.three hpair)
  · have hsame := side_ext_left h.nodup h.length_sides hsuv hsuv' rfl
    rw [(Prod.mk.inj hsame).2]

/-- No two halfedges join the same vertices afterwards if none did before. -/
theorem unique_joined (h : c.Placement vs existing moved) (hc : c.Linked)
    (hj : c.Joins vs (ringSides existing c.edges.size) c') (hs : c.Simple) {g g' : Halfedge}
    (hg : c'.IsLive g) (hg' : c'.IsLive g') (ht : c'.tail g = c'.tail g')
    (hh : c'.head g = c'.head g') : g = g' := by
  -- A new halfedge joins two vertices that no old one joins.
  by_cases hold : c.IsLive g <;> by_cases hold' : c.IsLive g'
  · obtain ⟨-, h₁, h₂⟩ := keeps hj.toBrings hold
    obtain ⟨-, h₁', h₂'⟩ := keeps hj.toBrings hold'
    exact hs.unique hold hold' (h₁ ▸ h₁' ▸ ht) (h₂ ▸ h₂' ▸ hh)
  · exact absurd hh (h.new_apart hc hj hold hg' hold' ht)
  · exact absurd hh.symm (h.new_apart hc hj hold' hg hold ht.symm)
  · exact h.new_unique hj hg hg' hold hold' ht hh

end Placement

/-! ## The attached facet -/

/-- What a mesh looks like after a facet was attached along a list of vertices. -/
structure Attached (c : Connectivity) (vs : List Vertex) (c' : Connectivity) : Prop where
  /-- There are as many vertices. -/
  size_vertices : c'.vertices.size = c.vertices.size
  /-- There is one more facet. -/
  size_facets : c'.facets.size = c.facets.size + 1
  /-- The same vertices are live. -/
  liveVertex : ∀ v, c'.isLiveVertex v = c.isLiveVertex v
  /-- The facet is live, and so are those that were. -/
  liveFacet : ∀ g, c'.isLiveFacet g = true ↔ g = ⟨c.facets.size⟩ ∨ c.isLiveFacet g = true
  /-- The links are in order. -/
  wellFormed : c'.WellFormed
  /-- The facet has the corners that it was attached along. -/
  corners_new : c'.corners ⟨c.facets.size⟩ = vs
  /-- The other facets have their corners. -/
  corners_old : ∀ g, c.isLiveFacet g = true → c'.corners g = c.corners g

/-- A facet that fits is attached along its corners, and nothing else changes. -/
theorem WellFormed.attached (hc : c.WellFormed) (h : c.Placement vs existing moved) :
    (c.attach vs (ringSides existing c.edges.size) moved).1 = ⟨c.facets.size⟩ ∧
      c.Attached vs (c.attach vs (ringSides existing c.edges.size) moved).2 := by
  have hlinked := hc.toLinked
  have hj := h.joins hlinked
  have hsame := (c.joined vs (ringSides existing c.edges.size) moved).sameLinks_preferBorders
    (c.adjusted vs (ringSides existing c.edges.size))
  obtain ⟨hafter, hfirst, hkeep⟩ := Placement.adjusted_spec hlinked h hj
  obtain ⟨l, hl, hcorners⟩ := Placement.ring_new hlinked h hj fun hg hf => hc.facet_live hg hf
  rw [attach_eq]
  -- What the corners choose changes no links, so all else is read off the mesh after the linking.
  generalize (c.adjusted vs (ringSides existing c.edges.size)).foldl preferBorder
    (c.joined vs (ringSides existing c.edges.size) moved) = c₂ at hsame hafter hfirst hkeep
  have hliveFacet : ∀ g, c₂.isLiveFacet g = true ↔ g = ⟨c.facets.size⟩ ∨ c.isLiveFacet g = true := by
    intro g
    rw [hsame.isLiveFacet, hj.liveFacet]
  have hring : ∀ f, c.isLiveFacet f = true → ∃ l, c.RingOf f l ∧ c₂.RingOf f l := by
    intro f hf
    obtain ⟨l, hl⟩ := hc.ring hf
    exact ⟨l, hl, hsame.ringOf (Placement.ring_old hlinked h hj hf hl)⟩
  have hwell : c₂.WellFormed := {
    toLinked := hafter
    borderFirst := by
      intro v hv
      rw [hsame.live, hj.liveVertex] at hv
      by_cases hadj : v ∈ c.adjusted vs (ringSides existing c.edges.size)
      · exact hfirst v hadj
      · exact hsame.borderFirst (hkeep v hadj)
          (Placement.borderFirst_joined hlinked h hj hv (hc.borderFirst hv) hadj)
    facet_live := by
      intro g f hg hf
      rw [hsame.isLive] at hg
      rw [hsame.facetOf] at hf
      exact (hliveFacet f).2
        (Placement.facet_live_joined hlinked h hj (fun hg hf => hc.facet_live hg hf) hg hf)
    ring := by
      intro f hf
      rcases (hliveFacet f).1 hf with rfl | hf
      · exact ⟨l, hsame.ringOf hl⟩
      · obtain ⟨l, -, hl⟩ := hring f hf
        exact ⟨l, hl⟩
  }
  exact ⟨rfl, {
    size_vertices := hsame.size.trans hj.size_vertices
    size_facets := by rw [hsame.facets, hj.size_facets]
    liveVertex := fun v => (hsame.live v).trans (hj.liveVertex v)
    liveFacet := hliveFacet
    wellFormed := hwell
    corners_new := by
      calc c₂.corners ⟨c.facets.size⟩ = l.map c₂.head := (hsame.ringOf hl).corners_eq
        _ = l.map (c.joined vs (ringSides existing c.edges.size) moved).head :=
          List.map_congr_left fun g _ => hsame.head g
        _ = vs := hcorners
    corners_old := by
      intro f hf
      obtain ⟨l, hl, hl'⟩ := hring f hf
      have hhead : ∀ g ∈ l, c₂.head g = c.head g := by
        intro g hg
        rw [hsame.head, (Placement.keeps hj.toBrings ((hl.mem g).1 hg).1).2.2]
      calc c₂.corners f = l.map c₂.head := hl'.corners_eq
        _ = l.map c.head := List.map_congr_left hhead
        _ = c.corners f := hl.corners_eq.symm
  }⟩

/-- Meshes that are built facet by facet stay so. -/
theorem Simple.attached (hs : c.Simple) (hc : c.WellFormed) (h : c.Placement vs existing moved) :
    (c.attach vs (ringSides existing c.edges.size) moved).2.Simple := by
  have hlinked := hc.toLinked
  have hj := h.joins hlinked
  have hsame := (c.joined vs (ringSides existing c.edges.size) moved).sameLinks_preferBorders
    (c.adjusted vs (ringSides existing c.edges.size))
  obtain ⟨-, -, hkeep⟩ := Placement.adjusted_spec hlinked h hj
  rw [attach_eq]
  refine ⟨?_, ?_, ?_⟩
  · intro g hg hf
    rw [hsame.isLive] at hg
    rw [hsame.facetOf] at hf ⊢
    exact Placement.faced_joined hlinked h hj hs hg hf
  · intro g g' hg hg' ht hh
    rw [hsame.isLive] at hg hg'
    rw [hsame.tail, hsame.tail] at ht
    rw [hsame.head, hsame.head] at hh
    exact h.unique_joined hlinked hj hs hg hg' ht hh
  -- A corner that has chosen was live all along, and the other vertices store what they did when the facet was joined.
  · intro v g ho
    rw [hsame.live, hj.liveVertex]
    by_cases hadj : v ∈ c.adjusted vs (ringSides existing c.edges.size)
    · obtain ⟨p, n, hk, -⟩ := h.mem_adjusted.1 hadj
      exact h.live v (corner_mem h.length_sides hk)
    · rw [hkeep v hadj] at ho
      exact Placement.outgoing_live_joined h hj hs ho

/-! ## Adding a facet -/

/-- A facet is refused while its sides and the links to be moved are looked for, before anything is changed, or
because it has fewer than two corners. -/
theorem addFacet_eq (vs : List Vertex) (c : Connectivity) : Connectivity.addFacet vs c =
    match (cyclicPairs vs).mapM c.borderSide with
    | .error e => (.error e, c)
    | .ok existing =>
      match c.relinks existing with
      | .error e => (.error e, c)
      | .ok moved =>
        if vs.length < 2 then (.error .patchRelinkingFailed, c)
        else (.ok (c.attach vs (ringSides existing c.edges.size) moved).1,
          (c.attach vs (ringSides existing c.edges.size) moved).2) := by
  unfold Connectivity.addFacet
  cases hsides : (cyclicPairs vs).mapM c.borderSide with
  | error e => rfl
  | ok existing =>
    cases hmoved : c.relinks existing with
    | error e => simp [hmoved]
    | ok moved =>
      have hlen : (ringSides existing c.edges.size).length = vs.length := by
        rw [length_ringSides, (zip_of_mapM hsides).1, length_cyclicPairs]
      simp only [hmoved]
      rcases Nat.lt_trichotomy vs.length 1 with hnone | hone | htwo
      · -- Without corners there are no sides, so there is nothing to be changed.
        obtain rfl : vs = [] := List.length_eq_zero_iff.1 (Nat.lt_one_iff.1 hnone)
        have hsides : ringSides existing c.edges.size = [] := List.length_eq_zero_iff.1 hlen
        rw [hsides]
        rfl
      · rw [if_pos hone, if_pos (by omega)]
      · rw [if_neg (by omega), if_neg (by omega), attachAlong_eq hlen (List.ne_nil_of_length_pos (by omega))]

/-- A facet is added if its sides and the links to be moved are found, and it has two corners. -/
theorem addFacet_eq_ok {f : Facet} : Connectivity.addFacet vs c = (.ok f, c') ↔
    ∃ existing moved, (cyclicPairs vs).mapM c.borderSide = .ok existing ∧
      c.relinks existing = .ok moved ∧ 2 ≤ vs.length ∧
        c.attach vs (ringSides existing c.edges.size) moved = (f, c') := by
  rw [addFacet_eq]
  cases hsides : (cyclicPairs vs).mapM c.borderSide with
  | error e => simp
  | ok existing =>
    cases hmoved : c.relinks existing with
    | error e => simp [hmoved]
    | ok moved =>
      by_cases htwo : vs.length < 2
      · have hnot : ¬ 2 ≤ vs.length := by omega
        simp [hmoved, htwo, hnot]
      · have hle : 2 ≤ vs.length := by omega
        simp [hmoved, htwo, hle, Prod.ext_iff]

/-- A facet that is refused changes nothing. -/
theorem addFacet_eq_error {e : BuildError} (h : Connectivity.addFacet vs c = (.error e, c')) :
    c' = c := by
  rw [addFacet_eq] at h
  -- Every refusal comes before the first change.
  split at h
  · exact (Prod.mk.inj h).2.symm
  · split at h
    · exact (Prod.mk.inj h).2.symm
    · split at h
      · exact (Prod.mk.inj h).2.symm
      · cases (Prod.mk.inj h).1

/-- A facet that is added leaves the vertices in their places, and none is added or deleted. -/
theorem liveVertex_addFacet {f : Facet} (h : Connectivity.addFacet vs c = (.ok f, c')) :
    c'.vertices.size = c.vertices.size ∧ ∀ v, c'.isLiveVertex v = c.isLiveVertex v := by
  obtain ⟨existing, moved, hsides, -, -, hattach⟩ := addFacet_eq_ok.1 h
  have hlen : existing.length = vs.length := by rw [(zip_of_mapM hsides).1, length_cyclicPairs]
  have hbrings := brings_joined (c := c) hlen moved
  have hsame := (c.joined vs (ringSides existing c.edges.size) moved).sameLinks_preferBorders
    (c.adjusted vs (ringSides existing c.edges.size))
  rw [attach_eq] at hattach
  rw [← (Prod.mk.inj hattach).2]
  exact ⟨hsame.size.trans hbrings.size_vertices, fun v => (hsame.live v).trans (hbrings.liveVertex v)⟩

/-- The causes for which a facet does not fit. -/
inductive MisfitCause : BuildError → Prop
  /-- No facet fits at a corner. -/
  | complexVertex (v : Vertex) : MisfitCause (.complexVertex v)
  /-- A side has a facet already. -/
  | complexHalfedge (h : Halfedge) : MisfitCause (.complexHalfedge h)
  /-- The border would fall apart. -/
  | patchRelinkingFailed : MisfitCause .patchRelinkingFailed

/-- A side that is refused has a facet already, or starts at a vertex where no facet fits. -/
theorem misfitCause_of_borderSide {p : Vertex × Vertex} (h : c.borderSide p = .error e) : MisfitCause e := by
  unfold borderSide at h
  split at h
  · split at h
    · split at h
      · cases h
      · obtain rfl := Except.error.inj h
        exact .complexHalfedge _
    · cases h
  · obtain rfl := Except.error.inj h
    exact .complexVertex _

/-- Two sides are brought together or the relinking fails. -/
theorem relink_eq_error {p n : Halfedge} (h : c.relink p n = .error e) : e = .patchRelinkingFailed := by
  unfold relink at h
  split at h
  · exact (Except.error.inj h).symm
  · split at h
    · exact (Except.error.inj h).symm
    · cases h

/-- All sides are brought together or the relinking fails. -/
theorem relinks_eq_error {sides : List (Option Halfedge)} (h : c.relinks sides = .error e) :
    e = .patchRelinkingFailed := by
  rcases bind_eq_error.1 h with hcorner | ⟨_, -, hend⟩
  · obtain ⟨⟨p, n⟩, -, hpn⟩ := exists_of_mapM_eq_error hcorner
    -- Only a corner between two existing sides that are apart can be refused.
    split at hpn
    · split at hpn
      · cases hpn
      · exact relink_eq_error hpn
    · cases hpn
  · cases hend

/-- A facet that is refused does not fit. -/
theorem misfitCause_of_addFacet (h : Connectivity.addFacet vs c = (.error e, c')) : MisfitCause e := by
  rw [addFacet_eq] at h
  -- There are three exits: a side is taken, the sides cannot be brought together, or there are too few corners.
  split at h
  · rename_i hsides
    obtain rfl := Except.error.inj (Prod.mk.inj h).1
    obtain ⟨p, -, hp⟩ := exists_of_mapM_eq_error hsides
    exact misfitCause_of_borderSide hp
  · split at h
    · rename_i hmoved
      obtain rfl := Except.error.inj (Prod.mk.inj h).1
      rw [relinks_eq_error hmoved]
      exact .patchRelinkingFailed
    · split at h
      · obtain rfl := Except.error.inj (Prod.mk.inj h).1
        exact .patchRelinkingFailed
      · cases (Prod.mk.inj h).1

/-- A facet on at least three different live vertices that is not refused is attached along them. -/
theorem WellFormed.addFacet (hc : c.WellFormed) (hlive : ∀ v ∈ vs, c.isLiveVertex v = true)
    (hn : vs.Nodup) (hthree : 3 ≤ vs.length) {f : Facet}
    (h : Connectivity.addFacet vs c = (.ok f, c')) :
    f = ⟨c.facets.size⟩ ∧ c.Attached vs c' ∧ (c.Simple → c'.Simple) := by
  obtain ⟨existing, moved, hsides, hmoved, -, hattach⟩ := addFacet_eq_ok.1 h
  have hplace : c.Placement vs existing moved := ⟨hlive, hn, hthree, hsides, hmoved⟩
  obtain ⟨hf, hattached⟩ := hc.attached hplace
  rw [hattach] at hf hattached
  refine ⟨hf, hattached, fun hs => ?_⟩
  have hsimple := hs.attached hc hplace
  rwa [hattach] at hsimple

/-- No halfedge is found that would lead to a vertex that is not live. -/
theorem WellFormed.find?_eq_none_of_dead (hc : c.WellFormed) (hs : c.Simple) (u : Vertex) {v : Vertex}
    (hdead : c.isLiveVertex v ≠ true) : c.find? u v = none := by
  by_cases hu : c.isLiveVertex u = true
  · cases hf : c.find? u v with
    | none => rfl
    | some g =>
      obtain ⟨hlive, -, hhead⟩ := hc.find?_eq_some hu hf
      exact absurd (hhead ▸ hc.head_live hlive) hdead
  · -- The vertex to start from stores no halfedge if it is not live either.
    have hnone : c.outgoing u = none := by
      cases ho : c.outgoing u with
      | none => rfl
      | some g => exact absurd (hs.outgoing_live ho) hu
    unfold find? fan
    rw [hnone]
    rfl

/-- If a corner of a facet that is added is not live, a live halfedge points to it afterwards. -/
theorem exists_dead_head (hc : c.WellFormed) (hs : c.Simple) {v : Vertex} (hv : v ∈ vs)
    (hdead : c.isLiveVertex v ≠ true) {f : Facet}
    (h : Connectivity.addFacet vs c = (.ok f, c')) :
    ∃ g, c'.IsLive g ∧ c'.isLiveVertex (c'.head g) ≠ true := by
  obtain ⟨existing, moved, hsides, -, -, hattach⟩ := addFacet_eq_ok.1 h
  have hlen : existing.length = vs.length := by
    rw [(zip_of_mapM hsides).1, length_cyclicPairs]
  have hlen' : (ringSides existing c.edges.size).length = vs.length := by
    rw [length_ringSides, hlen]
  obtain ⟨p, n, hk⟩ := exists_corner hlen' hv
  obtain ⟨⟨u, hp⟩, -⟩ := sides_of_corner hlen' hk
  -- No edge led to the vertex, so the facet brings one.
  have hfresh : p.fresh = true := by
    obtain ⟨-, hfind, -⟩ := side_of_mapM hsides hp
    rw [← RingSide.existing_eq_none, ← hfind]
    exact hc.find?_eq_none_of_dead hs u hdead
  have hb := brings_joined (c := c) hlen moved
  have hsame := (c.joined vs (ringSides existing c.edges.size) moved).sameLinks_preferBorders
    (c.adjusted vs (ringSides existing c.edges.size))
  rw [attach_eq] at hattach
  rw [(Prod.mk.inj hattach).2] at hsame
  refine ⟨p.inner, (hsame.isLive _).2 ((hb.live _).2 (Or.inr ⟨_, hp, hfresh, rfl⟩)), ?_⟩
  rw [hsame.live, hsame.head, (hb.ends _ hp hfresh).2, hb.liveVertex]
  exact hdead

end Connectivity

end RegionMesh
