import RegionMesh.Proofs.Connectivity.Adjacency
import RegionMesh.Proofs.Connectivity.Corner

/-!
# Turning around a vertex

A facet with three consecutive corners `u`, `v` and `w` takes a turn at `v`. Turning right around a vertex from facet
to facet, one meets the turns of these facets (`WellFormed.turn_of_facet`). Around a vertex that is enclosed by facets
they form a cycle (`WellFormed.enclosed_cycle`). Where two halfedges on the border are to become consecutive sides of a
facet, there is a gap to which the fans between them can be moved, or the turns from the second one lead to the first
one while other facets hang at the vertex (`WellFormed.gap_or_cycle`).
-/

namespace RegionMesh

/-- The last element of a cyclic list is followed by the first one. -/
theorem mem_cyclicPairs_concat {α : Type} {a b : α} {l : List α} {x : α × α} :
    x ∈ cyclicPairs (a :: (l ++ [b])) ↔ x ∈ (a :: l).zip (l ++ [b]) ∨ x = (b, a) := by
  have hlen : (a :: l).length = (l ++ [b]).length := by simp
  have hpairs : cyclicPairs (a :: (l ++ [b])) = (a :: l).zip (l ++ [b]) ++ [(b, a)] := by
    change ((a :: l) ++ [b]).zip ((l ++ [b]) ++ [a]) = _
    rw [List.zip_append hlen]
    rfl
  rw [hpairs, List.mem_append, List.mem_singleton]

namespace Connectivity

variable {c : Connectivity} {v : Vertex} {f : Facet} {g h p n : Halfedge}

/-- Where one side on the border ends and another one starts, turning right from the second one leads to a gap, past the
first side or not. -/
theorem exists_gap_behind (hc : c.Linked) (hp : c.IsLive p) (hn : c.IsLive n) (hpn : c.tail n = c.head p)
    (hends : c.head n ≠ c.tail p) (hpb : c.facetOf p = none) :
    ∃ k y m, c.FanAt (c.head p) (n :: (k ++ y :: m)) ∧ (∀ x ∈ k, c.facetOf x.opposite ≠ none) ∧
      c.gapAfter n.opposite = some y.opposite := by
  obtain ⟨r, hr⟩ := hc.fan_from hn
  rw [hpn] at hr
  -- The first side bounds a fan of the same vertex, and is not the second one.
  have hq : p.opposite ∈ r := by
    have hmem : p.opposite ∈ n :: r := (hr.mem _).2 ⟨hp, tail_opposite p⟩
    refine (List.mem_cons.1 hmem).resolve_left ?_
    rintro rfl
    exact hends (head_opposite p)
  have hqb : c.facetOf p.opposite.opposite = none := by rwa [Halfedge.opposite_opposite]
  obtain ⟨k, y, m, rfl, hk, -, hgap⟩ := exists_gapAfter hr hq hqb
  exact ⟨k, y, m, hr, hk, hgap⟩

namespace WellFormed

/-- Turning right past a facet, one passes its turn at the vertex. -/
theorem turn_of_facet (hc : c.WellFormed) (hh : c.IsLive h) (hf : c.facetOf h.opposite = some f) :
    (c.head h, c.tail h) ∈ cyclicPairs (c.corners f) ∧
      (c.tail h, c.head (c.turnRight h)) ∈ cyclicPairs (c.corners f) := by
  -- The facet comes along the opposite halfedge and turns into the one behind it.
  have hin := hc.ends_mem (h := h.opposite) hh hf
  obtain ⟨hlive, htail⟩ := hc.next_live (h := h.opposite) hh
  have hout := hc.ends_mem hlive ((hc.facet_next (h := h.opposite) hh).trans hf)
  unfold ends at hin hout
  rw [tail_opposite, head_opposite] at hin
  rw [htail, head_opposite] at hout
  exact ⟨hin, hout⟩

/-- A facet's turn at a vertex is passed when turning right from the halfedge that leads to the first of its
corners. -/
theorem exists_turn (hc : c.WellFormed) (hf : c.isLiveFacet f = true) (hn : (c.corners f).Nodup) {u w : Vertex}
    (hin : (u, v) ∈ cyclicPairs (c.corners f)) (hout : (v, w) ∈ cyclicPairs (c.corners f)) :
    ∃ h, c.IsLive h ∧ c.tail h = v ∧ c.head h = u ∧ c.head (c.turnRight h) = w := by
  have hring := hc.ringOf hf
  obtain ⟨p, hp, hpf, hpends⟩ := (hc.mem_cyclicPairs_corners hf).1 hin
  obtain ⟨n, hn', hnf, hnends⟩ := (hc.mem_cyclicPairs_corners hf).1 hout
  obtain ⟨rfl, rfl⟩ := Prod.mk.inj hpends
  obtain ⟨htail, rfl⟩ := Prod.mk.inj hnends
  -- The halfedge before `n` in the ring points to the same corner as `p`.
  obtain ⟨hq, hqhead, hqnext⟩ := hc.prev_live hn'
  have hqf : c.facetOf (c.prev n) = some f := (hc.facet_prev hn').trans hnf
  have hqp : c.prev n = p := by
    refine List.inj_on_of_nodup_map hn ((hring.mem _).2 ⟨hq, hqf⟩) ((hring.mem p).2 ⟨hp, hpf⟩) ?_
    rw [hqhead, htail]
  rw [hqp] at hqnext
  refine ⟨p.opposite, hp, tail_opposite p, rfl, ?_⟩
  rw [turnRight, Halfedge.opposite_opposite, hqnext]

/-- Around a vertex that is enclosed by facets the halfedges form a cycle without a gap. -/
theorem enclosed_cycle (hc : c.WellFormed) (hv : c.isLiveVertex v = true) (hb : c.isBorderVertex v = false) :
    ∃ l, l ≠ [] ∧ c.FanAt v l ∧ ∀ g ∈ l, c.facetOf g.opposite ≠ none := by
  unfold isBorderVertex at hb
  cases ho : c.outgoing v with
  | none => simp [ho] at hb
  | some h =>
    rw [ho] at hb
    have hhf : c.facetOf h ≠ none := fun hnone => by simp [(isBorder_iff h).2 hnone] at hb
    obtain ⟨hh, rfl⟩ := hc.outgoing hv ho
    obtain ⟨r, hr⟩ := hc.fan_from hh
    refine ⟨h :: r, by simp, hr, fun g hg => ?_⟩
    obtain ⟨hglive, -⟩ := (hr.mem g).1 hg
    obtain ⟨hlive, htail⟩ := (hr.mem _).1 (hr.orbit.step_mem hg)
    -- The next halfedge around the vertex has the facet of the opposite one, and it leaves the vertex, so it is not on
    -- the border.
    rw [← hc.facet_next (h := g.opposite) hglive]
    exact hc.borderFirst hv h ho hhf _ hlive htail

/-- Where two halfedges on the border meet, there is a gap behind the second one, or turning right from it one comes
to the first one and leaves out a halfedge on the border. -/
theorem gap_or_cycle (hc : c.WellFormed) (hs : c.Simple) (hp : c.IsLive p) (hn : c.IsLive n)
    (hpn : c.tail n = c.head p) (hends : c.head n ≠ c.tail p) (hpb : c.facetOf p = none)
    (hnb : c.facetOf n = none) (hne : c.next p ≠ n) :
    (∃ g, c.gapAfter n.opposite = some g ∧ g ≠ p) ∨
      ∃ k, Leads c.turnRight (n :: k) p.opposite ∧
        (∀ x ∈ n :: k, c.IsLive x ∧ c.tail x = c.head p ∧ c.facetOf x.opposite ≠ none) ∧
        c.next p ∉ n :: (k ++ [p.opposite]) := by
  obtain ⟨k, y, m, hr, hk, hgap⟩ := exists_gap_behind hc.toLinked hp hn hpn hends hpb
  by_cases hy : y.opposite = p
  · right
    obtain rfl : y = p.opposite := by rw [← hy, Halfedge.opposite_opposite]
    refine ⟨k, hr.orbit.leads_to, fun x hx => ?_, ?_⟩
    · have hxr : x ∈ n :: (k ++ p.opposite :: m) := by
        rcases List.mem_cons.1 hx with rfl | hx
        · exact List.mem_cons_self
        · exact List.mem_cons_of_mem n (List.mem_append_left _ hx)
      obtain ⟨hxlive, hxtail⟩ := (hr.mem x).1 hxr
      refine ⟨hxlive, hxtail, ?_⟩
      rcases List.mem_cons.1 hx with rfl | hx
      · exact hs.faced hn hnb
      · exact hk x hx
    · -- What comes behind the first halfedge is not the second one, so something hangs between them.
      have hturn : c.turnRight p.opposite = c.next p := by rw [turnRight, Halfedge.opposite_opposite]
      cases m with
      | nil => exact absurd (hturn.symm.trans (hr.orbit.step_last (by simp))) hne
      | cons z m =>
        have hz : c.next p = z := hturn.symm.trans (hr.orbit.step_append (k := n :: k))
        have hnodup := hr.orbit.nodup
        rw [show n :: (k ++ p.opposite :: z :: m) = (n :: (k ++ [p.opposite])) ++ z :: m by simp] at hnodup
        rw [hz]
        intro hmem
        exact (List.disjoint_of_nodup_append hnodup) hmem List.mem_cons_self
  · exact Or.inl ⟨_, hgap, hy⟩

end WellFormed

end Connectivity

end RegionMesh
