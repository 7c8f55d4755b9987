import RegionMesh.Proofs.Connectivity.Refused
import RegionMesh.Proofs.Mesh.Sound

/-!
# Facets that fit together

Whether facets can be put together in one mesh is a question about their corners (`Fits`): no two facets may have the
same pair of consecutive corners, and where the turns of some facets at a vertex form a cycle, no other facet may have
a corner there. Fewer facets fit together if more do (`Fits.mono`), and it does not matter what the corners are called
(`Fits.of_map`) and from which side the facets are seen (`Fits.mirror`).

The facets of a sound mesh fit together (`Mesh.Sound.fits`). A facet that fits together with them is no misfit on its
links (`Mesh.Sound.not_misfit_of_fits`), so the mesh accepts it (`Mesh.Sound.exists_addFacet`), however its links have
come about.
-/

namespace RegionMesh

/-! ## Lists of corners -/

/-- A facet has three consecutive corners, the second one of which is the vertex. -/
def Turns (corners : ℕ → Option (List Vertex)) (v u w : Vertex) : Prop :=
  ∃ id l, corners id = some l ∧ (u, v) ∈ cyclicPairs l ∧ (v, w) ∈ cyclicPairs l

/-- Facets with these corners can be put together in one mesh. -/
structure Fits (corners : ℕ → Option (List Vertex)) : Prop where
  /-- Two vertices are consecutive corners of one facet at most. -/
  once : ∀ {i j k l x}, corners i = some k → corners j = some l → x ∈ cyclicPairs k →
    x ∈ cyclicPairs l → i = j
  /-- Where turns form a cycle, there is no turn outside it. -/
  around : ∀ {v r}, r ≠ [] → (∀ x ∈ cyclicPairs r, Turns corners v x.1 x.2) →
    ∀ {u w}, Turns corners v u w → u ∈ r

/-- Turns stay when there are more facets. -/
theorem Turns.mono {corners corners' : ℕ → Option (List Vertex)} {v u w : Vertex}
    (h : Turns corners v u w) (hle : ∀ id l, corners id = some l → corners' id = some l) :
    Turns corners' v u w := by
  obtain ⟨id, l, hl, hin, hout⟩ := h
  exact ⟨id, l, hle id l hl, hin, hout⟩

/-- Fewer facets fit together if more do. -/
theorem Fits.mono {corners corners' : ℕ → Option (List Vertex)} (h : Fits corners')
    (hle : ∀ id l, corners id = some l → corners' id = some l) : Fits corners := by
  refine ⟨fun hk hl hxk hxl => h.once (hle _ _ hk) (hle _ _ hl) hxk hxl, fun hr hcycle u w hturn => ?_⟩
  exact h.around hr (fun x hx => (hcycle x hx).mono hle) (hturn.mono hle)

/-- Facets fit together if they do under other names for their corners. -/
theorem Fits.of_map {corners corners' : ℕ → Option (List Vertex)} {f : Vertex → Vertex} (h : Fits corners')
    (hmap : ∀ id l, corners id = some l → corners' id = some (l.map f))
    (hinj : ∀ {i j k l u v}, corners i = some k → corners j = some l → u ∈ k → v ∈ l → f u = f v → u = v) :
    Fits corners := by
  have hpair : ∀ {l : List Vertex} {x}, x ∈ cyclicPairs l → (f x.1, f x.2) ∈ cyclicPairs (l.map f) := by
    intro l x hx
    rw [cyclicPairs_map]
    exact List.mem_map_of_mem hx
  have hturns : ∀ {v u w}, Turns corners v u w → Turns corners' (f v) (f u) (f w) := by
    rintro v u w ⟨id, l, hl, hin, hout⟩
    exact ⟨id, l.map f, hmap id l hl, hpair hin, hpair hout⟩
  refine ⟨fun hk hl hxk hxl => h.once (hmap _ _ hk) (hmap _ _ hl) (hpair hxk) (hpair hxl), ?_⟩
  intro v r hr hcycle u w hturn
  have hmem : f u ∈ r.map f := by
    refine h.around (by simpa using hr) (fun x hx => ?_) (hturns hturn)
    rw [cyclicPairs_map] at hx
    obtain ⟨y, hy, rfl⟩ := List.mem_map.1 hx
    exact hturns (hcycle y hy)
  -- What has the same name is the same, as both are corners.
  obtain ⟨u', hu', he⟩ := List.mem_map.1 hmem
  obtain ⟨b, hb⟩ := exists_successor hu'
  obtain ⟨j, l, hl, hin, -⟩ := hcycle _ hb
  obtain ⟨i, k, hk, hin', -⟩ := hturn
  obtain rfl : u' = u := hinj hl hk (mem_of_mem_cyclicPairs hin).1 (mem_of_mem_cyclicPairs hin').1 he
  exact hu'

/-- Facets fit together if they do seen from behind, which turns their sides round. -/
theorem Fits.mirror {corners corners' : ℕ → Option (List Vertex)} {g : ℕ → ℕ} (h : Fits corners')
    (hmirror : ∀ id l, corners id = some l → ∃ l', corners' (g id) = some l' ∧
      ∀ x ∈ cyclicPairs l, x.swap ∈ cyclicPairs l')
    (hg : ∀ {i j k l}, corners i = some k → corners j = some l → g i = g j → i = j)
    (hn : ∀ id l, corners id = some l → l.Nodup) : Fits corners := by
  have honce : ∀ {i j k l x}, corners i = some k → corners j = some l → x ∈ cyclicPairs k →
      x ∈ cyclicPairs l → i = j := by
    intro i j k l x hk hl hxk hxl
    obtain ⟨k', hk', hswap⟩ := hmirror i k hk
    obtain ⟨l', hl', hswap'⟩ := hmirror j l hl
    exact hg hk hl (h.once hk' hl' (hswap x hxk) (hswap' x hxl))
  have hturns : ∀ {v u w}, Turns corners v u w → Turns corners' v w u := by
    rintro v u w ⟨id, l, hl, hin, hout⟩
    obtain ⟨l', hl', hswap⟩ := hmirror id l hl
    exact ⟨g id, l', hl', hswap _ hout, hswap _ hin⟩
  refine ⟨honce, fun {v r} hr hcycle u w hturn => ?_⟩
  -- Seen from behind, the cycle goes round the other way and meets the end of the turn.
  have hmem : w ∈ r.reverse := by
    refine h.around (by simpa using hr) (fun x hx => hturns (hcycle x.swap ?_)) (hturns hturn)
    exact mem_cyclicPairs_reverse.1 hx
  obtain ⟨a, ha⟩ := exists_predecessor (List.mem_reverse.1 hmem)
  -- The turn of the cycle that ends there is the same turn, as its facet has the same side.
  obtain ⟨i, k, hk, hin, hout⟩ := hcycle _ ha
  obtain ⟨j, l, hl, hin', hout'⟩ := hturn
  obtain rfl := honce hk hl hout hout'
  obtain rfl := Option.some.inj (hk.symm.trans hl)
  obtain rfl := pair_ext_right (hn i k hk) hin hin'
  exact (mem_of_mem_cyclicPairs ha).1

namespace Mesh

variable {m : Mesh} {v : Vertex} {h : Halfedge}

/-- Turning right past a facet, one takes its turn. -/
theorem Sound.turns_of_facetOf (hm : m.Sound) (hh : m.links.IsLive h) (hf : m.links.facetOf h.opposite ≠ none) :
    Turns m.facetCorners (m.links.tail h) (m.links.head h) (m.links.head (m.links.turnRight h)) := by
  obtain ⟨f, hf⟩ := Option.ne_none_iff_exists'.1 hf
  have hlive := hm.wellFormed.facet_live (h := h.opposite) hh hf
  exact ⟨m.facetId f, _, hm.facetCorners_eq_some.2 ⟨f, hlive, rfl, rfl⟩, hm.wellFormed.turn_of_facet hh hf⟩

/-- Every turn is taken when turning right. -/
theorem Sound.exists_of_turns (hm : m.Sound) {u w : Vertex} (hturn : Turns m.facetCorners v u w) :
    ∃ h, m.links.IsLive h ∧ m.links.tail h = v ∧ m.links.head h = u ∧ m.links.head (m.links.turnRight h) = w := by
  obtain ⟨id, l, hl, hin, hout⟩ := hturn
  obtain ⟨f, hf, -, rfl⟩ := hm.facetCorners_eq_some.1 hl
  exact hm.wellFormed.exists_turn hf (hm.nodup f hf) hin hout

/-- The facets of a sound mesh fit together. -/
theorem Sound.fits (hm : m.Sound) : Fits m.facetCorners := by
  constructor
  · intro i j k l x hk hl hxk hxl
    obtain ⟨f, hf, rfl, rfl⟩ := hm.facetCorners_eq_some.1 hk
    obtain ⟨g, hg, rfl, rfl⟩ := hm.facetCorners_eq_some.1 hl
    rw [hm.wellFormed.side_unique hm.simple hf hg hxk hxl]
  · intro v r hr hcycle u w hturn
    obtain ⟨g, hg, rfl, rfl, -⟩ := hm.exists_of_turns hturn
    obtain ⟨l, hl⟩ := hm.wellFormed.fan (hm.wellFormed.tail_live hg)
    -- Turning right does not leave the cycle, and meets everything around the vertex.
    have hstep : ∀ h ∈ l, m.links.head h ∈ r → m.links.head (m.links.turnRight h) ∈ r := by
      intro h hh hmem
      obtain ⟨hlive, htail⟩ := (hl.mem h).1 hh
      obtain ⟨b, hb⟩ := exists_successor hmem
      obtain ⟨h', hlive', htail', hhead', rfl⟩ := hm.exists_of_turns (hcycle _ hb)
      obtain rfl : h' = h := hm.simple.unique hlive' hlive (htail'.trans htail.symm) hhead'
      exact (mem_of_mem_cyclicPairs hb).2
    obtain ⟨a, ha⟩ := List.exists_mem_of_ne_nil r hr
    obtain ⟨b, hpair⟩ := exists_successor ha
    obtain ⟨h, hlive, htail, rfl, -⟩ := hm.exists_of_turns (hcycle _ hpair)
    exact hl.orbit.forall_mem ((hl.mem h).2 ⟨hlive, htail⟩) ha hstep g ((hl.mem g).2 ⟨hg, rfl⟩)

/-! ## Facets that fit are accepted -/

section Accepted

variable {vs : List Vertex} {id : ℕ} (hm : m.Sound) (hlive : ∀ v ∈ vs, m.links.isLiveVertex v = true)
  (hn : vs.Nodup) (hthree : 3 ≤ vs.length) (hid : m.facetCorners id = none)
  (hfits : Fits (Function.update m.facetCorners id (some vs)))

include hm hid hfits

/-- No facet of the mesh has a side of a facet that fits. -/
theorem Sound.facetOf_ne_some (hh : m.links.IsLive h) (hx : m.links.ends h ∈ cyclicPairs vs) :
    m.links.facetOf h = none := by
  by_contra hf
  obtain ⟨f, hf⟩ := Option.ne_none_iff_exists'.1 hf
  have hflive := hm.wellFormed.facet_live hh hf
  have hold := hm.facetCorners_eq_some.2 ⟨f, hflive, rfl, rfl⟩
  -- The facet that has the side is not the new one, as the new id is free.
  have hne : m.facetId f ≠ id := by
    rintro rfl
    rw [hid] at hold
    cases hold
  have hsame := hfits.once (i := m.facetId f) (j := id) (by rw [Function.update_of_ne hne, hold])
    (Function.update_self ..) (hm.wellFormed.ends_mem hh hf) hx
  exact hne hsame

omit hm hfits in
/-- The turns of the mesh are among the turns with another facet. -/
theorem turns_update {u w : Vertex} (hturn : Turns m.facetCorners v u w) :
    Turns (Function.update m.facetCorners id (some vs)) v u w := by
  refine hturn.mono fun i l hl => ?_
  have hne : i ≠ id := by
    rintro rfl
    rw [hid] at hl
    cases hl
  rw [Function.update_of_ne hne, hl]

include hlive

/-- The corners of a facet that fits are not enclosed. -/
theorem Sound.isBorderVertex_of_fits (hv : v ∈ vs) : m.links.isBorderVertex v = true := by
  by_contra hb
  obtain ⟨l, hne, hl, hall⟩ := hm.wellFormed.enclosed_cycle (hlive v hv) (Bool.eq_false_iff.2 hb)
  obtain ⟨-, hnext⟩ := Orbit.iff_cyclicPairs.1 hl.orbit
  -- The turns of the facets around the vertex form a cycle.
  have hcycle : ∀ x ∈ cyclicPairs (l.map m.links.head),
      Turns (Function.update m.facetCorners id (some vs)) v x.1 x.2 := by
    rw [cyclicPairs_map]
    intro x hx
    obtain ⟨y, hy, rfl⟩ := List.mem_map.1 hx
    have hmem := (mem_of_mem_cyclicPairs hy).1
    obtain ⟨hylive, rfl⟩ := (hl.mem y.1).1 hmem
    refine turns_update hid ?_
    have hturn := hm.turns_of_facetOf hylive (hall y.1 hmem)
    rwa [hnext y hy] at hturn
  obtain ⟨u, hu⟩ := exists_predecessor hv
  obtain ⟨w, hw⟩ := exists_successor hv
  have hturn : Turns (Function.update m.facetCorners id (some vs)) v u w :=
    ⟨id, vs, Function.update_self .., hu, hw⟩
  have hmem := hfits.around (by simpa using hne) hcycle hturn
  -- So one of them has the side of the new facet that ends here.
  obtain ⟨h, hh, rfl⟩ := List.mem_map.1 hmem
  obtain ⟨hhlive, rfl⟩ := (hl.mem h).1 hh
  refine hall h hh (hm.facetOf_ne_some hid hfits (h := h.opposite) hhlive ?_)
  rw [Connectivity.ends_opposite]
  exact hu

include hn hthree

omit hlive in
/-- Existing sides of a facet that fits can be brought together. -/
theorem Sound.exists_gap {u v w : Vertex} (hu : (u, v) ∈ cyclicPairs vs) (hw : (v, w) ∈ cyclicPairs vs)
    {p n : Halfedge} (hp : m.links.IsLive p) (hpends : m.links.ends p = (u, v)) (hnlive : m.links.IsLive n)
    (hnends : m.links.ends n = (v, w)) (hne : m.links.next p ≠ n) :
    ∃ g, m.links.gapAfter n.opposite = some g ∧ g ≠ p := by
  obtain ⟨rfl, rfl⟩ := Prod.mk.inj hpends
  obtain ⟨htail, rfl⟩ := Prod.mk.inj hnends
  have hpb := hm.facetOf_ne_some hid hfits hp hu
  have hnb := hm.facetOf_ne_some hid hfits (h := n) hnlive (by rw [hnends]; exact hw)
  have hends := head_ne_of_sides hn hthree hu hw
  refine (hm.wellFormed.gap_or_cycle hm.simple hp hnlive htail hends hpb hnb hne).resolve_right ?_
  rintro ⟨k, hlead, hall, hout⟩
  -- The turns from the second side to the first one and the turn of the new facet form a cycle.
  have hcycle : ∀ x ∈ cyclicPairs ((n :: (k ++ [p.opposite])).map m.links.head),
      Turns (Function.update m.facetCorners id (some vs)) (m.links.head p) x.1 x.2 := by
    rw [cyclicPairs_map]
    intro x hx
    obtain ⟨y, hy, rfl⟩ := List.mem_map.1 hx
    rcases mem_cyclicPairs_concat.1 hy with hy | rfl
    · have hstep := leads_iff_zip.1 hlead y hy
      obtain ⟨hylive, hytail, hyf⟩ := hall y.1 (List.of_mem_zip hy).1
      refine turns_update hid ?_
      have hturn := hm.turns_of_facetOf hylive hyf
      rwa [hytail, hstep] at hturn
    · exact ⟨id, vs, Function.update_self .., hu, hw⟩
  -- What comes behind the first side has a facet on its other side, which takes a turn outside the cycle.
  obtain ⟨hzlive, hztail⟩ := hm.wellFormed.next_live hp
  have hzb := (hm.wellFormed.facet_next hp).trans hpb
  have hturn := hm.turns_of_facetOf hzlive (hm.simple.faced hzlive hzb)
  rw [hztail] at hturn
  have hmem := hfits.around (by simp) hcycle (turns_update hid hturn)
  obtain ⟨y, hy, hhead⟩ := List.mem_map.1 hmem
  have hyends : m.links.IsLive y ∧ m.links.tail y = m.links.head p := by
    rw [← List.cons_append, List.mem_append, List.mem_singleton] at hy
    rcases hy with hy | rfl
    · exact ⟨(hall y hy).1, (hall y hy).2.1⟩
    · exact ⟨hp, Connectivity.tail_opposite p⟩
  obtain rfl := hm.simple.unique hyends.1 hzlive (hyends.2.trans hztail.symm) hhead
  exact hout hy

/-- A facet that fits together with those of a mesh is no misfit. -/
theorem Sound.not_misfit_of_fits : ¬ m.links.Misfit vs := by
  intro hmisfit
  -- Each way not to fit would need a side twice, or a vertex that is shut in although the sides around it are not all
  -- there.
  cases hmisfit with
  | enclosed corner live leaves faced =>
    have hborder := hm.isBorderVertex_of_fits hlive hid hfits corner
    obtain ⟨g, hg, hgv, hgb⟩ := (hm.wellFormed.isBorderVertex_iff (hlive _ corner)).1 hborder ⟨_, live, leaves⟩
    exact faced g hg hgv hgb
  | taken side live ends faced => exact faced (hm.facetOf_ne_some hid hfits live (by rwa [ends]))
  | shut first second firstLive firstEnds firstBorder secondLive secondEnds secondBorder fan apart =>
    obtain ⟨g, hgap, hne⟩ :=
      hm.exists_gap hn hthree hid hfits first second firstLive firstEnds secondLive secondEnds apart
    have hfaced := hm.simple.faced secondLive secondBorder
    exact hne ((Connectivity.gapAfter_eq_some_iff hgap hfaced).2 fan)

/-- A facet that fits together with those of a mesh is accepted. -/
theorem Sound.exists_addFacet : ∃ f m', Mesh.addFacet vs id m = (.ok f, m') := by
  obtain ⟨f, links, hadd⟩ := hm.wellFormed.exists_addFacet hlive (fun _ hh => hm.simple.faced hh) hn hthree
    (hm.not_misfit_of_fits hlive hn hthree hid hfits)
  have hfree : m.facetById.contains id = false := contains_eq_false_iff.2 (Option.map_eq_none_iff.1 hid)
  exact ⟨_, _, addFacet_eq_ok.2 ⟨hthree, hfree, hn, _, hadd, rfl⟩⟩

end Accepted

end Mesh

end RegionMesh
