import RegionMesh.Proofs.Editor.Orderly
import RegionMesh.Proofs.Region.Growth

/-!
# Regions are connected components

The regions of a mesh are the connected components of its facets, where a facet is connected with those that share
an edge with it and are alike (`RegionReport.Components`). They are found by going through the facets in storage order
and collecting the region of each that is in none yet. What the report says so far (`RegionReport.Lists`) is kept by
every facet (`Lists.push`, `Lists.skip`), and at the end it says what the components are (`Ringed.components`).
-/

namespace RegionMesh

variable {m : Mesh} {alike : ℕ → ℕ → Bool} {sets : DisjointSets}

/-- The live facets are listed in the order of their slots. -/
theorem Connectivity.pairwise_liveFacets (c : Connectivity) : c.liveFacets.Pairwise fun f g => f.slot < g.slot := by
  unfold liveFacets
  refine List.Pairwise.filter _ ?_
  rw [List.pairwise_map]
  exact List.pairwise_lt_range

/-- The ids of a region are those of the facets with its root. -/
theorem Region.Collects.mem_members {seed : Facet} {looked : List Facet} {region : Region}
    (h : region.Collects m sets seed looked) {id : ℕ} : id ∈ region.members ↔
      ∃ f, m.links.isLiveFacet f = true ∧ m.facetId f = id ∧ m.rootIn sets f = region.root := by
  rw [h.members, (List.mergeSort_perm _ _).mem_iff, List.mem_map, h.root]
  simp only [h.mem]
  exact exists_congr fun f => ⟨fun hf => ⟨hf.1.1, hf.2, hf.1.2⟩, fun hf => ⟨⟨hf.1, hf.2.2⟩, hf.2.1⟩⟩

/-- Different facets have different ids, so that the members of a region increase strictly. -/
theorem Region.Collects.pairwise_members (hm : m.Ringed) {seed : Facet} {looked : List Facet} {region : Region}
    (h : region.Collects m sets seed looked) : region.members.Pairwise (· < ·) := by
  have hsorted : region.members.Pairwise fun a b => decide (a ≤ b) = true := by
    rw [h.members]
    refine List.pairwise_mergeSort (fun a b c => ?_) (fun a b => ?_) _
    · simp only [decide_eq_true_iff]
      exact Nat.le_trans
    · simpa using Nat.le_total a b
  -- No facet is looked at twice, so no id is.
  have hnodup : region.members.Nodup := by
    rw [h.members, (List.mergeSort_perm _ _).nodup_iff]
    refine h.nodup.map_on fun f hf g hg he => ?_
    exact hm.id_inj ((h.mem f).1 hf).1 ((h.mem g).1 hg).1 he
  exact (hsorted.and hnodup).imp fun hab => Nat.lt_of_le_of_ne (by simpa using hab.1) hab.2

namespace RegionReport

variable (m alike) in
/-- The regions of a report are the connected components of the facets of a mesh. -/
structure Components (r : RegionReport) : Prop where
  /-- The members of a region increase strictly. -/
  sorted : ∀ region ∈ r.regions.toList, region.members.Pairwise (· < ·)
  /-- Two regions have no member in common. -/
  disjoint : r.regions.toList.Pairwise fun a b => a.members.Disjoint b.members
  /-- The members of all regions are the ids of the live facets. -/
  covers : ∀ id, (∃ region ∈ r.regions.toList, id ∈ region.members) ↔
    ∃ f, m.links.isLiveFacet f = true ∧ m.facetId f = id
  /-- Two facets are in the same region if a path joins them on which each facet shares an edge with the next one and
  is alike to it, in one order or the other. -/
  same : ∀ f g, m.links.isLiveFacet f = true → m.links.isLiveFacet g = true →
    ((∃ region ∈ r.regions.toList, m.facetId f ∈ region.members ∧ m.facetId g ∈ region.members) ↔
      m.Connected alike f g)
  /-- Some facet of a region is stored before all facets of the regions behind it. -/
  ordered : r.regions.toList.Pairwise fun a b => ∃ f, m.links.isLiveFacet f = true ∧
    m.facetId f ∈ a.members ∧
      ∀ g, m.links.isLiveFacet g = true → m.facetId g ∈ b.members → f.slot < g.slot
  /-- The root of a region is one of its members. -/
  root_mem : ∀ region ∈ r.regions.toList, region.root ∈ region.members
  /-- Different regions have different roots. -/
  nodup_roots : (r.regions.toList.map (·.root)).Nodup
  /-- Root and region of a facet are found by its id. -/
  found : ∀ region ∈ r.regions.toList, ∀ id ∈ region.members,
    r.rootOf? id = some region.root ∧ r.regionOf? id = some region
  /-- Under no other id anything is found. -/
  notFound : ∀ id, (∀ f, m.links.isLiveFacet f = true → m.facetId f ≠ id) →
    r.rootOf? id = none ∧ r.regionOf? id = none

variable (m sets) in
/-- What a report says when the regions of some facets were added. Each part is a region together with the facet from
which it was collected. -/
structure Lists (done : List Facet) (parts : List (Facet × Region)) (r : RegionReport) (visited : Std.TreeSet ℕ) :
    Prop where
  /-- The regions of the parts are listed. -/
  regions : r.regions.toList = parts.map (·.2)
  /-- Each region is collected from its facet. -/
  collects : ∀ p ∈ parts, m.links.isLiveFacet p.1 = true ∧ ∃ looked, p.2.Collects m sets p.1 looked
  /-- The facets come in storage order. -/
  sorted : parts.Pairwise fun p q => p.1.slot < q.1.slot
  /-- Each of them is the first one with its root. -/
  first : ∀ p ∈ parts, ∀ f, m.links.isLiveFacet f = true → m.rootIn sets f = p.2.root → p.1.slot ≤ f.slot
  /-- They are among the facets that were gone through. -/
  mem_done : ∀ p ∈ parts, p.1 ∈ done
  /-- Every facet that was gone through has a region. -/
  covered : ∀ f ∈ done, ∃ p ∈ parts, m.rootIn sets f = p.2.root
  /-- The facets of the regions are marked. -/
  visited : ∀ i, i ∈ visited ↔ ∃ p ∈ parts, ∃ f, m.links.isLiveFacet f = true ∧
    m.rootIn sets f = p.2.root ∧ f.slot = i
  /-- The roots are known by the members. -/
  roots : ∀ id root, r.roots[id]? = some root ↔ ∃ p ∈ parts, p.2.root = root ∧ id ∈ p.2.members
  /-- The places are known by the roots. -/
  places : ∀ root i, r.places[root]? = some i ↔
    ∃ p : Facet × Region, parts[i]? = some p ∧ p.2.root = root

end RegionReport

/-! ## Adding the region of a facet -/

namespace Mesh

variable (m sets) in
/-- Add the region of a facet to a report, unless the facet is in a region already. -/
def addRegion (s : RegionReport × Std.TreeSet ℕ) (f : Facet) : RegionReport × Std.TreeSet ℕ :=
  if s.2.contains f.slot then s
  else (s.1.push (m.collect sets f s.2).1, (m.collect sets f s.2).2)

/-- A facet that is marked adds nothing. -/
theorem addRegion_of_mem {s : RegionReport × Std.TreeSet ℕ} {f : Facet} (hf : f.slot ∈ s.2) :
    m.addRegion sets s f = s :=
  if_pos (Std.TreeSet.contains_iff_mem.2 hf)

/-- A facet that is not marked adds its region. -/
theorem addRegion_of_notMem {s : RegionReport × Std.TreeSet ℕ} {f : Facet} (hf : f.slot ∉ s.2) :
    m.addRegion sets s f = (s.1.push (m.collect sets f s.2).1, (m.collect sets f s.2).2) :=
  if_neg fun h => hf (Std.TreeSet.contains_iff_mem.1 h)

/-- On checked links and ids the report comes about by adding the regions of the live facets. -/
theorem regions_eq_ok (hlinks : m.checkLinks = .ok ()) (hids : m.checkFacetIds = .ok ()) :
    m.regions alike = .ok (m.links.liveFacets.foldl (m.addRegion (m.alikeSets alike)) ({}, {})).1 := by
  unfold regions
  rw [hlinks, hids]
  rfl

end Mesh

namespace RegionReport

/-- The members of a region get its root, and the other ids keep theirs. -/
theorem getElem?_insertAll (ids : List ℕ) (root : ℕ) (t : Std.TreeMap ℕ ℕ) (id : ℕ) :
    (ids.foldl (fun t id => t.insert id root) t)[id]? = if id ∈ ids then some root else t[id]? := by
  induction ids generalizing t with
  | nil => simp
  | cons i ids ih =>
    rw [List.foldl_cons, ih, DisjointSets.getElem?_insert_eq]
    by_cases hid : id ∈ ids <;> by_cases hi : id = i <;> simp [hid, hi]

namespace Lists

variable {done : List Facet} {parts : List (Facet × Region)} {r : RegionReport} {visited : Std.TreeSet ℕ}
  {f : Facet}

section Push

variable {region : Region} (h : Lists m sets done parts r visited) (hnew : ∀ p ∈ parts, p.2.root ≠ region.root)

include h hnew

/-- The members of a new region get its root. They are in no other one. -/
theorem roots_push (hm : m.Ringed) {looked : List Facet} (hregion : region.Collects m sets f looked)
    (id root : ℕ) : (r.push region).roots[id]? = some root ↔
    ∃ p ∈ parts ++ [(f, region)], p.2.root = root ∧ id ∈ p.2.members := by
  simp only [RegionReport.push, getElem?_insertAll, List.mem_append, List.mem_singleton, or_and_right, exists_or,
    exists_eq_left]
  by_cases hid : id ∈ region.members
  -- A member of the new region has its root, and no region before it has this root.
  · have hnone : ¬ ∃ p ∈ parts, p.2.root = root ∧ id ∈ p.2.members := by
      rintro ⟨p, hp, -, hmem⟩
      obtain ⟨-, looked', hp'⟩ := h.collects p hp
      obtain ⟨g, hg, hgid, hgroot⟩ := hp'.mem_members.1 hmem
      obtain ⟨g', hg', hgid', hgroot'⟩ := hregion.mem_members.1 hid
      obtain rfl := hm.id_inj hg hg' (hgid.trans hgid'.symm)
      exact hnew p hp (hgroot.symm.trans hgroot')
    simp [hid, hnone]
  · rw [if_neg hid, h.roots]
    simp [hid]

/-- A new region has the place behind the others. -/
theorem places_push (root i : ℕ) : (r.push region).places[root]? = some i ↔
    ∃ p, (parts ++ [(f, region)])[i]? = some p ∧ p.2.root = root := by
  have hsize : r.regions.size = parts.length := by
    rw [← Array.length_toList, h.regions, List.length_map]
  simp only [RegionReport.push, DisjointSets.getElem?_insert_eq, hsize, List.getElem?_append]
  -- No earlier region has the root of the new one, so a root is found at one place only.
  by_cases hroot : root = region.root
  · subst hroot
    rw [if_pos rfl, Option.some.injEq]
    constructor
    · rintro rfl
      exact ⟨(f, region), by simp, rfl⟩
    · rintro ⟨p, hp, hpr⟩
      split at hp
      · exact absurd hpr (hnew p (List.mem_of_getElem? hp))
      · have hi := (List.getElem?_eq_some_iff.1 hp).1
        rw [List.length_singleton] at hi
        omega
  · rw [if_neg hroot, h.places]
    refine exists_congr fun p => and_congr_left fun hpr => ?_
    split
    · exact Iff.rfl
    · rename_i hi
      rw [List.getElem?_eq_none (Nat.not_lt.1 hi)]
      refine ⟨fun he => by simp at he, fun he => ?_⟩
      obtain rfl : p = (f, region) := by simpa using List.mem_of_getElem? he
      exact absurd hpr.symm hroot

end Push

/-- A facet that is not marked is added together with its region. It is the first one with its root. -/
theorem push (h : Lists m sets done parts r visited) {rest : List Facet} {region : Region} {looked : List Facet}
    {visited' : Std.TreeSet ℕ} (hall : m.links.liveFacets = done ++ f :: rest) (hf : f.slot ∉ visited)
    (hregion : region.Collects m sets f looked)
    (hvisited : ∀ i, i ∈ visited' ↔ i ∈ visited ∨ ∃ g ∈ looked, g.slot = i) (hm : m.Ringed) :
    Lists m sets (done ++ [f]) (parts ++ [(f, region)]) (r.push region) visited' := by
  have hlive : ∀ g, g ∈ done ++ f :: rest ↔ m.links.isLiveFacet g = true := by
    intro g
    rw [← hall, Connectivity.mem_liveFacets]
  have hflive : m.links.isLiveFacet f = true := (hlive f).1 (by simp)
  have hparts : ∀ p, p ∈ parts ++ [(f, region)] ↔ p ∈ parts ∨ p = (f, region) := by simp
  -- No part has the root of the facet, as the facet would be marked.
  have hnew : ∀ p ∈ parts, p.2.root ≠ region.root := by
    intro p hp he
    exact hf ((h.visited _).2 ⟨p, hp, f, hflive, by rw [he, hregion.root], rfl⟩)
  have hslots := hall ▸ m.links.pairwise_liveFacets
  rw [List.pairwise_append, List.pairwise_cons] at hslots
  obtain ⟨-, ⟨hbehind, -⟩, hbefore⟩ := hslots
  constructor
  case regions => simp [RegionReport.push, h.regions]
  case collects =>
    intro p hp
    rcases (hparts p).1 hp with hp | rfl
    · exact h.collects p hp
    · exact ⟨hflive, looked, hregion⟩
  case sorted =>
    rw [List.pairwise_append]
    refine ⟨h.sorted, List.pairwise_singleton _ _, fun p hp q hq => ?_⟩
    obtain rfl : q = (f, region) := by simpa using hq
    exact hbefore p.1 (h.mem_done p hp) f List.mem_cons_self
  case first =>
    intro p hp g hg hroot
    rcases (hparts p).1 hp with hp | rfl
    · exact h.first p hp g hg hroot
    -- A facet before this one has a region already, and that has another root.
    · rcases List.mem_append.1 ((hlive g).2 hg) with hdone | hmem
      · obtain ⟨p, hp, hpg⟩ := h.covered g hdone
        exact absurd (hpg.symm.trans hroot) (hnew p hp)
      · rcases List.mem_cons.1 hmem with rfl | hmem
        · exact Nat.le_refl _
        · exact Nat.le_of_lt (hbehind g hmem)
  case mem_done =>
    intro p hp
    rcases (hparts p).1 hp with hp | rfl
    · exact List.mem_append_left _ (h.mem_done p hp)
    · exact List.mem_append_right _ List.mem_cons_self
  case covered =>
    intro g hg
    rcases List.mem_append.1 hg with hg | hg
    · obtain ⟨p, hp, hpg⟩ := h.covered g hg
      exact ⟨p, (hparts p).2 (Or.inl hp), hpg⟩
    · obtain rfl : g = f := by simpa using hg
      exact ⟨(g, region), (hparts _).2 (Or.inr rfl), hregion.root.symm⟩
  case visited =>
    intro i
    rw [hvisited, h.visited]
    simp only [hparts, or_and_right, exists_or, exists_eq_left, hregion.mem, hregion.root, and_assoc]
  case roots => exact h.roots_push hnew hm hregion
  case places => exact h.places_push hnew

/-- A facet that is marked is in a region already. -/
theorem skip (h : Lists m sets done parts r visited) (hf : f.slot ∈ visited) :
    Lists m sets (done ++ [f]) parts r visited := by
  refine ⟨h.regions, h.collects, h.sorted, h.first, fun p hp => List.mem_append_left _ (h.mem_done p hp),
    fun g hg => ?_, h.visited, h.roots, h.places⟩
  rcases List.mem_append.1 hg with hg | hg
  · exact h.covered g hg
  · obtain rfl : g = f := by simpa using hg
    -- A mark was set when the region of the facet was collected.
    obtain ⟨p, hp, f', -, hroot, hslot⟩ := (h.visited _).1 hf
    obtain rfl : f' = g := Facet.slot_inj.1 hslot
    exact ⟨p, hp, hroot⟩

/-- A facet that is not marked has another root than those that are. -/
theorem rootIn_ne (h : Lists m sets done parts r visited) (hf : m.links.isLiveFacet f = true)
    (hnew : f.slot ∉ visited) {g : Facet} (hg : g.slot ∈ visited) : m.rootIn sets g ≠ m.rootIn sets f := by
  intro hroot
  obtain ⟨p, hp, g', -, hg', hslot⟩ := (h.visited _).1 hg
  obtain rfl : g' = g := Facet.slot_inj.1 hslot
  exact hnew ((h.visited _).2 ⟨p, hp, f, hf, hroot ▸ hg', rfl⟩)

end Lists

/-- Before the first region nothing is listed. -/
theorem lists_empty : Lists m sets [] [] {} {} := by
  refine ⟨rfl, ?_, ?_, ?_, ?_, ?_, ?_, ?_, ?_⟩ <;> simp

end RegionReport

open RegionReport (Lists Components)

namespace Mesh.Ringed

variable (hm : m.Ringed)

include hm

/-- Going on to the next facet adds its region, unless it is in one already. -/
theorem lists_next (alike : ℕ → ℕ → Bool) {rest done : List Facet} {f : Facet}
    (hall : m.links.liveFacets = done ++ f :: rest) {parts : List (Facet × Region)}
    {s : RegionReport × Std.TreeSet ℕ} (hs : Lists m (m.alikeSets alike) done parts s.1 s.2) :
    ∃ parts', Lists m (m.alikeSets alike) (done ++ [f]) parts' (m.addRegion (m.alikeSets alike) s f).1
      (m.addRegion (m.alikeSets alike) s f).2 := by
  have hf : m.links.isLiveFacet f = true := by
    rw [← Connectivity.mem_liveFacets, hall]
    simp
  -- A facet that was visited is in a region already, and any other one starts its own.
  by_cases hvisited : f.slot ∈ s.2
  · rw [addRegion_of_mem hvisited]
    exact ⟨parts, hs.skip hvisited⟩
  · obtain ⟨looked, hregion, hvisited'⟩ := hm.collect hf fun _ _ hg => hs.rootIn_ne hf hvisited hg
    rw [addRegion_of_notMem hvisited]
    exact ⟨_, hs.push hall hvisited hregion hvisited' hm⟩

/-- Going through the live facets adds the region of each. -/
theorem lists_addRegion (alike : ℕ → ℕ → Bool) {rest done : List Facet}
    (hall : m.links.liveFacets = done ++ rest) {parts : List (Facet × Region)} {s : RegionReport × Std.TreeSet ℕ}
    (hs : Lists m (m.alikeSets alike) done parts s.1 s.2) :
    ∃ parts', Lists m (m.alikeSets alike) m.links.liveFacets parts'
      (rest.foldl (m.addRegion (m.alikeSets alike)) s).1 (rest.foldl (m.addRegion (m.alikeSets alike)) s).2 := by
  induction rest generalizing done parts s with
  | nil =>
    rw [List.append_nil] at hall
    exact ⟨parts, hall ▸ hs⟩
  | cons f rest ih =>
    obtain ⟨parts', hs'⟩ := hm.lists_next alike hall hs
    rw [List.append_cons] at hall
    exact ih hall hs'

end Mesh.Ringed

namespace RegionReport.Lists

variable {done : List Facet} {parts : List (Facet × Region)} {r : RegionReport} {visited : Std.TreeSet ℕ}
  (h : Lists m sets done parts r visited)

include h

/-- A region has the facets with its root. -/
theorem mem_members {p : Facet × Region} (hp : p ∈ parts) {id : ℕ} : id ∈ p.2.members ↔
    ∃ f, m.links.isLiveFacet f = true ∧ m.facetId f = id ∧ m.rootIn sets f = p.2.root := by
  obtain ⟨-, looked, hlooked⟩ := h.collects p hp
  exact hlooked.mem_members

/-- The id of a facet is in the region with its root. -/
theorem facetId_mem_iff (hm : m.Ringed) {p : Facet × Region} (hp : p ∈ parts) {f : Facet}
    (hf : m.links.isLiveFacet f = true) : m.facetId f ∈ p.2.members ↔ m.rootIn sets f = p.2.root := by
  rw [h.mem_members hp]
  constructor
  · rintro ⟨g, hg, he, hroot⟩
    rwa [← hm.id_inj hg hf he]
  · exact fun hroot => ⟨f, hf, rfl, hroot⟩

/-- The first facet of a region has its root. -/
theorem rootIn_eq {p : Facet × Region} (hp : p ∈ parts) : m.rootIn sets p.1 = p.2.root := by
  obtain ⟨-, looked, hlooked⟩ := h.collects p hp
  exact hlooked.root.symm

/-- Different regions have different roots, as each starts at the first facet with its root. -/
theorem pairwise_root_ne : parts.Pairwise fun p q => p.2.root ≠ q.2.root := by
  refine h.sorted.imp_of_mem fun {p q} hp hq hlt he => ?_
  have hle := h.first q hq p.1 (h.collects p hp).1 ((h.rootIn_eq hp).trans he)
  exact Nat.lt_irrefl _ (Nat.lt_of_lt_of_le hlt hle)

/-- A region is found under the ids of its members. -/
theorem found {p : Facet × Region} (hp : p ∈ parts) {id : ℕ} (hid : id ∈ p.2.members) :
    r.rootOf? id = some p.2.root ∧ r.regionOf? id = some p.2 := by
  have hroot : r.rootOf? id = some p.2.root := (h.roots id _).2 ⟨p, hp, rfl, hid⟩
  obtain ⟨i, hi⟩ := List.mem_iff_getElem?.1 hp
  have hplace : r.places[p.2.root]? = some i := (h.places _ i).2 ⟨p, hi, rfl⟩
  have hregion : r.regions[i]? = some p.2 := by
    rw [← Array.getElem?_toList, h.regions, List.getElem?_map, hi]
    rfl
  refine ⟨hroot, ?_⟩
  unfold regionOf?
  rw [hroot, Option.bind_some, hplace, Option.bind_some, hregion]

/-- Nothing is found under an id that is no member. -/
theorem notFound {id : ℕ} (hid : ∀ p ∈ parts, id ∉ p.2.members) :
    r.rootOf? id = none ∧ r.regionOf? id = none := by
  have hroot : r.rootOf? id = none := by
    rw [Option.eq_none_iff_forall_ne_some]
    intro root he
    obtain ⟨p, hp, -, hmem⟩ := (h.roots id root).1 he
    exact hid p hp hmem
  refine ⟨hroot, ?_⟩
  unfold regionOf?
  rw [hroot]
  rfl

end RegionReport.Lists

/-- A report that lists the regions of all live facets says what the components are. -/
theorem Mesh.Ringed.components (hm : m.Ringed) {parts : List (Facet × Region)} {r : RegionReport}
    {visited : Std.TreeSet ℕ} (h : Lists m (m.alikeSets alike) m.links.liveFacets parts r visited) :
    r.Components m alike := by
  have hcovered : ∀ f, m.links.isLiveFacet f = true →
      ∃ p ∈ parts, m.rootIn (m.alikeSets alike) f = p.2.root :=
    fun f hf => h.covered f (Connectivity.mem_liveFacets.2 hf)
  constructor
  case sorted =>
    rw [h.regions, List.forall_mem_map]
    intro p hp
    obtain ⟨-, looked, hlooked⟩ := h.collects p hp
    exact hlooked.pairwise_members hm
  case disjoint =>
    rw [h.regions, List.pairwise_map]
    refine h.pairwise_root_ne.imp_of_mem fun {p q} hp hq hne id hidp hidq => hne ?_
    obtain ⟨f, hf, rfl, hroot⟩ := (h.mem_members hp).1 hidp
    rw [← hroot, (h.facetId_mem_iff hm hq hf).1 hidq]
  case covers =>
    intro id
    rw [h.regions]
    simp only [List.mem_map, exists_exists_and_eq_and]
    constructor
    · rintro ⟨p, hp, hid⟩
      obtain ⟨f, hf, he, -⟩ := (h.mem_members hp).1 hid
      exact ⟨f, hf, he⟩
    · rintro ⟨f, hf, rfl⟩
      obtain ⟨p, hp, hroot⟩ := hcovered f hf
      exact ⟨p, hp, (h.facetId_mem_iff hm hp hf).2 hroot⟩
  case same =>
    intro f g hf hg
    rw [h.regions, ← hm.rootIn_eq_iff hf hg]
    simp only [List.mem_map, exists_exists_and_eq_and]
    constructor
    · rintro ⟨p, hp, hfp, hgp⟩
      rw [(h.facetId_mem_iff hm hp hf).1 hfp, (h.facetId_mem_iff hm hp hg).1 hgp]
    · intro he
      obtain ⟨p, hp, hroot⟩ := hcovered f hf
      exact ⟨p, hp, (h.facetId_mem_iff hm hp hf).2 hroot, (h.facetId_mem_iff hm hp hg).2 (he ▸ hroot)⟩
  case ordered =>
    rw [h.regions, List.pairwise_map]
    refine h.sorted.imp_of_mem fun {p q} hp hq hlt => ?_
    have hlive := (h.collects p hp).1
    refine ⟨p.1, hlive, (h.facetId_mem_iff hm hp hlive).2 (h.rootIn_eq hp), fun g hg hgq => ?_⟩
    exact Nat.lt_of_lt_of_le hlt (h.first q hq g hg ((h.facetId_mem_iff hm hq hg).1 hgq))
  case root_mem =>
    -- The root is the id of a facet that has this root.
    rw [h.regions, List.forall_mem_map]
    intro p hp
    obtain ⟨g, hg, hid, hroot⟩ := hm.exists_root alike (h.collects p hp).1
    rw [h.rootIn_eq hp] at hid hroot
    exact (h.mem_members hp).2 ⟨g, hg, hid, hroot⟩
  case nodup_roots =>
    rw [h.regions, List.map_map, List.Nodup, List.pairwise_map]
    exact h.pairwise_root_ne
  case found =>
    rw [h.regions, List.forall_mem_map]
    exact fun p hp id hid => h.found hp hid
  case notFound =>
    intro id hid
    refine h.notFound fun p hp hmem => ?_
    obtain ⟨f, hf, he, -⟩ := (h.mem_members hp).1 hmem
    exact hid f hf he

/-- On checked links and ids, with rings that miss no halfedge of their facet, the regions are found. -/
theorem Mesh.Ringed.regions (hm : m.Ringed) (hlinks : m.checkLinks = .ok ()) (hids : m.checkFacetIds = .ok ())
    (alike : ℕ → ℕ → Bool) : ∃ r parts visited, m.regions alike = .ok r ∧
      Lists m (m.alikeSets alike) m.links.liveFacets parts r visited := by
  obtain ⟨parts, h⟩ := hm.lists_addRegion alike (s := ({}, {})) rfl RegionReport.lists_empty
  exact ⟨_, parts, _, Mesh.regions_eq_ok hlinks hids, h⟩

/-- On a mesh that passes its checks, and whose rings miss no halfedge of their facet, the regions are the connected
components of the facets, whatever the relation on their ids. -/
theorem Mesh.regions_components (hlinks : m.checkLinks = .ok ()) (hids : m.checkFacetIds = .ok ())
    (hring : ∀ h f, m.links.IsLive h → m.links.facetOf h = some f → h ∈ (m.links.ring f).path)
    (alike : ℕ → ℕ → Bool) : ∃ r, m.regions alike = .ok r ∧ r.Components m alike := by
  have hm := Mesh.ringed_of_checks hlinks hids hring
  obtain ⟨r, parts, visited, hr, h⟩ := hm.regions hlinks hids alike
  exact ⟨r, hr, hm.components h⟩

/-- Two triangles with a common edge, under a relation that holds in one order only. -/
theorem Mesh.regions_components_triangles :
    let m := (EditorCall.run (EditorCall.erasedTriangle.take 16) {}).mesh
    m.checkLinks = .ok () ∧ m.checkFacetIds = .ok () ∧
      (∀ h f, m.links.IsLive h → m.links.facetOf h = some f → h ∈ (m.links.ring f).path) ∧
      ∃ r, m.regions (fun a b => a < b) = .ok r ∧ r.Components m (fun a b => a < b) := by
  have horderly : Orderly (EditorCall.erasedTriangle.take 16) := by decide +kernel
  have hm := horderly.sound
  exact ⟨hm.checkLinks_eq_ok, hm.checkFacetIds_eq_ok, fun h f => hm.mem_ring,
    Mesh.regions_components hm.checkLinks_eq_ok hm.checkFacetIds_eq_ok (fun h f => hm.mem_ring) _⟩

end RegionMesh
