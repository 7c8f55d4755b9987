import RegionMesh.Proofs.Geometry
import RegionMesh.Proofs.Grid.Built
import RegionMesh.Proofs.Region.Report

/-!
# The facet that stands for a region

A region is represented by the member whose centroid is nearest to the centroid of the region, and by the one of the
least id if several are equally near (`Point.Prefers`). Distances are compared in the total order of doubles
(`Double.Precedes`), so that there is always exactly one such member, even if some distance is not a number.

The nearest facet of a list is the one to which no other entry is preferred (`nearest?_eq_some_iff`). It depends on
what is in the list and not on the order (`nearest?_congr`), and there is none only if the list is empty. The search
for a region always meets its first facet, so a region never falls back on it
(`Region.Collects.nearest?_eq_representative`).
-/

namespace RegionMesh

/-! ## Preferences -/

namespace Point

variable {p : Point} {a b c : ℕ × Point}

/-- Of two facets with their centroids, a point prefers the one that is nearer, and of two at the same distance the one
of lower id. -/
def Prefers (p : Point) (a b : ℕ × Point) : Prop :=
  Double.Precedes (a.2.distanceSq p) (b.2.distanceSq p) ∨ (a.2.distanceSq p = b.2.distanceSq p ∧ a.1 < b.1)

/-- The rank of the distance to a point, and the id. -/
def distanceRank (p : Point) (a : ℕ × Point) : ℕ × ℕ := (doubleRank (a.2.distanceSq p), a.1)

/-- The ranks of the distances decide, and then the ids. -/
theorem prefers_iff : p.Prefers a b ↔ (p.distanceRank a).1 < (p.distanceRank b).1 ∨
    ((p.distanceRank a).1 = (p.distanceRank b).1 ∧ a.1 < b.1) :=
  or_congr doubleRank_lt_iff.symm (and_congr_left fun _ => doubleRank_eq_iff.symm)

/-- No entry is preferred to itself. -/
theorem not_prefers_self : ¬ p.Prefers a a := by
  rw [prefers_iff]
  omega

/-- Of two entries at most one is preferred to the other. -/
theorem Prefers.asymm (h : p.Prefers a b) : ¬ p.Prefers b a := by
  rw [prefers_iff] at h ⊢
  omega

/-- An entry that is not beaten by one that a third does not beat is not beaten by the third. -/
theorem not_prefers_trans (hab : ¬ p.Prefers a b) (hbc : ¬ p.Prefers b c) : ¬ p.Prefers a c := by
  rw [prefers_iff] at hab hbc ⊢
  omega

/-- If neither of two facets is preferred, they have the same id. -/
theorem id_eq_of_not_prefers (hab : ¬ p.Prefers a b) (hba : ¬ p.Prefers b a) : a.1 = b.1 := by
  rw [prefers_iff] at hab hba
  omega

end Point

/-! ## The nearest facet of a list -/

section Nearest

open Point

variable {p : Point} {a b : ℕ × Point} {l l' : List (ℕ × Point)} {id : ℕ}

/-- The entry that is preferred takes the place of the one that was kept. -/
theorem closer_of_prefers (h : p.Prefers b a) :
    nearest?.closer p (some (distanceRank p a)) b = some (distanceRank p b) :=
  if_pos (prefers_iff.1 h)

/-- Any other entry leaves the one that was kept in place. -/
theorem closer_of_not_prefers (h : ¬ p.Prefers b a) :
    nearest?.closer p (some (distanceRank p a)) b = some (distanceRank p a) :=
  if_neg fun hlt => h (prefers_iff.2 hlt)

/-- Going through a list keeps an entry to which none of those before is preferred. -/
theorem foldl_closer (p : Point) (a : ℕ × Point) (l : List (ℕ × Point)) : ∃ b ∈ a :: l,
    l.foldl (nearest?.closer p) (some (distanceRank p a)) = some (distanceRank p b) ∧
      ∀ c ∈ a :: l, ¬ p.Prefers c b := by
  induction l generalizing a with
  | nil =>
    refine ⟨a, List.mem_singleton_self a, rfl, fun c hc => ?_⟩
    rw [List.mem_singleton.1 hc]
    exact not_prefers_self
  | cons c l ih =>
    rw [List.foldl_cons]
    by_cases hc : p.Prefers c a
    · -- The rest is gone through from the new entry, which stays ahead of the one that it replaces.
      rw [closer_of_prefers hc]
      obtain ⟨b, hb, hfold, hleast⟩ := ih c
      refine ⟨b, List.mem_cons_of_mem a hb, hfold, fun d hd => ?_⟩
      rcases List.mem_cons.1 hd with rfl | hd
      · exact not_prefers_trans hc.asymm (hleast c List.mem_cons_self)
      · exact hleast d hd
    · rw [closer_of_not_prefers hc]
      obtain ⟨b, hb, hfold, hleast⟩ := ih a
      have ha := hleast a List.mem_cons_self
      refine ⟨b, ?_, hfold, fun d hd => ?_⟩
      · rcases List.mem_cons.1 hb with rfl | hb
        · exact List.mem_cons_self
        · exact List.mem_cons_of_mem a (List.mem_cons_of_mem c hb)
      · rcases List.mem_cons.1 hd with rfl | hd
        · exact ha
        rcases List.mem_cons.1 hd with rfl | hd
        · exact not_prefers_trans hc ha
        · exact hleast d (List.mem_cons_of_mem a hd)

/-- Of a list that is not empty, an entry is found to which no other one is preferred. -/
theorem exists_nearest (p : Point) (hl : l ≠ []) :
    ∃ a ∈ l, nearest? p l = some a.1 ∧ ∀ b ∈ l, ¬ p.Prefers b a := by
  obtain ⟨a, l, rfl⟩ := List.exists_cons_of_ne_nil hl
  obtain ⟨b, hb, hfold, hleast⟩ := foldl_closer p a l
  refine ⟨b, hb, ?_, hleast⟩
  change (l.foldl (nearest?.closer p) (some (distanceRank p a))).map (·.2) = some b.1
  rw [hfold]
  rfl

/-- The nearest facet is the one to which no other one is preferred. -/
theorem nearest?_eq_some_iff : nearest? p l = some id ↔ ∃ a ∈ l, a.1 = id ∧ ∀ b ∈ l, ¬ p.Prefers b a := by
  constructor
  · intro h
    have hl : l ≠ [] := by
      rintro rfl
      cases h
    obtain ⟨a, ha, hnearest, hleast⟩ := exists_nearest p hl
    exact ⟨a, ha, Option.some.inj (hnearest.symm.trans h), hleast⟩
  · rintro ⟨a, ha, rfl, hleast⟩
    -- Of two facets neither of which is preferred to the other, the ids are the same.
    obtain ⟨b, hb, hnearest, hleast'⟩ := exists_nearest p (List.ne_nil_of_mem ha)
    rw [hnearest, id_eq_of_not_prefers (hleast b hb) (hleast' a ha)]

/-- The nearest facet does not depend on the order of the list. -/
theorem nearest?_congr (h : ∀ a, a ∈ l ↔ a ∈ l') : nearest? p l = nearest? p l' := by
  refine Option.ext fun id => ?_
  simp only [nearest?_eq_some_iff, h]

end Nearest

/-! ## The representatives of the regions -/

variable {m : Mesh} {alike : ℕ → ℕ → Bool} {sets : DisjointSets} {seed f : Facet} {looked : List Facet}
  {region : Region}

/-- The ids of some facets with their centroids. -/
def Mesh.candidates (m : Mesh) (fs : List Facet) : List (ℕ × Point) := fs.map fun f => (m.facetId f, m.centroid f)

variable (m) in
/-- The representative of a region is the member that the centroid of the region prefers. -/
structure Region.Represented (region : Region) : Prop where
  /-- The centroid of the region is the mean of the centroids of its facets, listed in some order. -/
  centroid : ∃ met : List Facet, (∀ f ∈ met, m.links.isLiveFacet f = true) ∧
    (met.map m.facetId).Perm region.members ∧ region.centroid = Point.mean (met.map m.centroid)
  /-- The representative is a member. -/
  mem : region.representative ∈ region.members
  /-- No other member is preferred to it. -/
  least : ∀ f g, m.links.isLiveFacet f = true → m.facetId f = region.representative →
    m.links.isLiveFacet g = true → m.facetId g ∈ region.members →
      ¬ region.centroid.Prefers (m.facetId g, m.centroid g) (m.facetId f, m.centroid f)
  /-- In particular no member is nearer to the centroid of the region. -/
  nearest : ∀ f g, m.links.isLiveFacet f = true → m.facetId f = region.representative →
    m.links.isLiveFacet g = true → m.facetId g ∈ region.members →
      ¬ (m.centroid g).distanceSq region.centroid < (m.centroid f).distanceSq region.centroid
  /-- It is the nearest facet in whatever order the members are met. -/
  chosen : ∀ met : List Facet, (∀ f ∈ met, m.links.isLiveFacet f = true) →
    (met.map m.facetId).Perm region.members →
      nearest? region.centroid (m.candidates met) = some region.representative
  /-- The only member of a region is its root and its representative. -/
  alone : ∀ id, region.members = [id] → region.root = id ∧ region.representative = id

namespace Region.Collects

variable (h : region.Collects m sets seed looked)

include h

/-- The representative is the nearest of the facets that were met, as the first facet was met in any case. -/
theorem nearest?_eq_representative (hseed : m.links.isLiveFacet seed = true) :
    nearest? region.centroid (m.candidates looked) = some region.representative := by
  have hmem : seed ∈ looked := (h.mem seed).2 ⟨hseed, rfl⟩
  have hne : m.candidates looked ≠ [] := List.ne_nil_of_mem (List.mem_map_of_mem hmem)
  obtain ⟨a, -, hnearest, -⟩ := exists_nearest region.centroid hne
  have hrepresentative : region.representative =
      (nearest? region.centroid (m.candidates looked)).getD (m.facetId seed) := h.representative
  rw [hrepresentative, hnearest]
  rfl

/-- A live facet was met if its id is a member. -/
theorem mem_looked_iff (hm : m.Ringed) (hf : m.links.isLiveFacet f = true) :
    f ∈ looked ↔ m.facetId f ∈ region.members := by
  rw [h.mem_members, h.mem, h.root]
  constructor
  · rintro ⟨-, hroot⟩
    exact ⟨f, hf, rfl, hroot⟩
  · rintro ⟨g, hg, hid, hroot⟩
    obtain rfl := hm.id_inj hg hf hid
    exact ⟨hg, hroot⟩

/-- What is collected from a facet is represented by the member that the centroid prefers. -/
theorem represented (hm : m.Ringed) (hseed : m.links.isLiveFacet seed = true) (hroot : region.root ∈ region.members) :
    region.Represented m := by
  have hlive : ∀ f ∈ looked, m.links.isLiveFacet f = true := fun f hf => ((h.mem f).1 hf).1
  have hids : (looked.map m.facetId).Perm region.members := by
    rw [h.members]
    exact (List.mergeSort_perm _ _).symm
  have hnearest := h.nearest?_eq_representative hseed
  obtain ⟨a, ha, haid, hleast⟩ := nearest?_eq_some_iff.1 hnearest
  obtain ⟨f, hf, rfl⟩ := List.mem_map.1 ha
  have hmem : region.representative ∈ region.members := haid ▸ (h.mem_looked_iff hm (hlive f hf)).1 hf
  have hpreferred : ∀ f g, m.links.isLiveFacet f = true → m.facetId f = region.representative →
      m.links.isLiveFacet g = true → m.facetId g ∈ region.members →
        ¬ region.centroid.Prefers (m.facetId g, m.centroid g) (m.facetId f, m.centroid f) := by
    intro f' g hf' hid hg hgmem
    obtain rfl := hm.id_inj hf' (hlive f hf) (hid.trans haid.symm)
    exact hleast _ (List.mem_map_of_mem ((h.mem_looked_iff hm hg).2 hgmem))
  constructor
  case centroid => exact ⟨looked, hlive, hids, h.centroid⟩
  case mem => exact hmem
  case least => exact hpreferred
  case nearest =>
    intro f g hf hid hg hgmem hlt
    exact hpreferred f g hf hid hg hgmem (Or.inl (Double.precedes_of_lt hlt))
  case chosen =>
    -- Members with the same id are the same facet, so the two lists have the same entries.
    intro met hmet hperm
    rw [← hnearest]
    have hsame : ∀ f, f ∈ met ↔ f ∈ looked := by
      intro f
      constructor
      · intro hf
        exact (h.mem_looked_iff hm (hmet f hf)).2 (hperm.mem_iff.1 (List.mem_map_of_mem hf))
      · intro hf
        obtain ⟨g, hg, hid⟩ := List.mem_map.1 (hperm.mem_iff.2 (hids.mem_iff.1 (List.mem_map_of_mem hf)))
        rwa [← hm.id_inj (hmet g hg) (hlive f hf) hid]
    refine nearest?_congr fun a => ?_
    simp only [Mesh.candidates, List.mem_map, hsame]
  case alone =>
    intro id hmembers
    rw [hmembers, List.mem_singleton] at hroot hmem
    exact ⟨hroot, hmem⟩

end Region.Collects

/-- On a mesh that passes its checks, and whose rings miss no halfedge of their facet, every region is represented by
the member nearest to its centroid, and of several at the same distance by the one of the least id. -/
theorem Mesh.regions_represented (hlinks : m.checkLinks = .ok ()) (hids : m.checkFacetIds = .ok ())
    (hring : ∀ h f, m.links.IsLive h → m.links.facetOf h = some f → h ∈ (m.links.ring f).path)
    (alike : ℕ → ℕ → Bool) :
    ∃ r, m.regions alike = .ok r ∧ ∀ region ∈ r.regions.toList, region.Represented m := by
  have hm := Mesh.ringed_of_checks hlinks hids hring
  obtain ⟨r, parts, visited, hr, h⟩ := hm.regions hlinks hids alike
  refine ⟨r, hr, fun region hregion => ?_⟩
  have hroot := (hm.components h).root_mem region hregion
  rw [h.regions] at hregion
  obtain ⟨p, hp, rfl⟩ := List.mem_map.1 hregion
  obtain ⟨hseed, looked, hlooked⟩ := h.collects p hp
  exact hlooked.represented hm hseed hroot

/-- On a grid of two by two cells, three cells in the form of an L are represented by the one at its corner, and the
cell that is left out by itself. Of all four cells, which are equally near, the first one is the representative. -/
theorem Mesh.regions_represented_lShape : ∃ m, Mesh.grid 2 2 = .ok m ∧ m.checkLinks = .ok () ∧
    m.checkFacetIds = .ok () ∧
    (∀ h f, m.links.IsLive h → m.links.facetOf h = some f → h ∈ (m.links.ring f).path) ∧
    (∃ r, m.regions (fun a b => a != 2 && b != 2) = .ok r ∧ (∀ region ∈ r.regions.toList, region.Represented m) ∧
      r.regions.toList.map (·.representative) = [1, 2]) ∧
    ∃ r, m.regions (fun _ _ => true) = .ok r ∧ (∀ region ∈ r.regions.toList, region.Represented m) ∧
      r.regions.toList.map (·.representative) = [0] := by
  -- Which facets stand for the regions is evaluated, and that they are the nearest ones is read off the theorem.
  have hshape : ((Mesh.grid 2 2).toOption.bind fun m => (m.regions fun a b => a != 2 && b != 2).toOption).map
      (·.regions.toList.map (·.representative)) = some [1, 2] := by
    decide +kernel
  have hall : ((Mesh.grid 2 2).toOption.bind fun m => (m.regions fun _ _ => true).toOption).map
      (·.regions.toList.map (·.representative)) = some [0] := by
    decide +kernel
  obtain ⟨m, hgrid, hplaced⟩ := Grid.exists_placed (w := 2) (h := 2) (by decide) (by decide)
  have hm := hplaced.sound
  have hregions := Mesh.regions_represented hm.checkLinks_eq_ok hm.checkFacetIds_eq_ok fun h f => hm.mem_ring
  obtain ⟨r, hr, hrepresented⟩ := hregions fun a b => a != 2 && b != 2
  obtain ⟨r', hr', hrepresented'⟩ := hregions fun _ _ => true
  simp only [hgrid, Except.toOption, Option.bind_some, hr, hr', Option.map_some] at hshape hall
  exact ⟨m, hgrid, hm.checkLinks_eq_ok, hm.checkFacetIds_eq_ok, fun h f => hm.mem_ring,
    ⟨r, hr, hrepresented, Option.some.inj hshape⟩, r', hr', hrepresented', Option.some.inj hall⟩

end RegionMesh
