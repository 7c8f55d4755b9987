import RegionMesh.Proofs.Connectivity.Rings
import RegionMesh.Proofs.DisjointSets
import RegionMesh.Proofs.Mesh.Sound
import RegionMesh.Region.Report

/-!
# Alike neighbours

Which facets belong together: those that a path of alike neighbours joins (`Mesh.Connected`). The sets that come
about when alike neighbours are united are the classes of this relation (`Ringed.joinAlike`), so two facets have the
same root if and only if such a path joins them (`Ringed.rootIn_eq_iff`).

All this needs of a mesh is that a live facet's ring lists its halfedges and that its id is its own (`Mesh.Ringed`),
which the checks and one more fact about rings say (`Mesh.ringed_of_checks`).
-/

namespace RegionMesh

namespace Mesh

variable (m : Mesh)

/-- The ring of a live facet lists its halfedges, and no other live facet has its id. -/
structure Ringed : Prop where
  /-- A halfedge's facet is live. -/
  facet_live : ∀ {h f}, m.links.IsLive h → m.links.facetOf h = some f → m.links.isLiveFacet f = true
  /-- The halfedges of a facet are those of its ring. -/
  mem_ring : ∀ {f}, m.links.isLiveFacet f = true → ∀ h,
    h ∈ (m.links.ring f).path ↔ m.links.IsLive h ∧ m.links.facetOf h = some f
  /-- Different facets have different ids. -/
  id_inj : ∀ {f g}, m.links.isLiveFacet f = true → m.links.isLiveFacet g = true →
    m.facetId f = m.facetId g → f = g

/-- Two facets share an edge. -/
def Beside (f g : Facet) : Prop :=
  ∃ h, m.links.IsLive h ∧ m.links.facetOf h = some f ∧ m.links.facetOf h.opposite = some g

/-- Two facets share an edge and are alike, in one order or the other. -/
def AlikeBeside (alike : ℕ → ℕ → Bool) (f g : Facet) : Prop :=
  m.Beside f g ∧ (alike (m.facetId f) (m.facetId g) = true ∨ alike (m.facetId g) (m.facetId f) = true)

/-- A path of facets joins two of them on which each shares an edge with the next one and is alike to it. -/
def Connected (alike : ℕ → ℕ → Bool) : Facet → Facet → Prop := Relation.ReflTransGen (m.AlikeBeside alike)

/-- The id of a neighbour that is alike, by the id of the facet. -/
def AlikeIds (alike : ℕ → ℕ → Bool) (a b : ℕ) : Prop :=
  ∃ f g, m.Beside f g ∧ m.facetId f = a ∧ m.facetId g = b ∧ alike a b = true

/-- The sets of alike facets, every root the parent of the facets below it. -/
def alikeSets (alike : ℕ → ℕ → Bool) : DisjointSets :=
  (m.joinAlike alike).compress (m.links.liveFacets.map m.facetId)

variable {m} {alike : ℕ → ℕ → Bool} {f g : Facet}

/-- Checked links and ids, with rings that miss no halfedge of their facet. -/
theorem ringed_of_checks (hlinks : m.checkLinks = .ok ()) (hids : m.checkFacetIds = .ok ())
    (hring : ∀ h f, m.links.IsLive h → m.links.facetOf h = some f → h ∈ (m.links.ring f).path) :
    m.Ringed := by
  refine ⟨fun hh => Connectivity.facet_live_of_check hlinks hh, fun hf h => ?_, fun hf hg he => ?_⟩
  · exact ⟨Connectivity.ring_of_check hlinks hf h, fun hh => hring h _ hh.1 hh.2⟩
  · rw [checkFacetIds_eq_ok] at hids
    exact List.inj_on_of_nodup_map hids (Connectivity.mem_liveFacets.2 hf) (Connectivity.mem_liveFacets.2 hg) he

/-- Links that are in order, and facets with different ids. -/
theorem ringed_of_wellFormed (hc : m.links.WellFormed) (hid : ∀ {f g}, m.links.isLiveFacet f = true →
    m.links.isLiveFacet g = true → m.facetId f = m.facetId g → f = g) : m.Ringed :=
  ⟨hc.facet_live, fun hf h => (hc.ringOf hf).mem h, hid⟩

/-- On a sound mesh the rings hold all halfedges of their facets, and the ids of the facets differ. -/
theorem Sound.ringed (hm : m.Sound) : m.Ringed := ringed_of_wellFormed hm.wellFormed hm.facets.inj

/-- In a sound mesh no halfedge of a facet is missing from its ring. -/
theorem Sound.mem_ring (hm : m.Sound) {h : Halfedge} (hh : m.links.IsLive h) (hf : m.links.facetOf h = some f) :
    h ∈ (m.links.ring f).path :=
  (hm.ringed.mem_ring (hm.ringed.facet_live hh hf) h).2 ⟨hh, hf⟩

/-- Two facets are beside each other. -/
theorem Beside.symm (h : m.Beside f g) : m.Beside g f := by
  obtain ⟨h, hh, hf, hg⟩ := h
  exact ⟨h.opposite, hh, hg, by rwa [Halfedge.opposite_opposite]⟩

/-- Two facets that are beside each other are alike in one order or the other. -/
theorem AlikeBeside.symm (h : m.AlikeBeside alike f g) : m.AlikeBeside alike g f :=
  ⟨h.1.symm, h.2.symm⟩

/-- A path may be walked backwards. -/
theorem Connected.symm (h : m.Connected alike f g) : m.Connected alike g f := by
  induction h with
  | refl => exact .refl
  | tail _ hstep ih => exact .head hstep.symm ih

namespace Ringed

variable (hm : m.Ringed)

include hm

/-- Facets that share an edge are live. -/
theorem beside_live (h : m.Beside f g) :
    m.links.isLiveFacet f = true ∧ m.links.isLiveFacet g = true := by
  obtain ⟨h, hh, hf, hg⟩ := h
  exact ⟨hm.facet_live hh hf, hm.facet_live (h := h.opposite) hh hg⟩

/-- The neighbours of a facet are those that share an edge with it. -/
theorem mem_neighborIds (hf : m.links.isLiveFacet f = true) {id : ℕ} :
    id ∈ m.neighborIds f ↔ ∃ g, m.Beside f g ∧ m.facetId g = id := by
  unfold neighborIds Connectivity.neighbors
  simp only [List.mem_map, List.mem_filterMap, hm.mem_ring hf]
  constructor
  · rintro ⟨g, ⟨h, ⟨hh, hhf⟩, hg⟩, rfl⟩
    exact ⟨g, ⟨h, hh, hhf, hg⟩, rfl⟩
  · rintro ⟨g, ⟨h, hh, hhf, hg⟩, rfl⟩
    exact ⟨g, ⟨h, ⟨hh, hhf⟩, hg⟩, rfl⟩

end Ringed

/-! ## Uniting neighbours -/

variable {sets : DisjointSets} {tracked : ℕ → Prop} {united : ℕ → ℕ → Prop} {a : ℕ}

open DisjointSets (Partitions)

/-- A facet is united with a neighbour that is alike. -/
theorem partitions_joinPair (h : sets.Partitions tracked united) (ha : tracked a) (b : ℕ) :
    (joinPair alike sets a b).Partitions (fun x => tracked x ∨ x = b)
      (fun x y => united x y ∨ (x = a ∧ y = b ∧ alike x y = true)) := by
  have hinsert := h.insert b
  unfold joinPair
  -- The neighbour is tracked in any case, and united with the facet only if they are alike.
  by_cases hab : alike a b = true
  · rw [if_pos hab]
    refine (hinsert.union (Or.inl ha) (Or.inr rfl)).congr (fun _ => Iff.rfl) fun x y => ?_
    refine or_congr_right ⟨fun hxy => ⟨hxy.1, hxy.2.1⟩, ?_⟩
    rintro ⟨rfl, rfl⟩
    exact ⟨rfl, rfl, hab⟩
  · rw [if_neg hab]
    refine hinsert.congr (fun _ => Iff.rfl) fun x y => or_iff_left ?_
    rintro ⟨rfl, rfl, hxy⟩
    exact hab hxy

/-- A facet is united with all its neighbours that are alike. -/
theorem partitions_joinPairs (alike : ℕ → ℕ → Bool) (h : sets.Partitions tracked united) (ha : tracked a)
    (ids : List ℕ) :
    (ids.foldl (fun sets b => joinPair alike sets a b) sets).Partitions (fun x => tracked x ∨ x ∈ ids)
      (fun x y => united x y ∨ (x = a ∧ y ∈ ids ∧ alike x y = true)) := by
  induction ids generalizing sets tracked united with
  | nil => exact h.congr (by simp) (by simp)
  | cons b ids ih =>
    refine (ih (partitions_joinPair h ha b) (Or.inl ha)).congr (fun x => ?_) fun x y => ?_
    · rw [List.mem_cons, or_assoc]
    · rw [List.mem_cons, or_assoc, ← and_or_left, ← or_and_right]

/-- The facets of a list are united with their neighbours that are alike. -/
theorem partitions_joinFacets (h : sets.Partitions tracked united) (fs : List Facet) :
    (fs.foldl (fun sets f => (m.neighborIds f).foldl (fun sets g => joinPair alike sets (m.facetId f) g)
        (sets.insert (m.facetId f)).2) sets).Partitions
      (fun x => tracked x ∨ ∃ f ∈ fs, x = m.facetId f ∨ x ∈ m.neighborIds f)
      (fun x y => united x y ∨ ∃ f ∈ fs, x = m.facetId f ∧ y ∈ m.neighborIds f ∧ alike x y = true) := by
  induction fs generalizing sets tracked united with
  | nil => exact h.congr (by simp) (by simp)
  | cons f fs ih =>
    have hf := partitions_joinPairs alike (h.insert (m.facetId f)) (Or.inr rfl) (m.neighborIds f)
    refine (ih hf).congr (fun x => ?_) fun x y => ?_
    · rw [List.exists_mem_cons_iff, or_assoc, or_assoc, or_assoc]
    · rw [List.exists_mem_cons_iff, or_assoc]

namespace Ringed

variable (hm : m.Ringed)

include hm

/-- The sets of a mesh hold the ids of its live facets, and come from uniting neighbours that are alike. -/
theorem joinAlike (alike : ℕ → ℕ → Bool) : (m.joinAlike alike).Partitions
    (fun id => ∃ f, m.links.isLiveFacet f = true ∧ m.facetId f = id) (m.AlikeIds alike) := by
  refine (partitions_joinFacets Partitions.empty m.links.liveFacets).congr (fun id => ?_) fun a b => ?_
  · simp only [false_or, Connectivity.mem_liveFacets]
    constructor
    · rintro ⟨f, hf, rfl⟩
      exact ⟨f, hf, Or.inl rfl⟩
    -- A neighbour is a live facet too, so no id of anything else is tracked.
    · rintro ⟨f, hf, rfl | hid⟩
      · exact ⟨f, hf, rfl⟩
      · obtain ⟨g, hfg, rfl⟩ := (hm.mem_neighborIds hf).1 hid
        exact ⟨g, (hm.beside_live hfg).2, rfl⟩
  · simp only [false_or, Connectivity.mem_liveFacets]
    constructor
    · rintro ⟨f, g, hfg, rfl, rfl, hab⟩
      have hf := (hm.beside_live hfg).1
      exact ⟨f, hf, rfl, (hm.mem_neighborIds hf).2 ⟨g, hfg, rfl⟩, hab⟩
    · rintro ⟨f, hf, rfl, hb, hab⟩
      obtain ⟨g, hfg, rfl⟩ := (hm.mem_neighborIds hf).1 hb
      exact ⟨f, g, hfg, rfl, rfl, hab⟩

/-- Equivalent ids are the same, or those of connected facets. -/
theorem connected_of_eqvGen {b : ℕ} (h : Relation.EqvGen (m.AlikeIds alike) a b) :
    a = b ∨ ∃ f g, m.links.isLiveFacet f = true ∧ m.links.isLiveFacet g = true ∧ m.facetId f = a ∧
      m.facetId g = b ∧ m.Connected alike f g := by
  induction h with
  | rel a b hab =>
    obtain ⟨f, g, hfg, rfl, rfl, hab⟩ := hab
    obtain ⟨hf, hg⟩ := hm.beside_live hfg
    exact Or.inr ⟨f, g, hf, hg, rfl, rfl, Relation.ReflTransGen.single ⟨hfg, Or.inl hab⟩⟩
  | refl a => exact Or.inl rfl
  | symm a b _ ih =>
    refine ih.imp Eq.symm ?_
    rintro ⟨f, g, hf, hg, rfl, rfl, hfg⟩
    exact ⟨g, f, hg, hf, rfl, rfl, hfg.symm⟩
  | trans a b c _ _ ih₁ ih₂ =>
    rcases ih₁ with rfl | ⟨f, g, hf, hg, rfl, rfl, hfg⟩
    · exact ih₂
    · rcases ih₂ with rfl | ⟨g', k, hg', hk, he, rfl, hgk⟩
      · exact Or.inr ⟨f, g, hf, hg, rfl, rfl, hfg⟩
      · -- The paths meet at one facet, as the id is not that of another one.
        obtain rfl := hm.id_inj hg' hg he
        exact Or.inr ⟨f, k, hf, hk, rfl, rfl, hfg.trans hgk⟩

/-- The ids of two live facets are equivalent if the facets are connected. -/
theorem eqvGen_iff (hf : m.links.isLiveFacet f = true) (hg : m.links.isLiveFacet g = true) :
    Relation.EqvGen (m.AlikeIds alike) (m.facetId f) (m.facetId g) ↔ m.Connected alike f g := by
  constructor
  · intro h
    rcases hm.connected_of_eqvGen h with he | ⟨f', g', hf', hg', hfe, hge, hfg⟩
    · obtain rfl := hm.id_inj hf hg he
      exact Relation.ReflTransGen.refl
    · obtain rfl := hm.id_inj hf' hf hfe
      obtain rfl := hm.id_inj hg' hg hge
      exact hfg
  · intro h
    clear hf hg
    induction h with
    | refl => exact Relation.EqvGen.refl _
    | tail _ hstep ih =>
      -- Facets are united by whichever of the two is alike to the other.
      obtain ⟨hbeside, halike | halike⟩ := hstep
      · exact ih.trans _ _ _ (.rel _ _ ⟨_, _, hbeside, rfl, rfl, halike⟩)
      · exact ih.trans _ _ _ ((Relation.EqvGen.rel _ _ ⟨_, _, hbeside.symm, rfl, rfl, halike⟩).symm _ _)

/-- The root in which a facet's id is found is its parent after the compression. -/
theorem find?_facetId (alike : ℕ → ℕ → Bool) (hf : m.links.isLiveFacet f = true) :
    (m.joinAlike alike).find? (m.facetId f) = some (m.rootIn (m.alikeSets alike) f) := by
  have hparts := hm.joinAlike alike
  obtain ⟨r, hr⟩ := hparts.toForest.exists_find? ((hparts.contains_iff_tracked _).2 ⟨f, hf, rfl⟩)
  have hmem : m.facetId f ∈ m.links.liveFacets.map m.facetId :=
    List.mem_map_of_mem (Connectivity.mem_liveFacets.2 hf)
  unfold rootIn alikeSets
  rw [(hparts.toForest.compress _).2.2.2 _ hmem, hr]
  rfl

/-- Two facets have the same root if a path of alike neighbours joins them. -/
theorem rootIn_eq_iff (hf : m.links.isLiveFacet f = true) (hg : m.links.isLiveFacet g = true) :
    m.rootIn (m.alikeSets alike) f = m.rootIn (m.alikeSets alike) g ↔ m.Connected alike f g := by
  have hparts := hm.joinAlike alike
  rw [← hm.eqvGen_iff hf hg, ← hparts.find?_eq_iff _ _ ⟨f, hf, rfl⟩ ⟨g, hg, rfl⟩,
    hm.find?_facetId alike hf, hm.find?_facetId alike hg, Option.some.injEq]

/-- The root of a facet is the id of a facet with this root. -/
theorem exists_root (alike : ℕ → ℕ → Bool) (hf : m.links.isLiveFacet f = true) :
    ∃ g, m.links.isLiveFacet g = true ∧ m.facetId g = m.rootIn (m.alikeSets alike) f ∧
      m.rootIn (m.alikeSets alike) g = m.rootIn (m.alikeSets alike) f := by
  have hparts := hm.joinAlike alike
  obtain ⟨htracked, -, hroot⟩ := hparts.toForest.find?_root (hm.find?_facetId alike hf)
  obtain ⟨g, hg, hid⟩ := (hparts.contains_iff_tracked _).1 htracked
  refine ⟨g, hg, hid, ?_⟩
  rw [← hid, hm.find?_facetId alike hg, Option.some.injEq] at hroot
  rw [hroot, hid]

end Ringed

end Mesh

end RegionMesh
