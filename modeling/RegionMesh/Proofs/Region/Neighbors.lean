import RegionMesh.Proofs.Region.Report

/-!
# Neighbouring regions

Regions adjoin each other if some facet of the one shares an edge with some facet of the other one
(`Mesh.Adjoin`). A report lists for every region the roots of exactly those others that adjoin it, and says of every
region whether one of its facets has an edge on the border (`RegionReport.Contacts`).

Both are read off what the search for the region has met on its way (`Region.Collects`). The search knows the facets
across an edge by their roots alone. Every live facet is in the region with its root, so that the roots stand for
regions (`RegionReport.Lists.mem_neighbors`).
-/

namespace RegionMesh

variable {m : Mesh} {alike : ℕ → ℕ → Bool}

/-- Some facet of one region shares an edge with some facet of another one. -/
def Mesh.Adjoin (m : Mesh) (a b : Region) : Prop :=
  ∃ f g, m.Beside f g ∧ m.facetId f ∈ a.members ∧ m.facetId g ∈ b.members

/-- Two regions adjoin each other. -/
theorem Mesh.Adjoin.symm {a b : Region} (h : m.Adjoin a b) : m.Adjoin b a := by
  obtain ⟨f, g, hbeside, hf, hg⟩ := h
  exact ⟨g, f, hbeside.symm, hg, hf⟩

namespace RegionReport

variable (m) in
/-- What a report says of its regions' surroundings. -/
structure Contacts (r : RegionReport) : Prop where
  /-- The neighbours of a region increase strictly. -/
  sorted : ∀ a ∈ r.regions.toList, a.neighbors.Pairwise (· < ·)
  /-- They are the roots of the other regions that adjoin it. -/
  mem_neighbors : ∀ a ∈ r.regions.toList, ∀ id, id ∈ a.neighbors ↔
    ∃ b ∈ r.regions.toList, b ≠ a ∧ m.Adjoin a b ∧ b.root = id
  /-- If a region is a neighbour of another one, so is that of it. -/
  symm : ∀ a ∈ r.regions.toList, ∀ b ∈ r.regions.toList, a.root ∈ b.neighbors ↔ b.root ∈ a.neighbors
  /-- No region is its own neighbour. -/
  root_notMem : ∀ a ∈ r.regions.toList, a.root ∉ a.neighbors
  /-- A region touches the border if the ring of one of its facets has a halfedge across which there is no facet. -/
  touchesBorder : ∀ a ∈ r.regions.toList, (a.touchesBorder = true ↔
    ∃ f, m.links.isLiveFacet f = true ∧ m.facetId f ∈ a.members ∧
      ∃ h ∈ (m.links.ring f).path, m.links.isBorder h.opposite = true)

namespace Lists

variable {parts : List (Facet × Region)} {r : RegionReport} {visited : Std.TreeSet ℕ} (hm : m.Ringed)
  (h : Lists m (m.alikeSets alike) m.links.liveFacets parts r visited) {p q : Facet × Region}

include hm h

/-- A region's neighbours are the roots of the regions with another root that adjoin it. -/
theorem mem_neighbors (hp : p ∈ parts) {id : ℕ} : id ∈ p.2.neighbors ↔
    ∃ q ∈ parts, q.2.root ≠ p.2.root ∧ m.Adjoin p.2 q.2 ∧ q.2.root = id := by
  obtain ⟨-, looked, hlooked⟩ := h.collects p hp
  rw [hlooked.mem_neighbors, h.rootIn_eq hp]
  constructor
  · rintro ⟨hne, f, hf, g, hbeside, rfl⟩
    obtain ⟨hflive, hglive⟩ := hm.beside_live hbeside
    -- The facet on the other side is in a region of its own root, as the regions cover all facets.
    obtain ⟨q, hq, hroot⟩ := h.covered g (Connectivity.mem_liveFacets.2 hglive)
    have hfp : m.facetId f ∈ p.2.members :=
      (h.facetId_mem_iff hm hp hflive).2 (((hlooked.mem f).1 hf).2.trans (h.rootIn_eq hp))
    have hgq : m.facetId g ∈ q.2.members := (h.facetId_mem_iff hm hq hglive).2 hroot
    exact ⟨q, hq, hroot ▸ hne, ⟨f, g, hbeside, hfp, hgq⟩, hroot.symm⟩
  · rintro ⟨q, hq, hne, ⟨f, g, hbeside, hfp, hgq⟩, rfl⟩
    obtain ⟨hflive, hglive⟩ := hm.beside_live hbeside
    have hfroot := (h.facetId_mem_iff hm hp hflive).1 hfp
    refine ⟨hne, f, (hlooked.mem f).2 ⟨hflive, hfroot.trans (h.rootIn_eq hp).symm⟩, g, hbeside, ?_⟩
    exact (h.facetId_mem_iff hm hq hglive).1 hgq

/-- The root of a region is a neighbour of another one that it adjoins. -/
theorem root_mem_neighbors (hp : p ∈ parts) (hq : q ∈ parts) :
    q.2.root ∈ p.2.neighbors ↔ q.2.root ≠ p.2.root ∧ m.Adjoin p.2 q.2 := by
  rw [h.mem_neighbors hm hp]
  constructor
  · rintro ⟨q', hq', hne, hadjoin, hroot⟩
    -- Regions with the same root have the same members.
    obtain ⟨f, g, hbeside, hf, hg⟩ := hadjoin
    have hglive := (hm.beside_live hbeside).2
    have hgroot := (h.facetId_mem_iff hm hq' hglive).1 hg
    exact ⟨hroot ▸ hne, f, g, hbeside, hf, (h.facetId_mem_iff hm hq hglive).2 (hgroot.trans hroot)⟩
  · rintro ⟨hne, hadjoin⟩
    exact ⟨q, hq, hne, hadjoin, rfl⟩

/-- A region touches the border if a facet of it has a halfedge across which there is none. -/
theorem touchesBorder_iff (hp : p ∈ parts) : p.2.touchesBorder = true ↔
    ∃ f, m.links.isLiveFacet f = true ∧ m.facetId f ∈ p.2.members ∧
      ∃ h ∈ (m.links.ring f).path, m.links.isBorder h.opposite = true := by
  obtain ⟨-, looked, hlooked⟩ := h.collects p hp
  -- The facets that were looked at are those of the members.
  have hlooked_iff : ∀ f, f ∈ looked ↔ m.links.isLiveFacet f = true ∧ m.facetId f ∈ p.2.members := by
    intro f
    rw [hlooked.mem, h.rootIn_eq hp]
    exact and_congr_right fun hf => (h.facetId_mem_iff hm hp hf).symm
  rw [hlooked.touchesBorder]
  simp only [hlooked_iff, Connectivity.isBorder, Option.isNone_iff_eq_none, and_assoc]

end Lists

end RegionReport

/-- A report that lists the regions of all live facets says which of them adjoin each other, and which the border. -/
theorem Mesh.Ringed.contacts (hm : m.Ringed) {parts : List (Facet × Region)} {r : RegionReport}
    {visited : Std.TreeSet ℕ}
    (h : RegionReport.Lists m (m.alikeSets alike) m.links.liveFacets parts r visited) : r.Contacts m := by
  -- Different regions have different roots.
  have hroot : ∀ p ∈ parts, ∀ q ∈ parts, q.2.root ≠ p.2.root ↔ q.2 ≠ p.2 := by
    intro p hp q hq
    have hinj := List.inj_on_of_nodup_map (hm.components h).nodup_roots
    rw [h.regions] at hinj
    exact not_congr ⟨hinj (List.mem_map_of_mem hq) (List.mem_map_of_mem hp), congrArg Region.root⟩
  constructor
  case sorted =>
    rw [h.regions, List.forall_mem_map]
    intro p hp
    obtain ⟨-, looked, hlooked⟩ := h.collects p hp
    exact hlooked.neighbors_sorted
  case mem_neighbors =>
    rw [h.regions, List.forall_mem_map]
    intro p hp id
    simp only [h.mem_neighbors hm hp, List.mem_map, exists_exists_and_eq_and]
    exact exists_congr fun q => and_congr_right fun hq => and_congr_left fun _ => hroot p hp q hq
  case symm =>
    rw [h.regions, List.forall_mem_map]
    intro p hp
    rw [List.forall_mem_map]
    intro q hq
    rw [h.root_mem_neighbors hm hq hp, h.root_mem_neighbors hm hp hq]
    exact and_congr ne_comm ⟨Mesh.Adjoin.symm, Mesh.Adjoin.symm⟩
  case root_notMem =>
    rw [h.regions, List.forall_mem_map]
    intro p hp hmem
    exact ((h.root_mem_neighbors hm hp hp).1 hmem).1 rfl
  case touchesBorder =>
    rw [h.regions, List.forall_mem_map]
    exact fun p hp => h.touchesBorder_iff hm hp

/-- On a mesh that passes its checks, and whose rings miss no halfedge of their facet, a region's neighbours are the
regions that share an edge with it, and it touches the border if one of its edges is there. -/
theorem Mesh.regions_contacts (hlinks : m.checkLinks = .ok ()) (hids : m.checkFacetIds = .ok ())
    (hring : ∀ h f, m.links.IsLive h → m.links.facetOf h = some f → h ∈ (m.links.ring f).path)
    (alike : ℕ → ℕ → Bool) : ∃ r, m.regions alike = .ok r ∧ r.Contacts m := by
  have hm := Mesh.ringed_of_checks hlinks hids hring
  obtain ⟨r, parts, visited, hr, h⟩ := hm.regions hlinks hids alike
  exact ⟨r, hr, hm.contacts h⟩

/-- Two triangles with a common edge that are not alike are regions of their own and neighbours of each other. -/
theorem Mesh.regions_contacts_unlike :
    let m := (EditorCall.run (EditorCall.erasedTriangle.take 16) {}).mesh
    m.checkLinks = .ok () ∧ m.checkFacetIds = .ok () ∧
      (∀ h f, m.links.IsLive h → m.links.facetOf h = some f → h ∈ (m.links.ring f).path) ∧
      ∃ r, m.regions (fun _ _ => false) = .ok r ∧ r.Contacts m ∧
        r.regions.toList.map (·.neighbors) = [[2], [1]] := by
  have horderly : Orderly (EditorCall.erasedTriangle.take 16) := by decide +kernel
  have hm := horderly.sound
  obtain ⟨r, hr, hcontacts⟩ := Mesh.regions_contacts hm.checkLinks_eq_ok hm.checkFacetIds_eq_ok
    (fun h f => hm.mem_ring) fun _ _ => false
  -- The report is evaluated for its neighbours alone.
  have hneighbors : (Mesh.regions (EditorCall.run (EditorCall.erasedTriangle.take 16) {}).mesh
      fun _ _ => false).map (fun r => r.regions.toList.map (·.neighbors)) = .ok [[2], [1]] := by
    decide +kernel
  rw [hr] at hneighbors
  exact ⟨hm.checkLinks_eq_ok, hm.checkFacetIds_eq_ok, fun h f => hm.mem_ring, r, hr, hcontacts,
    Except.ok.inj hneighbors⟩

end RegionMesh
