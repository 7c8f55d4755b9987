import RegionMesh.Proofs.Region.Neighbors

/-!
# Partitions of facets

The partition of a report lists the members of its regions (`RegionReport.mem_partition`) in an order that does not
depend on the report (`RegionReport.leIds_total`, `RegionReport.leIds_antisymm`), so that it depends on the regions
alone and not on how they were found (`RegionReport.partition_eq`). The lists in it are the connected components of the
facets, each by increasing id (`RegionReport.Lists.mem_partition`).

Regions that are neighbours have facets that share an edge and are not alike
(`RegionReport.Lists.exists_unlike_of_neighbor`).
-/

namespace RegionMesh

namespace RegionReport

/-- The first ids decide unless they are the same. -/
theorem leIds_cons {a b : ℕ} {s t : List ℕ} :
    leIds (a :: s) (b :: t) = true ↔ a < b ∨ (a = b ∧ leIds s t = true) := by
  simp [leIds]

/-- The order of lists of ids is transitive. -/
theorem leIds_trans {s t u : List ℕ} (hst : leIds s t = true) (htu : leIds t u = true) : leIds s u = true := by
  induction s generalizing t u with
  | nil => simp [leIds]
  | cons a s ih =>
    cases t with
    | nil => simp [leIds] at hst
    | cons b t =>
      cases u with
      | nil => simp [leIds] at htu
      | cons c u =>
        rw [leIds_cons] at hst htu ⊢
        -- The first id of the first list is less, or it is the same and the rest decides.
        rcases hst with hab | ⟨rfl, hst⟩
        · exact Or.inl (by omega)
        · exact htu.imp_right fun htu => ⟨htu.1, ih hst htu.2⟩

/-- Of two lists of ids one comes before the other, or they are the same. -/
theorem leIds_total (s t : List ℕ) : leIds s t = true ∨ leIds t s = true := by
  induction s generalizing t with
  | nil => simp [leIds]
  | cons a s ih =>
    cases t with
    | nil => simp [leIds]
    | cons b t =>
      rw [leIds_cons, leIds_cons]
      rcases Nat.lt_trichotomy a b with hab | rfl | hab
      · exact Or.inl (Or.inl hab)
      · exact (ih t).imp (fun h => Or.inr ⟨rfl, h⟩) fun h => Or.inr ⟨rfl, h⟩
      · exact Or.inr (Or.inl hab)

/-- Two lists of ids of which each comes before the other one or is the same are the same. -/
theorem leIds_antisymm {s t : List ℕ} (hst : leIds s t = true) (hts : leIds t s = true) : s = t := by
  induction s generalizing t with
  | nil =>
    cases t with
    | nil => rfl
    | cons b t => simp [leIds] at hts
  | cons a s ih =>
    cases t with
    | nil => simp [leIds] at hst
    | cons b t =>
      rw [leIds_cons] at hst hts
      obtain ⟨rfl, hrest⟩ := hst.resolve_left (by omega)
      obtain ⟨-, hrest'⟩ := hts.resolve_left (Nat.lt_irrefl a)
      rw [ih hrest hrest']

/-- The partition lists the members of the regions. -/
theorem mem_partition {r : RegionReport} {l : List ℕ} :
    l ∈ r.partition ↔ ∃ region ∈ r.regions.toList, region.members = l := by
  unfold partition
  rw [(List.mergeSort_perm _ _).mem_iff, List.mem_map]

/-- The lists of a partition are in order. -/
theorem pairwise_partition (r : RegionReport) : r.partition.Pairwise fun s t => leIds s t = true := by
  have htrans : ∀ s t u, leIds s t = true → leIds t u = true → leIds s u = true := fun _ _ _ => leIds_trans
  have htotal : ∀ s t, (leIds s t || leIds t s) = true := by
    intro s t
    rw [Bool.or_eq_true]
    exact leIds_total s t
  exact List.pairwise_mergeSort htrans htotal _

/-- Partitions with the same lists, each of them once, are the same. -/
theorem partition_eq {r r' : RegionReport} (hn : r.partition.Nodup) (hn' : r'.partition.Nodup)
    (h : ∀ l, l ∈ r.partition ↔ l ∈ r'.partition) : r.partition = r'.partition :=
  ((List.perm_ext_iff_of_nodup hn hn').2 h).eq_of_pairwise (fun _ _ _ _ => leIds_antisymm) r.pairwise_partition
    r'.pairwise_partition

/-- Lists that increase strictly are the same if they have the same elements. -/
theorem eq_of_pairwise_lt {s t : List ℕ} (hs : s.Pairwise (· < ·)) (ht : t.Pairwise (· < ·))
    (h : ∀ id, id ∈ s ↔ id ∈ t) : s = t := by
  have hperm : s.Perm t := (List.perm_ext_iff_of_nodup (hs.imp Nat.ne_of_lt) (ht.imp Nat.ne_of_lt)).2 h
  exact hperm.eq_of_pairwise (fun a b _ _ hab hba => absurd hab (Nat.lt_asymm hba)) hs ht

namespace Lists

variable {m : Mesh} {alike : ℕ → ℕ → Bool} {parts : List (Facet × Region)} {r : RegionReport}
  {visited : Std.TreeSet ℕ} (hm : m.Ringed) (h : Lists m (m.alikeSets alike) m.links.liveFacets parts r visited)

include hm h

/-- The members of a region are the facets that are connected with the one it was collected from. -/
theorem mem_members_iff {p : Facet × Region} (hp : p ∈ parts) {id : ℕ} : id ∈ p.2.members ↔
    ∃ g, m.links.isLiveFacet g = true ∧ m.facetId g = id ∧ m.Connected alike p.1 g := by
  rw [h.mem_members hp]
  refine exists_congr fun g => and_congr_right fun hg => and_congr_right fun _ => ?_
  rw [← h.rootIn_eq hp, eq_comm, hm.rootIn_eq_iff (h.collects p hp).1 hg]

/-- The members of a region increase strictly. -/
theorem pairwise_members {p : Facet × Region} (hp : p ∈ parts) : p.2.members.Pairwise (· < ·) := by
  obtain ⟨-, looked, hlooked⟩ := h.collects p hp
  exact hlooked.pairwise_members hm

/-- The lists of the partition are the connected components of the facets, each by increasing id. -/
theorem mem_partition {l : List ℕ} : l ∈ r.partition ↔
    ∃ f, m.links.isLiveFacet f = true ∧ l.Pairwise (· < ·) ∧
      ∀ id, id ∈ l ↔ ∃ g, m.links.isLiveFacet g = true ∧ m.facetId g = id ∧ m.Connected alike f g := by
  rw [RegionReport.mem_partition, h.regions]
  constructor
  · rintro ⟨_, hregion, rfl⟩
    obtain ⟨p, hp, rfl⟩ := List.mem_map.1 hregion
    exact ⟨p.1, (h.collects p hp).1, h.pairwise_members hm hp, fun id => h.mem_members_iff hm hp⟩
  -- A list by increasing id is known by its elements.
  · rintro ⟨f, hf, hl, hmem⟩
    obtain ⟨p, hp, hroot⟩ := h.covered f (Connectivity.mem_liveFacets.2 hf)
    refine ⟨p.2, List.mem_map_of_mem hp, eq_of_pairwise_lt (h.pairwise_members hm hp) hl fun id => ?_⟩
    rw [hmem, h.mem_members hp]
    refine exists_congr fun g => and_congr_right fun hg => and_congr_right fun _ => ?_
    rw [← hroot, eq_comm, hm.rootIn_eq_iff hf hg]

/-- No list comes twice in the partition. -/
theorem nodup_partition : r.partition.Nodup := by
  unfold partition
  rw [(List.mergeSort_perm _ _).nodup_iff, h.regions, List.map_map, List.Nodup, List.pairwise_map]
  refine h.pairwise_root_ne.imp_of_mem fun {p q} hp hq hne he => hne ?_
  -- The facet that one of the regions was collected from would be in both.
  have hlive := (h.collects p hp).1
  have hmem : m.facetId p.1 ∈ p.2.members := (h.facetId_mem_iff hm hp hlive).2 (h.rootIn_eq hp)
  have hmem' : m.facetId p.1 ∈ q.2.members := (congrArg (m.facetId p.1 ∈ ·) he).mp hmem
  exact (h.rootIn_eq hp).symm.trans ((h.facetId_mem_iff hm hq hlive).1 hmem')

/-- Regions that are neighbours have facets that share an edge and are not alike. -/
theorem exists_unlike_of_neighbor {a b : Region} (ha : a ∈ r.regions.toList) (hb : b ∈ r.regions.toList)
    (hroot : b.root ∈ a.neighbors) : ∃ f g, m.Beside f g ∧ m.facetId f ∈ a.members ∧ m.facetId g ∈ b.members ∧
      alike (m.facetId f) (m.facetId g) = false := by
  rw [h.regions] at ha hb
  obtain ⟨p, hp, rfl⟩ := List.mem_map.1 ha
  obtain ⟨q, hq, rfl⟩ := List.mem_map.1 hb
  obtain ⟨hne, f, g, hbeside, hfp, hgq⟩ := (h.root_mem_neighbors hm hp hq).1 hroot
  obtain ⟨hflive, hglive⟩ := hm.beside_live hbeside
  refine ⟨f, g, hbeside, hfp, hgq, ?_⟩
  -- Facets that are alike have the same root.
  by_contra halike
  have hstep : m.AlikeBeside alike f g := ⟨hbeside, Or.inl (Bool.eq_true_of_not_eq_false halike)⟩
  have hsame := (hm.rootIn_eq_iff hflive hglive).2 (.single hstep)
  rw [(h.facetId_mem_iff hm hp hflive).1 hfp, (h.facetId_mem_iff hm hq hglive).1 hgq] at hsame
  exact hne hsame.symm

end Lists

end RegionReport

end RegionMesh
