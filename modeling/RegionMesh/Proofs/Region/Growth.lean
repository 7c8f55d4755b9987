import RegionMesh.Proofs.Region.Roots

/-!
# Growing a region

The search that collects a region goes through the facets with the root of its first facet. What is known while it
runs (`Growth.Explores`) is said about two lists: the facets that were looked at, and the halfedges across which the
search has looked. Every step keeps it (`Explores.cross`, `Explores.look`), and as no facet is met twice, the search
ends with an empty queue (`Explores.grow`).

Then a facet that has the root belongs to the region if it lies beside a facet of the region. So the region holds all
facets with this root, as alike neighbours join them to the first one (`Ringed.mem_looked`, `Ringed.collect`).
-/

namespace RegionMesh

variable {m : Mesh} {sets : DisjointSets} {seed : Facet} {earlier : Std.TreeSet ℕ} {looked : List Facet}
  {crossed : List Halfedge} {g : Growth} {h : Halfedge} {f : Facet}

/-- A facet is known by its slot. -/
theorem Facet.slot_inj {f g : Facet} : f.slot = g.slot ↔ f = g :=
  ⟨fun h => congrArg Facet.mk h, congrArg Facet.slot⟩

/-! ## The search -/

namespace Growth

variable (m sets seed earlier looked crossed g) in
/-- What is known of a search that has looked at some facets and across some halfedges. -/
structure Explores : Prop where
  /-- The facets that were looked at are listed, the last one first. -/
  found : g.found = (looked.map fun f => (m.facetId f, m.centroid f)).reverse
  /-- No facet is met twice. -/
  nodup : (looked ++ g.queue).Nodup
  /-- The first facet was met. -/
  seed_mem : seed ∈ looked ++ g.queue
  /-- Live facets with the root of the first one are met, and no others. -/
  same : ∀ f ∈ looked ++ g.queue, m.links.isLiveFacet f = true ∧ m.rootIn sets f = m.rootIn sets seed
  /-- The slots of the facets that were met are known. -/
  visited : ∀ i, i ∈ g.visited ↔ i ∈ earlier ∨ ∃ f ∈ looked ++ g.queue, f.slot = i
  /-- Whatever has the root and lies across one of the halfedges was met. -/
  met : ∀ h ∈ crossed, ∀ f, m.links.facetOf h.opposite = some f →
    m.rootIn sets f = m.rootIn sets seed → f ∈ looked ++ g.queue
  /-- The other roots across the halfedges are known. -/
  neighbors : ∀ i, i ∈ g.neighbors ↔ i ≠ m.rootIn sets seed ∧
    ∃ h ∈ crossed, ∃ f, m.links.facetOf h.opposite = some f ∧ m.rootIn sets f = i
  /-- It is known whether the border was met. -/
  touchesBorder : g.touchesBorder = true ↔ ∃ h ∈ crossed, m.links.facetOf h.opposite = none

namespace Explores

/-- The search starts with its first facet. -/
theorem start (hseed : m.links.isLiveFacet seed = true) :
    Explores m sets seed earlier [] [] { queue := [seed], visited := earlier.insert seed.slot } := by
  refine ⟨rfl, by simp, by simp, by simpa using hseed, fun i => ?_, by simp, by simp, by simp⟩
  simp [Std.TreeSet.mem_insert, or_comm]

/-- Looking across an edge on the border. -/
theorem border (hg : Explores m sets seed earlier looked crossed g) (hf : m.links.facetOf h.opposite = none) :
    Explores m sets seed earlier looked (crossed ++ [h]) { g with touchesBorder := true } := by
  refine ⟨hg.found, hg.nodup, hg.seed_mem, hg.same, hg.visited, ?_, fun i => ?_, ?_⟩
  · simpa [or_imp, forall_and, hf] using hg.met
  · rw [hg.neighbors]
    simp [or_and_right, exists_or, hf]
  · simp [hf]

/-- No border is met where a facet lies across the edge. -/
theorem border_append (hf : m.links.facetOf h.opposite = some f) :
    (∃ h' ∈ crossed ++ [h], m.links.facetOf h'.opposite = none) ↔
      ∃ h' ∈ crossed, m.links.facetOf h'.opposite = none := by
  simp [or_and_right, exists_or, hf]

/-- Looking across an edge to a facet with another root. -/
theorem other (hg : Explores m sets seed earlier looked crossed g) (hf : m.links.facetOf h.opposite = some f)
    (hroot : m.rootIn sets f ≠ m.rootIn sets seed) :
    Explores m sets seed earlier looked (crossed ++ [h])
      { g with neighbors := g.neighbors.insert (m.rootIn sets f) } := by
  refine ⟨hg.found, hg.nodup, hg.seed_mem, hg.same, hg.visited, ?_, fun i => ?_,
    hg.touchesBorder.trans (border_append hf).symm⟩
  · simpa [or_imp, forall_and, hf, hroot] using hg.met
  -- The roots that were seen are those from before, and the one across the last edge.
  · rw [Std.TreeSet.mem_insert, hg.neighbors, Nat.compare_eq_eq]
    constructor
    · rintro (rfl | ⟨hi, h', hh', f', hf'⟩)
      · exact ⟨hroot, h, by simp, f, hf, rfl⟩
      · exact ⟨hi, h', by simp [hh'], f', hf'⟩
    · rintro ⟨hi, h', hh', f', hf', rfl⟩
      rcases List.mem_append.1 hh' with hh' | hh'
      · exact Or.inr ⟨hi, h', hh', f', hf', rfl⟩
      · obtain rfl : h' = h := by simpa using hh'
        rw [hf, Option.some.injEq] at hf'
        exact Or.inl (by rw [hf'])

/-- Looking across an edge to a facet that was met. -/
theorem known (hg : Explores m sets seed earlier looked crossed g) (hf : m.links.facetOf h.opposite = some f)
    (hmet : f ∈ looked ++ g.queue) : Explores m sets seed earlier looked (crossed ++ [h]) g := by
  refine ⟨hg.found, hg.nodup, hg.seed_mem, hg.same, hg.visited, fun h' hh' f' hf' hroot' => ?_, fun i => ?_,
    hg.touchesBorder.trans (border_append hf).symm⟩
  · rcases List.mem_append.1 hh' with hh' | hh'
    · exact hg.met h' hh' f' hf' hroot'
    · obtain rfl : h' = h := by simpa using hh'
      rw [hf, Option.some.injEq] at hf'
      rwa [← hf']
  -- A facet that was met has the root of the seed, so it adds no other root.
  · rw [hg.neighbors]
    refine and_congr_right fun hi => ⟨?_, ?_⟩
    · rintro ⟨h', hh', f', hf'⟩
      exact ⟨h', by simp [hh'], f', hf'⟩
    · rintro ⟨h', hh', f', hf', rfl⟩
      rcases List.mem_append.1 hh' with hh' | hh'
      · exact ⟨h', hh', f', hf', rfl⟩
      · obtain rfl : h' = h := by simpa using hh'
        rw [hf, Option.some.injEq] at hf'
        rw [← hf'] at hi
        exact absurd (hg.same f hmet).2 hi

/-- A facet with the root that was not met comes to the end of the queue. -/
theorem enqueue (hg : Explores m sets seed earlier looked crossed g) (hlive : m.links.isLiveFacet f = true)
    (hroot : m.rootIn sets f = m.rootIn sets seed) (hnew : f ∉ looked ++ g.queue) :
    Explores m sets seed earlier looked crossed
      { g with queue := g.queue ++ [f], visited := g.visited.insert f.slot } := by
  -- The facet is new at the end, and those that were met are met still.
  have hmem : ∀ f', f' ∈ looked ++ (g.queue ++ [f]) ↔ f' ∈ looked ++ g.queue ∨ f' = f := by
    intro f'
    simp [or_assoc]
  refine ⟨hg.found, ?_, (hmem _).2 (Or.inl hg.seed_mem), fun f' hf' => ?_, fun i => ?_,
    fun h' hh' f' hf' hroot' => (hmem f').2 (Or.inl (hg.met h' hh' f' hf' hroot')), hg.neighbors,
    hg.touchesBorder⟩
  · rw [← List.append_assoc]
    exact hg.nodup.append (by simp) (by simpa using hnew)
  · rcases (hmem f').1 hf' with hf' | rfl
    · exact hg.same f' hf'
    · exact ⟨hlive, hroot⟩
  · rw [Std.TreeSet.mem_insert, hg.visited, Nat.compare_eq_eq]
    simp only [hmem, or_and_right, exists_or, exists_eq_left]
    rw [or_comm, or_assoc]

/-- Looking at the next facet of the queue. -/
theorem look {queue : List Facet} (hg : Explores m sets seed earlier looked crossed g) (hq : g.queue = f :: queue) :
    Explores m sets seed earlier (looked ++ [f]) crossed
      { g with queue, found := (m.facetId f, m.centroid f) :: g.found } := by
  have hmet : (looked ++ [f]) ++ queue = looked ++ g.queue := by rw [hq, ← List.append_cons]
  refine ⟨?_, ?_, ?_, ?_, ?_, ?_, hg.neighbors, hg.touchesBorder⟩
  · simp [hg.found]
  · simpa only [hmet] using hg.nodup
  · simpa only [hmet] using hg.seed_mem
  · simpa only [hmet] using hg.same
  · simpa only [hmet] using hg.visited
  · simpa only [hmet] using hg.met

/-- There are not more facets to meet than there are in the mesh. -/
theorem length_le (hg : Explores m sets seed earlier looked crossed g) :
    looked.length + g.queue.length ≤ m.facetCount := by
  have hslots : ((looked ++ g.queue).map Facet.slot).Nodup := by
    exact hg.nodup.map fun _ _ he => Facet.slot_inj.1 he
  have hsub : (looked ++ g.queue).map Facet.slot ⊆ List.range m.facetCount := by
    intro i hi
    obtain ⟨f, hf, rfl⟩ := List.mem_map.1 hi
    exact List.mem_range.2 (Connectivity.slot_lt_of_isLiveFacet (hg.same f hf).1)
  simpa using (hslots.subperm hsub).length_le

section

-- No facet of an earlier region has the root.
variable (hearlier : ∀ f, m.links.isLiveFacet f = true → f.slot ∈ earlier →
  m.rootIn sets f ≠ m.rootIn sets seed)

include hearlier

/-- Looking across a halfedge. -/
theorem cross (hg : Explores m sets seed earlier looked crossed g)
    (hlive : ∀ f, m.links.facetOf h.opposite = some f → m.links.isLiveFacet f = true) :
    Explores m sets seed earlier looked (crossed ++ [h]) (m.cross sets (m.rootIn sets seed) g h) := by
  unfold Mesh.cross
  cases hf : m.links.facetOf h.opposite with
  | none => exact hg.border hf
  | some f =>
    simp only
    split
    · rename_i hroot
      exact hg.other hf hroot
    rename_i hroot
    rw [ne_eq, not_not] at hroot
    split
    · -- A facet that is marked was met in this search, as those of earlier regions have other roots.
      rename_i hvisited
      rw [Std.TreeSet.contains_iff_mem, hg.visited] at hvisited
      refine hg.known hf ?_
      rcases hvisited with he | ⟨f', hf', hslot⟩
      · exact absurd hroot (hearlier f (hlive f hf) he)
      · obtain rfl : f' = f := Facet.slot_inj.1 hslot
        exact hf'
    · rename_i hvisited
      rw [Std.TreeSet.contains_iff_mem, hg.visited, not_or] at hvisited
      have hnew : f ∉ looked ++ g.queue := fun hmem => hvisited.2 ⟨f, hmem, rfl⟩
      exact (hg.enqueue (hlive f hf) hroot hnew).known hf (by simp)

/-- Looking across some halfedges, one after the other. -/
theorem crossAll {hs : List Halfedge} (hg : Explores m sets seed earlier looked crossed g)
    (hlive : ∀ h ∈ hs, ∀ f, m.links.facetOf h.opposite = some f → m.links.isLiveFacet f = true) :
    Explores m sets seed earlier looked (crossed ++ hs)
      (hs.foldl (m.cross sets (m.rootIn sets seed)) g) := by
  induction hs generalizing crossed g with
  | nil => simpa using hg
  | cons h hs ih =>
    rw [List.append_cons]
    exact ih (hg.cross hearlier (hlive h List.mem_cons_self)) fun h' hh' => hlive h' (List.mem_cons_of_mem h hh')

/-- The search looks at all facets that it meets, and across all halfedges of theirs. -/
theorem grow (hm : m.Ringed) {bound : ℕ} (hg : Explores m sets seed earlier looked crossed g)
    (hcrossed : crossed = looked.flatMap fun f => (m.links.ring f).path)
    (hbound : m.facetCount ≤ looked.length + bound) :
    ∃ looked', Explores m sets seed earlier looked' (looked'.flatMap fun f => (m.links.ring f).path)
        (m.grow sets (m.rootIn sets seed) bound g) ∧
      (m.grow sets (m.rootIn sets seed) bound g).queue = [] := by
  induction bound generalizing looked crossed g with
  | zero =>
    -- All facets there are were looked at, so none is left in the queue.
    have hle := hg.length_le
    refine ⟨looked, hcrossed ▸ hg, List.eq_nil_of_length_eq_zero ?_⟩
    unfold Mesh.grow
    omega
  | succ bound ih =>
    unfold Mesh.grow
    cases hq : g.queue with
    | nil => exact ⟨looked, hcrossed ▸ hg, hq⟩
    | cons f queue =>
      have hlook := hg.look hq
      have hf := (hg.same f (by simp [hq])).1
      refine ih (hlook.crossAll hearlier fun h hh f' hf' => ?_) ?_ ?_
      · exact hm.facet_live (h := h.opposite) ((hm.mem_ring hf h).1 hh).1 hf'
      · rw [hcrossed, List.flatMap_append, List.flatMap_singleton]
      · rw [List.length_append, List.length_singleton]
        omega

end

end Explores

end Growth

/-! ## The region of a facet -/

variable (m sets seed looked) in
/-- A region as it is collected from a facet: the facets with the same root, in the order in which the search looks at
them. -/
structure Region.Collects (region : Region) : Prop where
  /-- No facet is listed twice. -/
  nodup : looked.Nodup
  /-- The facets of the region are those with the root of the first one. -/
  mem : ∀ f, f ∈ looked ↔ m.links.isLiveFacet f = true ∧ m.rootIn sets f = m.rootIn sets seed
  /-- This root stands for the region. -/
  root : region.root = m.rootIn sets seed
  /-- The members are the ids of the facets. -/
  members : region.members = (looked.map m.facetId).mergeSort
  /-- The centroid is the mean of those of the facets. -/
  centroid : region.centroid = Point.mean (looked.map m.centroid)
  /-- The representative is nearest to the centroid. -/
  representative : region.representative =
    (nearest? region.centroid (looked.map fun f => (m.facetId f, m.centroid f))).getD (m.facetId seed)
  /-- The neighbours are listed in increasing order. -/
  neighbors_sorted : region.neighbors.Pairwise (· < ·)
  /-- The neighbours are the other roots of facets that share an edge with the region. -/
  mem_neighbors : ∀ i, i ∈ region.neighbors ↔ i ≠ m.rootIn sets seed ∧
    ∃ f ∈ looked, ∃ g, m.Beside f g ∧ m.rootIn sets g = i
  /-- The region is on the border if an edge of one of its facets is. -/
  touchesBorder : region.touchesBorder = true ↔
    ∃ f ∈ looked, ∃ h ∈ (m.links.ring f).path, m.links.facetOf h.opposite = none

/-- A search that has ended has met all facets with the root, as alike neighbours join them to the first one. -/
theorem Mesh.Ringed.mem_looked (hm : m.Ringed) {alike : ℕ → ℕ → Bool}
    (hg : g.Explores m (m.alikeSets alike) seed earlier looked
      (looked.flatMap fun f => (m.links.ring f).path)) (hq : g.queue = []) (f : Facet) :
    f ∈ looked ↔ m.links.isLiveFacet f = true ∧
      m.rootIn (m.alikeSets alike) f = m.rootIn (m.alikeSets alike) seed := by
  have hseed : seed ∈ looked := by simpa [hq] using hg.seed_mem
  have hsame : ∀ f ∈ looked, m.links.isLiveFacet f = true ∧
      m.rootIn (m.alikeSets alike) f = m.rootIn (m.alikeSets alike) seed :=
    fun f hf => hg.same f (by simp [hf])
  refine ⟨hsame f, ?_⟩
  rintro ⟨hf, hroot⟩
  have hpath : m.Connected alike seed f := (hm.rootIn_eq_iff (hsame seed hseed).1 hf).1 hroot.symm
  clear hf hroot
  induction hpath with
  | refl => exact hseed
  | @tail a b hpath hstep ih =>
    -- The step leads across a halfedge of a facet that was looked at.
    obtain ⟨h, hh, ha, hb⟩ := hstep.1
    obtain ⟨halive, hroot⟩ := hsame a ih
    have hblive := hm.facet_live (h := h.opposite) hh hb
    have hcrossed : h ∈ looked.flatMap fun f => (m.links.ring f).path :=
      List.mem_flatMap.2 ⟨a, ih, (hm.mem_ring halive h).2 ⟨hh, ha⟩⟩
    have hsameRoot : m.rootIn (m.alikeSets alike) b = m.rootIn (m.alikeSets alike) seed :=
      calc m.rootIn (m.alikeSets alike) b
          = m.rootIn (m.alikeSets alike) a :=
            (hm.rootIn_eq_iff hblive halive).2 (.single hstep.symm)
        _ = m.rootIn (m.alikeSets alike) seed := hroot
    simpa [hq] using hg.met h hcrossed b hb hsameRoot

/-- What is collected from a facet is the region of all facets with its root. -/
theorem Mesh.Ringed.collect (hm : m.Ringed) {alike : ℕ → ℕ → Bool}
    (hseed : m.links.isLiveFacet seed = true)
    (hearlier : ∀ f, m.links.isLiveFacet f = true → f.slot ∈ earlier →
      m.rootIn (m.alikeSets alike) f ≠ m.rootIn (m.alikeSets alike) seed) :
    ∃ looked, (m.collect (m.alikeSets alike) seed earlier).1.Collects m (m.alikeSets alike) seed looked ∧
      ∀ i, i ∈ (m.collect (m.alikeSets alike) seed earlier).2 ↔
        i ∈ earlier ∨ ∃ f ∈ looked, f.slot = i := by
  obtain ⟨looked, hg, hq⟩ := (Growth.Explores.start hseed).grow hearlier hm rfl (Nat.le_add_left _ _)
  have hmem := hm.mem_looked hg hq
  have hring : ∀ f ∈ looked, ∀ h,
      h ∈ (m.links.ring f).path ↔ m.links.IsLive h ∧ m.links.facetOf h = some f :=
    fun f hf => hm.mem_ring ((hmem f).1 hf).1
  have hfound : (m.grow (m.alikeSets alike) (m.rootIn (m.alikeSets alike) seed) m.facetCount
      { queue := [seed], visited := earlier.insert seed.slot }).found.reverse =
        looked.map fun f => (m.facetId f, m.centroid f) := by
    rw [hg.found, List.reverse_reverse]
  have hids : (looked.map fun f => (m.facetId f, m.centroid f)).map (·.1) = looked.map m.facetId := by
    rw [List.map_map]
    rfl
  have hcentroids : (looked.map fun f => (m.facetId f, m.centroid f)).map (·.2) = looked.map m.centroid := by
    rw [List.map_map]
    rfl
  refine ⟨looked, ?_, fun i => by simpa [Mesh.collect, hq] using hg.visited i⟩
  constructor
  case nodup => simpa [hq] using hg.nodup
  case mem => exact hmem
  case root => rfl
  case members => simp only [Mesh.collect, hfound, hids]
  case centroid => simp only [Mesh.collect, hfound, hcentroids]
  case representative => simp only [Mesh.collect, hfound]
  case neighbors_sorted => exact Std.TreeSet.ordered_toList.imp Nat.compare_eq_lt.1
  case mem_neighbors =>
    -- To have looked across the halfedges of a ring is to have looked at the facets beside its facet.
    intro i
    simp only [Mesh.collect, Std.TreeSet.mem_toList, hg.neighbors, List.mem_flatMap]
    refine and_congr_right fun _ => ⟨?_, ?_⟩
    · rintro ⟨h, ⟨f, hf, hh⟩, f', hf', hroot⟩
      obtain ⟨hlive, hhf⟩ := (hring f hf h).1 hh
      exact ⟨f, hf, f', ⟨h, hlive, hhf, hf'⟩, hroot⟩
    · rintro ⟨f, hf, f', ⟨h, hlive, hhf, hf'⟩, hroot⟩
      exact ⟨h, ⟨f, hf, (hring f hf h).2 ⟨hlive, hhf⟩⟩, f', hf', hroot⟩
  case touchesBorder =>
    simp only [Mesh.collect, hg.touchesBorder, List.mem_flatMap]
    constructor
    · rintro ⟨h, ⟨f, hf, hh⟩, hnone⟩
      exact ⟨f, hf, h, hh, hnone⟩
    · rintro ⟨f, hf, h, hh, hnone⟩
      exact ⟨h, ⟨f, hf, hh⟩, hnone⟩

end RegionMesh
