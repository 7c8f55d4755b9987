import RegionMesh.Proofs.Region.Report

/-!
# Regions of a renamed mesh

A report names facets by their ids, so it does not change when the elements of a mesh get other handles, as long as
the live facets stay in storage order (`Mesh.Renames`). The two searches run in step: what one has met the other has
met under the new handle (`Growth.Follows`). Each halfedge that is looked across keeps this (`Renames.cross`), and so
does each facet that is looked at (`Renames.grow`), so that facet after facet adds the same region
(`Renames.addRegion`).

Only the bounds of the searches differ, as a mesh that is stored more tightly has fewer facets to count. A search that
has ended is the same under every greater bound (`grow_eq_of_le`).
-/

namespace RegionMesh

variable {m : Mesh} {r : Renumbering} {m' : Mesh} {sets : DisjointSets} {seed : Facet} {earlier : Std.TreeSet ℕ}
  {alike : ℕ → ℕ → Bool}

namespace Mesh

/-! ## Bounds -/

/-- A search that has nothing left to look at does not go on. -/
theorem grow_add {root bound : ℕ} {g : Growth} (hq : (m.grow sets root bound g).queue = []) (k : ℕ) :
    m.grow sets root (bound + k) g = m.grow sets root bound g := by
  induction bound generalizing g with
  | zero =>
    have hnil : g.queue = [] := hq
    cases k with
    | zero => rfl
    | succ k =>
      rw [Nat.zero_add]
      unfold grow
      rw [hnil]
  | succ bound ih =>
    rw [Nat.add_right_comm]
    unfold grow at hq ⊢
    -- An empty queue ends the search at any bound, and any other one has its first facet looked at on both sides.
    cases hg : g.queue with
    | nil => rfl
    | cons f queue =>
      rw [hg] at hq
      exact ih hq

/-- A search is over when it may look at as many facets as there are. -/
theorem grow_eq_of_le (hm : m.Ringed) (hseed : m.links.isLiveFacet seed = true)
    (hearlier : ∀ f, m.links.isLiveFacet f = true → f.slot ∈ earlier →
      m.rootIn sets f ≠ m.rootIn sets seed) {bound : ℕ} (hle : m.facetCount ≤ bound) :
    m.grow sets (m.rootIn sets seed) bound { queue := [seed], visited := earlier.insert seed.slot } =
      m.grow sets (m.rootIn sets seed) m.facetCount
        { queue := [seed], visited := earlier.insert seed.slot } := by
  obtain ⟨-, -, hq⟩ := (Growth.Explores.start hseed).grow hearlier hm rfl (Nat.le_add_left _ _)
  obtain ⟨k, rfl⟩ := Nat.exists_eq_add_of_le hle
  exact grow_add hq k

/-! ## What is renamed -/

variable (m r m') in
/-- The elements of a mesh have other handles, the facets in the same order, and everything else is as it was. -/
structure Renames : Prop where
  /-- The elements are linked as they were. -/
  links : m.links.Renames r m'.links
  /-- The facets keep their order. -/
  liveFacets : m'.links.liveFacets = m.links.liveFacets.map r.facet
  /-- The vertices keep their positions. -/
  point : ∀ {v}, m.links.isLiveVertex v = true → m'.point (r.vertex v) = m.point v
  /-- The facets keep their ids. -/
  facetId : ∀ {f}, m.links.isLiveFacet f = true → m'.facetId (r.facet f) = m.facetId f

variable (m r) in
/-- The same live facets are marked, under their old and under their new handles. -/
def SameMarks (marked marked' : Std.TreeSet ℕ) : Prop :=
  ∀ f, m.links.isLiveFacet f = true → ((r.facet f).slot ∈ marked' ↔ f.slot ∈ marked)

end Mesh

variable (m r) in
/-- A search has met, under the new handles, what another one has met under the old ones. -/
structure Growth.Follows (g' g : Growth) : Prop where
  /-- The facets in the queue are the same. -/
  queue : g'.queue = g.queue.map r.facet
  /-- They are live. -/
  live : ∀ f ∈ g.queue, m.links.isLiveFacet f = true
  /-- The same facets were met. -/
  visited : m.SameMarks r g.visited g'.visited
  /-- The same facets were looked at. -/
  found : g'.found = g.found
  /-- The same roots were met. -/
  neighbors : g'.neighbors = g.neighbors
  /-- The border was met by both or by none. -/
  touchesBorder : g'.touchesBorder = g.touchesBorder

namespace Mesh.Renames

variable (hr : m.Renames r m') (hc : m.links.WellFormed)

include hr

/-- A facet has the root that it had. -/
theorem rootIn {f : Facet} (hf : m.links.isLiveFacet f = true) :
    m'.rootIn sets (r.facet f) = m.rootIn sets f := by
  unfold Mesh.rootIn
  rw [hr.facetId hf]

/-- The live facets have the same ids, in the same order. -/
theorem map_facetId : m'.links.liveFacets.map m'.facetId = m.links.liveFacets.map m.facetId := by
  rw [hr.liveFacets, List.map_map]
  exact List.map_congr_left fun f hf => hr.facetId (Connectivity.mem_liveFacets.1 hf)

/-- Another facet is marked in both. -/
theorem sameMarks_insert {marked marked' : Std.TreeSet ℕ} (h : m.SameMarks r marked marked') {f : Facet}
    (hf : m.links.isLiveFacet f = true) :
    m.SameMarks r (marked.insert f.slot) (marked'.insert (r.facet f).slot) := by
  intro g hg
  have hsame : (r.facet f).slot = (r.facet g).slot ↔ f.slot = g.slot := by
    rw [Facet.slot_inj, Facet.slot_inj]
    exact ⟨hr.links.facet_inj hf hg, congrArg r.facet⟩
  rw [Std.TreeSet.mem_insert, Std.TreeSet.mem_insert, h g hg, Nat.compare_eq_eq, Nat.compare_eq_eq, hsame]

include hc

/-- A facet keeps its centroid, as its corners keep their order. -/
theorem centroid {f : Facet} (hf : m.links.isLiveFacet f = true) :
    m'.centroid (r.facet f) = m.centroid f := by
  have hlive : ∀ v ∈ m.links.corners f, m.links.isLiveVertex v = true := by
    intro v hv
    obtain ⟨h, hh, -, rfl⟩ := (hc.mem_corners hf).1 hv
    exact hc.head_live hh
  unfold Mesh.centroid
  rw [hr.links.corners hc hf, List.map_map]
  exact congrArg Point.mean (List.map_congr_left fun v hv => hr.point (hlive v hv))

/-- A facet has the neighbours that it had. -/
theorem neighborIds {f : Facet} (hf : m.links.isLiveFacet f = true) :
    m'.neighborIds (r.facet f) = m.neighborIds f := by
  have hlive : ∀ g ∈ m.links.neighbors f, m.links.isLiveFacet g = true := by
    intro g hg
    obtain ⟨h, hh, hg⟩ := List.mem_filterMap.1 hg
    exact hc.facet_live (h := h.opposite) (((hc.ringOf hf).mem h).1 hh).1 hg
  unfold Mesh.neighborIds
  rw [hr.links.neighbors hc hf, List.map_map]
  exact List.map_congr_left fun g hg => hr.facetId (hlive g hg)

/-- The same ids are united, in the same order. -/
theorem alikeSets : m'.alikeSets alike = m.alikeSets alike := by
  have hjoin : m'.joinAlike alike = m.joinAlike alike := by
    unfold Mesh.joinAlike
    rw [hr.liveFacets, List.foldl_map]
    refine List.foldl_ext _ _ _ fun sets f hf => ?_
    have hlive := Connectivity.mem_liveFacets.1 hf
    rw [hr.facetId hlive, hr.neighborIds hc hlive]
  unfold Mesh.alikeSets
  rw [hjoin, hr.map_facetId]

/-! ## Two searches in step -/

/-- Looking across a halfedge. -/
theorem cross {root : ℕ} {g g' : Growth} (hg : g'.Follows m r g) {h : Halfedge} (hh : m.links.IsLive h) :
    (m'.cross sets root g' (r.halfedge h)).Follows m r (m.cross sets root g h) := by
  unfold Mesh.cross
  rw [hr.links.facetOf_opposite hh]
  cases hf : m.links.facetOf h.opposite with
  | none => exact ⟨hg.queue, hg.live, hg.visited, hg.found, hg.neighbors, rfl⟩
  | some f =>
    have hlive : m.links.isLiveFacet f = true := hc.facet_live (h := h.opposite) hh hf
    -- Both searches have marked the same facets, so they decide alike.
    have hvisited : g'.visited.contains (r.facet f).slot = g.visited.contains f.slot := by
      rw [Bool.eq_iff_iff, Std.TreeSet.contains_iff_mem, Std.TreeSet.contains_iff_mem]
      exact hg.visited f hlive
    simp only [Option.map_some, hr.rootIn hlive, hvisited]
    split
    · exact ⟨hg.queue, hg.live, hg.visited, hg.found, by rw [hg.neighbors], hg.touchesBorder⟩
    split
    · exact hg
    · refine ⟨?_, ?_, hr.sameMarks_insert hg.visited hlive, hg.found, hg.neighbors, hg.touchesBorder⟩
      · rw [hg.queue, List.map_append, List.map_singleton]
      · intro k hk
        rcases List.mem_append.1 hk with hk | hk
        · exact hg.live k hk
        · rwa [List.mem_singleton.1 hk]

/-- Looking at facets, one after the other. -/
theorem grow {root bound : ℕ} {g g' : Growth} (hg : g'.Follows m r g) :
    (m'.grow sets root bound g').Follows m r (m.grow sets root bound g) := by
  induction bound generalizing g g' with
  | zero => exact hg
  | succ bound ih =>
    unfold Mesh.grow
    cases hq : g.queue with
    | nil =>
      rw [hg.queue, hq]
      exact hg
    | cons f queue =>
      have hlive := List.forall_mem_cons.1 (hq ▸ hg.live)
      rw [hg.queue, hq, List.map_cons]
      simp only [hr.links.ring hc hlive.1, List.foldl_map]
      -- The ring of the renamed facet is the renamed ring, so both searches look across the same edges in the same
      -- order.
      refine ih (List.foldl_rel ?_ fun h hh a a' ha => ?_)
      · refine ⟨rfl, hlive.2, hg.visited, ?_, hg.neighbors, hg.touchesBorder⟩
        rw [hr.facetId hlive.1, hr.centroid hc hlive.1, hg.found]
      · exact hr.cross hc ha (((hc.ringOf hlive.1).mem h).1 hh).1

/-- The renamed facets have rings and ids of their own. -/
theorem ringed (hm : m.Ringed) : m'.Ringed := by
  refine ringed_of_wellFormed (hr.links.wellFormed hc) fun hf' hg' he => ?_
  obtain ⟨f, hf, rfl⟩ := hr.links.exists_facet hf'
  obtain ⟨g, hg, rfl⟩ := hr.links.exists_facet hg'
  rw [hr.facetId hf, hr.facetId hg] at he
  rw [hm.id_inj hf hg he]

/-- The same region is collected. -/
theorem collect (hm : m.Ringed) {earlier' : Std.TreeSet ℕ} (hmarks : m.SameMarks r earlier earlier')
    (hseed : m.links.isLiveFacet seed = true)
    (hearlier : ∀ f, m.links.isLiveFacet f = true → f.slot ∈ earlier →
      m.rootIn sets f ≠ m.rootIn sets seed) :
    (m'.collect sets (r.facet seed) earlier').1 = (m.collect sets seed earlier).1 ∧
      m.SameMarks r (m.collect sets seed earlier).2 (m'.collect sets (r.facet seed) earlier').2 := by
  have hseed' := hr.links.facet_live hseed
  have hearlier' : ∀ f, m'.links.isLiveFacet f = true → f.slot ∈ earlier' →
      m'.rootIn sets f ≠ m'.rootIn sets (r.facet seed) := by
    intro f' hf' hmem
    obtain ⟨f, hf, rfl⟩ := hr.links.exists_facet hf'
    rw [hr.rootIn hf, hr.rootIn hseed]
    exact hearlier f hf ((hmarks f hf).1 hmem)
  -- Under a common bound the searches run in step, and neither needs all of it.
  have hstart : Growth.Follows m r { queue := [r.facet seed], visited := earlier'.insert (r.facet seed).slot }
      { queue := [seed], visited := earlier.insert seed.slot } :=
    ⟨rfl, by simpa using hseed, hr.sameMarks_insert hmarks hseed, rfl, rfl, rfl⟩
  have hgrow : Growth.Follows m r
      (m'.grow sets (m.rootIn sets seed) (m.facetCount + m'.facetCount)
        { queue := [r.facet seed], visited := earlier'.insert (r.facet seed).slot })
      (m.grow sets (m.rootIn sets seed) (m.facetCount + m'.facetCount)
        { queue := [seed], visited := earlier.insert seed.slot }) := hr.grow hc hstart
  rw [grow_eq_of_le hm hseed hearlier (Nat.le_add_right _ _), ← hr.rootIn hseed,
    grow_eq_of_le (hr.ringed hc hm) hseed' hearlier' (Nat.le_add_left _ _), hr.rootIn hseed] at hgrow
  unfold Mesh.collect
  simp only [hr.rootIn hseed, hr.facetId hseed, hgrow.found, hgrow.neighbors, hgrow.touchesBorder, true_and]
  exact hgrow.visited

/-! ## The report -/

open RegionReport (Lists)

/-- Going on to the next facet adds the same region, or none in both. -/
theorem addRegion (hm : m.Ringed) {done : List Facet} {parts : List (Facet × Region)}
    {s s' : RegionReport × Std.TreeSet ℕ} (hs : Lists m sets done parts s.1 s.2) (hreport : s'.1 = s.1)
    (hmarks : m.SameMarks r s.2 s'.2) {f : Facet} (hf : m.links.isLiveFacet f = true) :
    (m'.addRegion sets s' (r.facet f)).1 = (m.addRegion sets s f).1 ∧
      m.SameMarks r (m.addRegion sets s f).2 (m'.addRegion sets s' (r.facet f)).2 := by
  -- A facet was visited by the one search if it was by the other.
  by_cases hvisited : f.slot ∈ s.2
  · rw [addRegion_of_mem hvisited, addRegion_of_mem ((hmarks f hf).2 hvisited)]
    exact ⟨hreport, hmarks⟩
  · have hvisited' : (r.facet f).slot ∉ s'.2 := fun hmem => hvisited ((hmarks f hf).1 hmem)
    obtain ⟨hregion, hmarks'⟩ := hr.collect hc hm hmarks hf fun _ _ hg => hs.rootIn_ne hf hvisited hg
    rw [addRegion_of_notMem hvisited, addRegion_of_notMem hvisited', hregion, hreport]
    exact ⟨rfl, hmarks'⟩

/-- Going through the facets adds the same regions. -/
theorem addRegions (hm : m.Ringed) {done rest : List Facet} (hall : m.links.liveFacets = done ++ rest)
    {parts : List (Facet × Region)} {s s' : RegionReport × Std.TreeSet ℕ}
    (hs : Lists m (m.alikeSets alike) done parts s.1 s.2) (hreport : s'.1 = s.1)
    (hmarks : m.SameMarks r s.2 s'.2) :
    ((rest.map r.facet).foldl (m'.addRegion (m.alikeSets alike)) s').1 =
      (rest.foldl (m.addRegion (m.alikeSets alike)) s).1 := by
  induction rest generalizing done parts s s' with
  | nil => exact hreport
  | cons f rest ih =>
    have hf : m.links.isLiveFacet f = true := by
      rw [← Connectivity.mem_liveFacets, hall]
      simp
    -- The next facet adds the same region to both reports, or none to both.
    obtain ⟨hreport', hmarks'⟩ := hr.addRegion hc hm hs hreport hmarks hf
    obtain ⟨parts', hs'⟩ := hm.lists_next alike hall hs
    rw [List.append_cons] at hall
    exact ih hall hs' hreport' hmarks'

/-- The regions are those that they were. -/
theorem regions (hm : m.Ringed) (alike : ℕ → ℕ → Bool) :
    ∃ report, m.regions alike = .ok report ∧ m'.regions alike = .ok report := by
  -- Both checks pass on both meshes, so it is left to compare the reports.
  have hids : m.checkFacetIds = .ok () := by
    rw [checkFacetIds_eq_ok]
    refine m.links.nodup_liveFacets.map_on fun f hf g hg he => ?_
    exact hm.id_inj (Connectivity.mem_liveFacets.1 hf) (Connectivity.mem_liveFacets.1 hg) he
  have hids' : m'.checkFacetIds = .ok () := by
    rw [checkFacetIds_eq_ok] at hids ⊢
    rwa [hr.map_facetId]
  refine ⟨_, regions_eq_ok hc.check_eq_ok hids, ?_⟩
  rw [regions_eq_ok (hr.links.wellFormed hc).check_eq_ok hids', hr.alikeSets hc, hr.liveFacets]
  refine congrArg Except.ok (hr.addRegions hc hm rfl RegionReport.lists_empty rfl fun f _ => ?_)
  simp

end Mesh.Renames

end RegionMesh
