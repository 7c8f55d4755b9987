import RegionMesh.Proofs.Connectivity.Attached
import RegionMesh.Proofs.Connectivity.Checked
import RegionMesh.Proofs.Connectivity.Detached
import RegionMesh.Proofs.Connectivity.Renamed
import RegionMesh.Proofs.Mesh.Lookup
import RegionMesh.Proofs.Mesh.TwoMaps

/-!
# Sound meshes

A mesh is sound (`Mesh.Sound`) if its links are in order, its arrays have a place for every element, and both of
its lookups find the live elements by their ids. A sound mesh passes its checks (`Sound.checkLinks_eq_ok`,
`Sound.checkFacetIds_eq_ok`), and its two maps say what its live elements are (`Sound.points_eq_some`,
`Sound.corners_eq_some`).

That its tables match its elements, whatever they are linked like, is a part of this on its own (`Mesh.Indexed`), and
so is what this says of the ids of vertices (`Mesh.VerticesListed`), which new vertices and facets keep on any links.

Every change of a mesh keeps it sound, and each of them is stated together with what it does to the two maps:
`Sound.addVertex`, `Sound.addFacet`, `Sound.deleteFacet` and `Sound.compact`.
-/

namespace RegionMesh

namespace Mesh

/-- Links, arrays and lookups of a mesh agree with each other. -/
structure Sound (m : Mesh) : Prop where
  /-- The links are in order. -/
  wellFormed : m.links.WellFormed
  /-- The links have come about facet by facet. -/
  simple : m.links.Simple
  /-- The corners of a facet are different vertices. -/
  nodup : ∀ f, m.links.isLiveFacet f = true → (m.links.corners f).Nodup
  /-- There is a position for every vertex. -/
  size_points : m.points.size = m.links.vertices.size
  /-- There is an id for every vertex. -/
  size_vertexIds : m.vertexIds.size = m.links.vertices.size
  /-- There is an id for every facet. -/
  size_facetIds : m.facetIds.size = m.links.facets.size
  /-- The vertices are found by their ids. -/
  vertices : Finds m.vertexById (fun v => m.links.isLiveVertex v = true) m.vertexId
  /-- The facets are found by their ids. -/
  facets : Finds m.facetById (fun f => m.links.isLiveFacet f = true) m.facetId

/-- The lookup of the vertices matches the live vertices. -/
structure VerticesListed (m : Mesh) : Prop where
  /-- There is an id for every vertex. -/
  size_vertexIds : m.vertexIds.size = m.links.vertices.size
  /-- The live vertices are found by their ids, and no others. -/
  vertices : Finds m.vertexById (fun v => m.links.isLiveVertex v = true) m.vertexId

/-- The tables of positions and ids match the elements of a mesh. -/
structure Indexed (m : Mesh) : Prop where
  /-- There is a position for every vertex. -/
  size_points : m.points.size = m.links.vertices.size
  /-- There is an id for every vertex. -/
  size_vertexIds : m.vertexIds.size = m.links.vertices.size
  /-- There is an id for every facet. -/
  size_facetIds : m.facetIds.size = m.links.facets.size
  /-- The live vertices are found by their ids, and no others. -/
  vertices : Finds m.vertexById (fun v => m.links.isLiveVertex v = true) m.vertexId
  /-- The live facets are found by their ids, and no others. -/
  facets : Finds m.facetById (fun f => m.links.isLiveFacet f = true) m.facetId

variable {m m' : Mesh} {p : Point} {id : ℕ} {v : Vertex} {f : Facet}

/-- A sound mesh has its ids in its tables. -/
theorem Sound.indexed (hm : m.Sound) : m.Indexed :=
  ⟨hm.size_points, hm.size_vertexIds, hm.size_facetIds, hm.vertices, hm.facets⟩

/-- A sound mesh has the ids of its vertices in their table. -/
theorem Sound.verticesListed (hm : m.Sound) : m.VerticesListed := ⟨hm.size_vertexIds, hm.vertices⟩

/-- The mesh without elements is sound. -/
theorem sound_empty : ({} : Mesh).Sound := by
  refine ⟨Connectivity.wellFormed_empty, Connectivity.simple_empty, ?_, rfl, rfl, rfl, ?_, ?_⟩
  · intro f hf
    simp [Connectivity.isLiveFacet] at hf
  · intro id v
    simp [Connectivity.isLiveVertex]
  · intro id f
    simp [Connectivity.isLiveFacet]

/-- The id of a vertex is what its slot holds. -/
theorem vertexId_of_getElem? (h : m.vertexIds[v.slot]? = some id) : m.vertexId v = id := by
  rw [vertexId, Array.getD_eq_getD_getElem?, h]
  rfl

/-- The id of a facet is what its slot holds. -/
theorem facetId_of_getElem? (h : m.facetIds[f.slot]? = some id) : m.facetId f = id := by
  rw [facetId, Array.getD_eq_getD_getElem?, h]
  rfl

namespace Sound

section Reading

variable (hm : m.Sound)

include hm

/-- The links of a sound mesh pass their check. -/
theorem checkLinks_eq_ok : m.checkLinks = .ok () := hm.wellFormed.check_eq_ok

/-- The facet ids of a sound mesh pass their check. -/
theorem checkFacetIds_eq_ok : m.checkFacetIds = .ok () := by
  rw [Mesh.checkFacetIds_eq_ok]
  refine m.links.nodup_liveFacets.map_on fun f hf g hg he => ?_
  exact hm.facets.inj (Connectivity.mem_liveFacets.1 hf) (Connectivity.mem_liveFacets.1 hg) he

/-- A live vertex is found under its id. -/
theorem findVertex?_eq_some : m.findVertex? id = some v ↔
    m.links.isLiveVertex v = true ∧ m.vertexId v = id := hm.vertices id v

/-- A live facet is found under its id. -/
theorem findFacet?_eq_some : m.findFacet? id = some f ↔
    m.links.isLiveFacet f = true ∧ m.facetId f = id := hm.facets id f

/-- Live vertices are found by their ids, one by one. -/
theorem map_findVertex? {ids : List ℕ} {vs : List Vertex} : ids.map m.findVertex? = vs.map some ↔
    (∀ v ∈ vs, m.links.isLiveVertex v = true) ∧ vs.map m.vertexId = ids := by
  induction ids generalizing vs with
  | nil =>
    rw [List.map_nil, eq_comm, List.map_eq_nil_iff, List.map_eq_nil_iff, iff_and_self]
    rintro rfl
    exact List.forall_mem_nil _
  | cons i rest ih =>
    cases vs with
    | nil => simp
    | cons v vs =>
      rw [List.map_cons, List.map_cons, List.map_cons, List.cons.injEq, List.cons.injEq, ih,
        hm.findVertex?_eq_some, List.forall_mem_cons]
      exact and_and_and_comm

/-- The map of points lists the live vertices. -/
theorem points_eq_some : m.maps.points id = some p ↔
    ∃ v, m.links.isLiveVertex v = true ∧ m.vertexId v = id ∧ m.point v = p := by
  unfold maps
  rw [Option.map_eq_some_iff]
  simp only [hm.findVertex?_eq_some, and_assoc]

/-- The corners of a live facet are found by its id. -/
theorem facetCorners_eq_some {l : List Vertex} : m.facetCorners id = some l ↔
    ∃ f, m.links.isLiveFacet f = true ∧ m.facetId f = id ∧ m.links.corners f = l := by
  unfold facetCorners
  rw [Option.map_eq_some_iff]
  simp only [hm.findFacet?_eq_some, and_assoc]

/-- The map of corners lists the live facets. -/
theorem corners_eq_some {l : List ℕ} : m.maps.corners id = some l ↔
    ∃ f, m.links.isLiveFacet f = true ∧ m.facetId f = id ∧ (m.links.corners f).map m.vertexId = l := by
  change (m.facetCorners id).map (·.map m.vertexId) = some l ↔ _
  rw [Option.map_eq_some_iff]
  simp only [hm.facetCorners_eq_some]
  constructor
  · rintro ⟨_, ⟨f, hf, rfl, rfl⟩, rfl⟩
    exact ⟨f, hf, rfl, rfl⟩
  · rintro ⟨f, hf, rfl, rfl⟩
    exact ⟨_, ⟨f, hf, rfl, rfl⟩, rfl⟩

/-- The corners of a live facet are live. -/
theorem corner_live (hf : m.links.isLiveFacet f = true) (hv : v ∈ m.links.corners f) :
    m.links.isLiveVertex v = true := by
  obtain ⟨h, hh, -, rfl⟩ := (hm.wellFormed.mem_corners hf).1 hv
  exact hm.wellFormed.head_live hh

/-- The map of points knows the live vertices. -/
theorem points_vertexId (hv : m.links.isLiveVertex v = true) :
    m.maps.points (m.vertexId v) = some (m.point v) :=
  hm.points_eq_some.2 ⟨v, hv, rfl, rfl⟩

/-- The map of corners knows the live facets. -/
theorem corners_facetId (hf : m.links.isLiveFacet f = true) :
    m.maps.corners (m.facetId f) = some ((m.links.corners f).map m.vertexId) :=
  hm.corners_eq_some.2 ⟨f, hf, rfl, rfl⟩

/-- A live vertex is a corner of a live facet if its id is listed there. -/
theorem mem_map_corners (hf : m.links.isLiveFacet f = true) (hv : m.links.isLiveVertex v = true) :
    m.vertexId v ∈ (m.links.corners f).map m.vertexId ↔ v ∈ m.links.corners f := by
  rw [List.mem_map]
  constructor
  · rintro ⟨w, hw, he⟩
    rwa [← hm.vertices.inj (hm.corner_live hf hw) hv he]
  · exact fun hmem => ⟨v, hmem, rfl⟩

/-- Live vertices that are different from each other have different ids. -/
theorem nodup_map_vertexId {l : List Vertex} (hl : ∀ v ∈ l, m.links.isLiveVertex v = true) (hn : l.Nodup) :
    (l.map m.vertexId).Nodup :=
  hn.map_on fun v hv w hw he => hm.vertices.inj (hl v hv) (hl w hw) he

/-- The map of corners is as it should be. -/
theorem valid : m.maps.Valid := by
  intro k l hl
  obtain ⟨f, hf, -, rfl⟩ := hm.corners_eq_some.1 hl
  refine ⟨?_, hm.nodup_map_vertexId (fun v hv => hm.corner_live hf hv) (hm.nodup f hf), fun i hi => ?_⟩
  · rw [List.length_map, Connectivity.corners, List.length_map]
    exact (hm.wellFormed.ringOf hf).length
  · obtain ⟨v, hv, rfl⟩ := List.mem_map.1 hi
    rw [hm.points_vertexId (hm.corner_live hf hv)]
    simp

end Reading

end Sound

/-- What stood in an array before another value was appended still stands there. -/
theorem getD_push_of_lt {α : Type} {xs : Array α} {i : ℕ} {a d : α} (hi : i < xs.size) :
    (xs.push a).getD i d = xs.getD i d := by
  simp [Array.getElem?_push, Nat.ne_of_lt hi]

/-! ## Adding vertices -/

/-- A vertex is added behind the others if its id is free. -/
theorem addVertex_eq_ok : Mesh.addVertex p id m = (.ok v, m') ↔
    m.vertexById.contains id = false ∧ v = ⟨m.links.vertices.size⟩ ∧
      m' = { m with
        links := m.links.addVertex.2
        points := m.points.push p
        vertexIds := m.vertexIds.push id
        vertexById := m.vertexById.insert id ⟨m.links.vertices.size⟩ } := by
  unfold Mesh.addVertex
  cases hid : m.vertexById.contains id with
  | true => simp
  | false =>
    rw [if_neg (by simp)]
    -- With a free id there is no other way for the mesh to answer.
    simp only [Connectivity.addVertex, Prod.mk.injEq, Except.ok.injEq]
    constructor
    · rintro ⟨rfl, rfl⟩
      exact ⟨trivial, rfl, rfl⟩
    · rintro ⟨-, rfl, rfl⟩
      exact ⟨rfl, rfl⟩

/-- A vertex that is refused changes nothing. -/
theorem addVertex_eq_error {e : BuildError} (h : Mesh.addVertex p id m = (.error e, m')) : m' = m := by
  unfold Mesh.addVertex at h
  split at h
  · exact (Prod.mk.inj h).2.symm
  · cases (Prod.mk.inj h).1

/-- A new vertex is listed too. -/
theorem VerticesListed.addVertex (hm : m.VerticesListed) (h : Mesh.addVertex p id m = (.ok v, m')) :
    m'.VerticesListed := by
  obtain ⟨hfree, rfl, rfl⟩ := addVertex_eq_ok.1 h
  refine ⟨by simp [Connectivity.addVertex, hm.size_vertexIds], ?_⟩
  refine hm.vertices.insert hfree m.links.isLiveVertex_addVertex ?_ fun w hw => getD_push_of_lt ?_
  · change (m.vertexIds.push id).getD m.links.vertices.size 0 = id
    simp [← hm.size_vertexIds]
  · rw [hm.size_vertexIds]
    exact Connectivity.slot_lt_of_isLiveVertex hw

/-- A vertex with a free id is entered into the map of points, and nothing else changes. -/
theorem Sound.addVertex (hm : m.Sound) (h : Mesh.addVertex p id m = (.ok v, m')) :
    m'.Sound ∧ m.maps.points id = none ∧ m'.maps = m.maps.addVertex id p ∧
      ∀ w, m.links.isLiveVertex w = true → m'.links.isLiveVertex w = true ∧ m'.vertexId w = m.vertexId w := by
  have hlisted := hm.verticesListed.addVertex h
  obtain ⟨hfree, rfl, rfl⟩ := addVertex_eq_ok.1 h
  have hlive := m.links.isLiveVertex_addVertex
  -- The new vertex has the last place, and the others keep theirs.
  have hids : ∀ w, m.links.isLiveVertex w = true →
      (m.vertexIds.push id).getD w.slot 0 = m.vertexId w := by
    intro w hw
    refine getD_push_of_lt ?_
    rw [hm.size_vertexIds]
    exact Connectivity.slot_lt_of_isLiveVertex hw
  have hpoints : ∀ w, m.links.isLiveVertex w = true →
      (m.points.push p).getD w.slot default = m.point w := by
    intro w hw
    refine getD_push_of_lt ?_
    rw [hm.size_points]
    exact Connectivity.slot_lt_of_isLiveVertex hw
  have hpointnew : (m.points.push p).getD m.links.vertices.size default = p := by
    simp [← hm.size_points]
  have hnone : m.maps.points id = none := Option.map_eq_none_iff.2 (contains_eq_false_iff.1 hfree)
  refine ⟨⟨hm.wellFormed.addVertex, hm.simple.addVertex, hm.nodup, ?_, hlisted.size_vertexIds, hm.size_facetIds,
    hlisted.vertices, hm.facets⟩, hnone, ?_, fun w hw => ⟨(hlive w).2 (Or.inr hw), hids w hw⟩⟩
  · simp [Connectivity.addVertex, hm.size_points]
  · unfold maps TwoMaps.addVertex
    congr 1
    · funext i
      unfold findVertex?
      rw [Std.TreeMap.getElem?_insert, Function.update_apply]
      by_cases hi : i = id
      · subst hi
        simpa [point] using hpointnew
      · have hcmp : compare id i ≠ .eq := fun he => hi (Nat.compare_eq_eq.1 he).symm
        rw [if_neg hcmp, if_neg hi]
        refine Option.map_congr fun w hw => ?_
        exact hpoints w ((hm.vertices i w).1 hw).1
    · funext i
      refine Option.map_congr fun l hl => ?_
      obtain ⟨g, hg, -, rfl⟩ := hm.facetCorners_eq_some.1 hl
      exact List.map_congr_left fun w hw => hids w (hm.corner_live hg hw)

/-! ## Adding facets -/

variable {vs : List Vertex}

/-- A facet is added behind the others if it has three different corners at least, its id is free, and the links
take it. -/
theorem addFacet_eq_ok : Mesh.addFacet vs id m = (.ok f, m') ↔
    3 ≤ vs.length ∧ m.facetById.contains id = false ∧ vs.Nodup ∧
      ∃ links, Connectivity.addFacet vs m.links = (.ok f, links) ∧
        m' = { m with
          links
          facetIds := m.facetIds.push id
          facetById := m.facetById.insert id f } := by
  unfold Mesh.addFacet
  -- The causes of a refusal are looked at in the order in which the mesh does.
  by_cases hlen : vs.length < 3
  · rw [if_pos hlen]
    simp [Nat.not_le.2 hlen]
  rw [if_neg hlen]
  cases hid : m.facetById.contains id with
  | true => simp
  | false =>
    rw [if_neg (by simp)]
    rw [← firstRepeat?_eq_none]
    cases hrepeat : firstRepeat? vs with
    | some v => simp
    | none =>
      rcases hadd : Connectivity.addFacet vs m.links with ⟨e | g, links⟩
      · simp
      · simp only [Prod.mk.injEq, Except.ok.injEq]
        constructor
        · rintro ⟨rfl, rfl⟩
          exact ⟨Nat.not_lt.1 hlen, trivial, trivial, links, ⟨rfl, rfl⟩, rfl⟩
        · rintro ⟨-, -, -, _, ⟨rfl, rfl⟩, rfl⟩
          exact ⟨rfl, rfl⟩

/-- A facet that is refused changes nothing. -/
theorem addFacet_eq_error {e : BuildError} (h : Mesh.addFacet vs id m = (.error e, m')) : m' = m := by
  unfold Mesh.addFacet at h
  split at h
  · exact (Prod.mk.inj h).2.symm
  split at h
  · exact (Prod.mk.inj h).2.symm
  cases hrepeat : firstRepeat? vs with
  | some v =>
    rw [hrepeat] at h
    exact (Prod.mk.inj h).2.symm
  | none =>
    rw [hrepeat] at h
    -- Past the ids and the corners only the links can refuse the facet, and they stay as they were.
    rcases hadd : Connectivity.addFacet vs m.links with ⟨e' | g, links⟩
    · rw [hadd] at h
      rw [← (Prod.mk.inj h).2, Connectivity.addFacet_eq_error hadd]
    · rw [hadd] at h
      cases (Prod.mk.inj h).1

/-- A facet with at least three corners is refused if its id is taken, if it has a corner twice, or if it does not
fit. -/
theorem cause_of_addFacet {e : BuildError} (hthree : 3 ≤ vs.length) (h : Mesh.addFacet vs id m = (.error e, m')) :
    e = .duplicateFacetId id ∨ (∃ v, e = .repeatedCorner id v) ∨ Connectivity.MisfitCause e := by
  unfold Mesh.addFacet at h
  rw [if_neg (Nat.not_lt.2 hthree)] at h
  -- The checks come in this order: the id, the corners, and then whether the facet fits.
  split at h
  · exact Or.inl (Except.error.inj (Prod.mk.inj h).1).symm
  · split at h
    · exact Or.inr (Or.inl ⟨_, (Except.error.inj (Prod.mk.inj h).1).symm⟩)
    · split at h
      · rename_i hadd
        obtain rfl := Except.error.inj (Prod.mk.inj h).1
        exact Or.inr (Or.inr (Connectivity.misfitCause_of_addFacet hadd))
      · cases (Prod.mk.inj h).1

/-- A new facet leaves the vertices and their ids as they are. -/
theorem VerticesListed.addFacet (hm : m.VerticesListed) (h : Mesh.addFacet vs id m = (.ok f, m')) :
    m'.VerticesListed := by
  obtain ⟨-, -, -, links, hadd, rfl⟩ := addFacet_eq_ok.1 h
  obtain ⟨hsize, hlive⟩ := Connectivity.liveVertex_addFacet hadd
  exact ⟨hm.size_vertexIds.trans hsize.symm, hm.vertices.congr (fun v => by rw [hlive]) fun _ _ => rfl⟩

/-- A facet that is added has the corners that were asked for, and the others keep theirs. -/
theorem Sound.facetCorners_addFacet (hm : m.Sound) (hlive : ∀ v ∈ vs, m.links.isLiveVertex v = true)
    (h : Mesh.addFacet vs id m = (.ok f, m')) :
    m'.facetCorners = Function.update m.facetCorners id (some vs) := by
  obtain ⟨hthree, -, hn, links, hadd, rfl⟩ := addFacet_eq_ok.1 h
  obtain ⟨rfl, hatt, -⟩ := hm.wellFormed.addFacet hlive hn hthree hadd
  funext i
  unfold facetCorners findFacet?
  rw [Std.TreeMap.getElem?_insert, Function.update_apply]
  by_cases hi : i = id
  · subst hi
    rw [if_pos (Nat.compare_eq_eq.2 rfl), if_pos rfl, Option.map_some, hatt.corners_new]
  · have hcmp : compare id i ≠ .eq := fun he => hi (Nat.compare_eq_eq.1 he).symm
    rw [if_neg hcmp, if_neg hi]
    exact Option.map_congr fun g hg => hatt.corners_old g ((hm.facets i g).1 hg).1

/-- A facet on live vertices is entered into the map of corners, and nothing else changes. -/
theorem Sound.addFacet (hm : m.Sound) (hlive : ∀ v ∈ vs, m.links.isLiveVertex v = true)
    (h : Mesh.addFacet vs id m = (.ok f, m')) :
    m'.Sound ∧ m.facetCorners id = none ∧ m'.maps = m.maps.addFacet id (vs.map m.vertexId) ∧
      ∀ w, m'.links.isLiveVertex w = m.links.isLiveVertex w := by
  have hcorners := hm.facetCorners_addFacet hlive h
  have hlisted := hm.verticesListed.addFacet h
  obtain ⟨hthree, hfree, hn, links, hadd, rfl⟩ := addFacet_eq_ok.1 h
  obtain ⟨rfl, hatt, hsimple⟩ := hm.wellFormed.addFacet hlive hn hthree hadd
  have hids : ∀ g, m.links.isLiveFacet g = true → (m.facetIds.push id).getD g.slot 0 = m.facetId g := by
    intro g hg
    refine getD_push_of_lt ?_
    rw [hm.size_facetIds]
    exact Connectivity.slot_lt_of_isLiveFacet hg
  have hidnew : (m.facetIds.push id).getD m.links.facets.size 0 = id := by
    simp [← hm.size_facetIds]
  have hnone : m.facetCorners id = none := Option.map_eq_none_iff.2 (contains_eq_false_iff.1 hfree)
  refine ⟨⟨hatt.wellFormed, hsimple hm.simple, ?_, ?_, hlisted.size_vertexIds, ?_, hlisted.vertices, ?_⟩, hnone, ?_,
    hatt.liveVertex⟩
  · -- The corners of the new facet are different, and the others have theirs.
    intro g hg
    rcases (hatt.liveFacet g).1 hg with rfl | hg
    · rw [hatt.corners_new]
      exact hn
    · rw [hatt.corners_old g hg]
      exact hm.nodup g hg
  · rw [hatt.size_vertices]
    exact hm.size_points
  · rw [hatt.size_facets, Array.size_push, hm.size_facetIds]
  · exact hm.facets.insert hfree hatt.liveFacet hidnew hids
  · unfold maps TwoMaps.addFacet
    congr 1
    funext i
    rw [hcorners, Function.update_apply, Function.update_apply]
    split <;> rfl

/-! ## Deleting facets -/

/-- The id of a live vertex is struck out with a facet if the vertex is a corner of this facet alone. -/
theorem Sound.onlyIn_iff (hm : m.Sound) (hf : m.links.isLiveFacet f = true)
    (hv : m.links.isLiveVertex v = true) :
    m.maps.OnlyIn (m.facetId f) (m.vertexId v) ↔
      v ∈ m.links.corners f ∧ ∀ g, m.links.isLiveFacet g = true → g ≠ f → v ∉ m.links.corners g := by
  unfold TwoMaps.OnlyIn
  rw [hm.corners_facetId hf]
  simp only [Option.some.injEq, exists_eq_left', hm.mem_map_corners hf hv]
  refine and_congr_right fun _ => ?_
  -- Facets have different ids and their corners too, so ids may be exchanged for handles on both sides.
  constructor
  · intro hall g hg hne hmem
    have hid : m.facetId g ≠ m.facetId f := fun he => hne (hm.facets.inj hg hf he)
    exact hall _ _ hid (hm.corners_facetId hg) ((hm.mem_map_corners hg hv).2 hmem)
  · intro hall k l hk hl
    obtain ⟨g, hg, rfl, rfl⟩ := hm.corners_eq_some.1 hl
    rw [hm.mem_map_corners hg hv]
    exact hall g hg fun he => hk (by rw [he])

/-- The vertices that are deleted with a facet are those whose ids are taken out. -/
theorem Sound.isLiveVertex_deleteFacet (hm : m.Sound) (hf : m.links.isLiveFacet f = true) (v : Vertex) :
    (m.links.deleteFacet f).isLiveVertex v = true ↔ m.links.isLiveVertex v = true ∧
      v ∉ (m.links.corners f).filter fun v => !(m.links.deleteFacet f).isLiveVertex v := by
  have hlive := (hm.wellFormed.deleteFacet hf).liveVertex_iff hm.wellFormed hm.simple hf v
  rw [List.mem_filter]
  constructor
  · intro hv
    exact ⟨(hlive.1 hv).1, fun h => by simp [hv] at h⟩
  · rintro ⟨hv, hnot⟩
    -- Only corners of the facet are deleted with it.
    by_cases hmem : v ∈ m.links.corners f
    · simpa [hmem] using hnot
    · exact hlive.2 ⟨hv, Or.inl hmem⟩

/-- A mesh stays sound when a facet is deleted. -/
theorem Sound.sound_deleteFacet (hm : m.Sound) (hf : m.links.isLiveFacet f = true) :
    (m.deleteFacet f).Sound := by
  have hdet := hm.wellFormed.deleteFacet hf
  have hcorners : ∀ v ∈ (m.links.corners f).filter fun v => !(m.links.deleteFacet f).isLiveVertex v,
      m.links.isLiveVertex v = true :=
    fun v hv => hm.corner_live hf (List.mem_filter.1 hv).1
  -- The links are in order after the deletion, and the tables lose what was struck out.
  refine ⟨hdet.wellFormed, hdet.simple hm.simple, ?_, ?_, ?_, ?_, ?_, ?_⟩
  · intro g hg
    rw [show (m.deleteFacet f).links.corners g = _ from hdet.corners g hg]
    exact hm.nodup g ((hdet.liveFacet g).1 hg).1
  · exact hm.size_points.trans hdet.size_vertices.symm
  · exact hm.size_vertexIds.trans hdet.size_vertices.symm
  · exact hm.size_facetIds.trans hdet.size_facets.symm
  · exact hm.vertices.eraseAll hcorners (hm.isLiveVertex_deleteFacet hf)
  · exact hm.facets.erase hf hdet.liveFacet

/-- A facet is struck out of the map of corners, and out of the map of points its corners that belong to no
other facet. -/
theorem Sound.deleteFacet (hm : m.Sound) (hf : m.links.isLiveFacet f = true) :
    (m.deleteFacet f).Sound ∧ (m.deleteFacet f).maps = m.maps.eraseFacet (m.facetId f) := by
  have hdet := hm.wellFormed.deleteFacet hf
  have hlive := hdet.liveVertex_iff hm.wellFormed hm.simple hf
  have hsound := hm.sound_deleteFacet hf
  refine ⟨hsound, TwoMaps.ext_some (fun i p => ?_) fun i l => ?_⟩
  · -- A vertex that is left is no corner of the facet, or a corner of another one.
    rw [hsound.points_eq_some, TwoMaps.points_eraseFacet_eq_some, hm.points_eq_some]
    constructor
    · rintro ⟨v, hv, rfl, rfl⟩
      have hv' := ((hlive v).1 hv).1
      refine ⟨?_, v, hv', rfl, rfl⟩
      rw [show (m.deleteFacet f).vertexId v = m.vertexId v from rfl, hm.onlyIn_iff hf hv']
      rintro ⟨hmem, hall⟩
      rcases ((hlive v).1 hv).2 with hnot | ⟨g, hg, hg'⟩
      · exact hnot hmem
      · obtain ⟨hglive, hne⟩ := (hdet.liveFacet g).1 hg
        exact hall g hglive hne hg'
    · rintro ⟨honly, v, hv, rfl, rfl⟩
      refine ⟨v, (hlive v).2 ⟨hv, ?_⟩, rfl, rfl⟩
      rw [hm.onlyIn_iff hf hv] at honly
      by_cases hmem : v ∈ m.links.corners f
      · right
        push Not at honly
        obtain ⟨g, hg, hne, hg'⟩ := honly hmem
        exact ⟨g, (hdet.liveFacet g).2 ⟨hg, hne⟩, hg'⟩
      · exact Or.inl hmem
  · -- The other facets are left, with their corners.
    rw [hsound.corners_eq_some, TwoMaps.corners_eraseFacet_eq_some, hm.corners_eq_some]
    constructor
    · rintro ⟨g, hg, rfl, rfl⟩
      obtain ⟨hglive, hne⟩ := (hdet.liveFacet g).1 hg
      refine ⟨fun he => hne (hm.facets.inj hglive hf he), g, hglive, rfl, ?_⟩
      rw [← hdet.corners g hg]
      rfl
    · rintro ⟨hne, g, hg, rfl, rfl⟩
      have hg' := (hdet.liveFacet g).2 ⟨hg, fun he => hne (by rw [he])⟩
      refine ⟨g, hg', rfl, ?_⟩
      rw [← hdet.corners g hg']
      rfl

/-! ## Compaction -/

/-- A live vertex keeps its id and its position under its new handle. -/
theorem vertex_compact (hv : m.links.isLiveVertex v = true) :
    m.compact.vertexId (m.links.renumbering.vertex v) = m.vertexId v ∧
      m.compact.point (m.links.renumbering.vertex v) = m.point v := by
  obtain ⟨a, ha, hd⟩ := (m.links.isLiveVertex_iff v).1 hv
  have hplace := getElem?_map_eq_false.2 ⟨a, ha, hd⟩
  rw [Connectivity.renumbering_vertex hv]
  unfold vertexId point compact
  simp only [Array.getD_eq_getD_getElem?]
  rw [getElem?_keepUnmarked hplace, getElem?_keepUnmarked hplace]
  exact ⟨rfl, rfl⟩

/-- A live facet keeps its id under its new handle. -/
theorem facetId_compact (hf : m.links.isLiveFacet f = true) :
    m.compact.facetId (m.links.renumbering.facet f) = m.facetId f := by
  obtain ⟨a, ha, hd⟩ := (m.links.isLiveFacet_iff f).1 hf
  rw [Connectivity.renumbering_facet hf]
  unfold facetId compact
  simp only [Array.getD_eq_getD_getElem?]
  rw [getElem?_keepUnmarked (getElem?_map_eq_false.2 ⟨a, ha, hd⟩)]

/-- The tables that are built anew match the elements that are left. -/
theorem Indexed.compact (hm : m.Indexed) : m.compact.Indexed := by
  have hr := m.links.compact_renames
  have hpoints : m.compact.points.size = m.compact.links.vertices.size :=
    calc m.compact.points.size = (m.links.vertices.toList.map (·.deleted)).count false :=
          size_keepUnmarked (by simp [hm.size_points])
      _ = m.compact.links.vertices.size := m.links.size_vertices_compact.symm
  have hvertices : m.compact.vertexIds.size = m.compact.links.vertices.size :=
    calc m.compact.vertexIds.size = (m.links.vertices.toList.map (·.deleted)).count false :=
          size_keepUnmarked (by simp [hm.size_vertexIds])
      _ = m.compact.links.vertices.size := m.links.size_vertices_compact.symm
  have hfacets : m.compact.facetIds.size = m.compact.links.facets.size :=
    calc m.compact.facetIds.size = (m.links.facets.toList.map (·.deleted)).count false :=
          size_keepUnmarked (by simp [hm.size_facetIds])
      _ = m.compact.links.facets.size := m.links.size_facets_compact.symm
  refine ⟨hpoints, hvertices, hfacets, ?_, ?_⟩
  · refine Finds.lookupBySlot ⟨fun i j he => Vertex.mk.inj he, fun v => ⟨v.slot, rfl⟩⟩ ?_ ?_ ?_
    · intro slot
      rw [show m.compact.links.isLiveVertex ⟨slot⟩ = true ↔ _ from Connectivity.isLiveVertex_compact]
      exact Iff.of_eq (congrArg _ hvertices.symm)
    · intro slot hslot
      have hget := Array.getElem?_eq_getElem (show slot < m.compact.vertexIds.size from hslot)
      rw [vertexId_of_getElem? (v := ⟨slot⟩) hget]
      exact hget
    · -- Live elements with one id had this id before as well.
      intro v w hv hw he
      obtain ⟨v, hv', rfl⟩ := hr.exists_vertex hv
      obtain ⟨w, hw', rfl⟩ := hr.exists_vertex hw
      rw [(vertex_compact hv').1, (vertex_compact hw').1] at he
      rw [hm.vertices.inj hv' hw' he]
  · refine Finds.lookupBySlot ⟨fun i j he => Facet.mk.inj he, fun f => ⟨f.slot, rfl⟩⟩ ?_ ?_ ?_
    · intro slot
      rw [show m.compact.links.isLiveFacet ⟨slot⟩ = true ↔ _ from Connectivity.isLiveFacet_compact]
      exact Iff.of_eq (congrArg _ hfacets.symm)
    · intro slot hslot
      have hget := Array.getElem?_eq_getElem (show slot < m.compact.facetIds.size from hslot)
      rw [facetId_of_getElem? (f := ⟨slot⟩) hget]
      exact hget
    · intro f g hf hg he
      obtain ⟨f, hf', rfl⟩ := hr.exists_facet hf
      obtain ⟨g, hg', rfl⟩ := hr.exists_facet hg
      rw [facetId_compact hf', facetId_compact hg'] at he
      rw [hm.facets.inj hf' hg' he]

/-- A mesh stays sound when it is compacted. -/
theorem Sound.sound_compact (hm : m.Sound) : m.compact.Sound := by
  have hr := m.links.compact_renames
  have hindexed := hm.indexed.compact
  refine ⟨hr.wellFormed hm.wellFormed, hr.simple hm.wellFormed.toLinked hm.simple, ?_, hindexed.size_points,
    hindexed.size_vertexIds, hindexed.size_facetIds, hindexed.vertices, hindexed.facets⟩
  intro g hg
  obtain ⟨f, hf, rfl⟩ := hr.exists_facet hg
  rw [show m.compact.links.corners (m.links.renumbering.facet f) = _ from hr.corners hm.wellFormed hf]
  -- Different live vertices get different places.
  refine (hm.nodup f hf).map_on fun v hv w hw he => ?_
  exact hr.vertex_inj (hm.corner_live hf hv) (hm.corner_live hf hw) he

/-- Compaction does not show in the two maps. -/
theorem Sound.compact (hm : m.Sound) : m.compact.Sound ∧ m.compact.maps = m.maps := by
  have hr := m.links.compact_renames
  have hsound := hm.sound_compact
  refine ⟨hsound, TwoMaps.ext_some (fun i p => ?_) fun i l => ?_⟩
  · rw [hsound.points_eq_some, hm.points_eq_some]
    constructor
    · rintro ⟨w, hw, rfl, rfl⟩
      obtain ⟨v, hv, rfl⟩ := hr.exists_vertex hw
      exact ⟨v, hv, (vertex_compact hv).1.symm, (vertex_compact hv).2.symm⟩
    · rintro ⟨v, hv, rfl, rfl⟩
      exact ⟨_, hr.vertex_live hv, vertex_compact hv⟩
  · -- The corners move with their facet, and keep their ids.
    have hcorners : ∀ f, m.links.isLiveFacet f = true →
        (m.compact.links.corners (m.links.renumbering.facet f)).map m.compact.vertexId =
          (m.links.corners f).map m.vertexId := by
      intro f hf
      calc (m.compact.links.corners (m.links.renumbering.facet f)).map m.compact.vertexId
          = ((m.links.corners f).map m.links.renumbering.vertex).map m.compact.vertexId :=
            congrArg _ (hr.corners hm.wellFormed hf)
        _ = (m.links.corners f).map (m.compact.vertexId ∘ m.links.renumbering.vertex) := List.map_map
        _ = (m.links.corners f).map m.vertexId :=
            List.map_congr_left fun v hv => (vertex_compact (hm.corner_live hf hv)).1
    rw [hsound.corners_eq_some, hm.corners_eq_some]
    constructor
    · rintro ⟨g, hg, rfl, rfl⟩
      obtain ⟨f, hf, rfl⟩ := hr.exists_facet hg
      exact ⟨f, hf, (facetId_compact hf).symm, (hcorners f hf).symm⟩
    · rintro ⟨f, hf, rfl, rfl⟩
      exact ⟨_, hr.facet_live hf, facetId_compact hf, hcorners f hf⟩

end Mesh

end RegionMesh
