import RegionMesh.Proofs.Editor.Orderly
import RegionMesh.Proofs.Editor.Surface
import RegionMesh.Proofs.Sink.Calls
import RegionMesh.Sink.ById

/-!
# An index in step with its mesh

A sink by id has an index of its own besides the lookup of its mesh. The two say the same (`IdSink.InStep`) when the
sink is made, if the lookup matches the live vertices, and they stay in step whatever calls are made and whichever of
them fail (`InStep.accept`). A vertex is never refused, as an id that the index does not have is free in the mesh
(`InStep.accept_new`). A cell that is refused changes nothing: its corners are indexed and so live, and what can fail
after the facet was opened is closing it, which leaves no facet open (`InStep.accept_cell_cases`). So the sink can be
depended on at any time (`IdSink.Dependable`).

The links may be in any order here. All that is needed of them is that a new facet leaves the vertices alone.
-/

namespace RegionMesh

namespace IdSink

variable {ed : Editor} {s s' : IdSink} {p : Point} {id : ℕ} {q : Quad} {e : Failure}

/-- The index of a sink says the same as the lookup of its mesh, and this matches the live vertices. -/
structure InStep (s : IdSink) : Prop where
  /-- A surface is open in absolute mode. -/
  mode : s.editor.mode? = some .absolute
  /-- The lookup matches the live vertices. -/
  listed : s.editor.mesh.VerticesListed
  /-- The index has the slots of the vertices that are found. -/
  index : ∀ id slot, s.index[id]? = some slot ↔ s.editor.mesh.findVertex? id = some ⟨slot⟩

/-- The live vertices are listed by id with their slots. -/
theorem mem_entries {m : Mesh} {slot : ℕ} : (id, slot) ∈ (m.links.liveVertices.map fun v => (m.vertexId v, v.slot)) ↔
    m.links.isLiveVertex ⟨slot⟩ = true ∧ m.vertexId ⟨slot⟩ = id := by
  rw [List.mem_map]
  constructor
  · rintro ⟨v, hv, he⟩
    obtain ⟨rfl, rfl⟩ := Prod.mk.inj he
    exact ⟨Connectivity.mem_liveVertices.1 hv, rfl⟩
  · rintro ⟨hv, rfl⟩
    exact ⟨⟨slot⟩, Connectivity.mem_liveVertices.2 hv, rfl⟩

/-- A new sink is in step. -/
theorem inStep_make (hm : ed.mesh.VerticesListed) (hmode : ed.mode? = some .absolute) :
    ∃ s, make ed = .ok s ∧ s.editor = ed ∧ InStep s := by
  refine ⟨⟨ed, _⟩, by unfold make; rw [hmode], rfl, hmode, hm, fun id slot => ?_⟩
  have hn : ((ed.mesh.links.liveVertices.map fun v => (ed.mesh.vertexId v, v.slot)).map Prod.fst).Nodup := by
    rw [List.map_map]
    refine ed.mesh.links.nodup_liveVertices.map_on fun v hv w hw he => ?_
    exact hm.vertices.inj (Connectivity.mem_liveVertices.1 hv) (Connectivity.mem_liveVertices.1 hw) he
  dsimp only
  rw [Finds.getElem?_ofList hn, Mesh.findVertex?, hm.vertices, mem_entries]

/-- Why a cell is refused. -/
inductive CellRefused (id : ℕ) : Failure → Prop
  /-- A corner is not indexed. -/
  | unindexed (corner : ℕ) : CellRefused id (.build (.unindexedVertexId corner id))
  /-- Another facet is open. -/
  | facetOpen : CellRefused id (.build .facetAlreadyOpen)
  /-- The id is taken. -/
  | duplicate : CellRefused id (.build (.duplicateFacetId id))
  /-- A corner comes twice. -/
  | repeated (v : Vertex) : CellRefused id (.build (.repeatedCorner id v))
  /-- The facet does not fit. -/
  | misfit {cause : BuildError} (h : Connectivity.MisfitCause cause) : CellRefused id (.build cause)

/-- A cell with a corner that is not indexed is refused before anything else. -/
theorem accept_cell_of_slotsOf {cause : BuildError} (h : s.slotsOf id q.toList = .error cause) :
    CellSink.accept (.cell q id) s = (.error (.build cause), s) := by
  change addCell q id s = _
  unfold addCell
  rw [h]

/-- A cell is refused if one of its corners is not indexed. -/
theorem cellRefused_of_slotsOf {corners : List ℕ} {cause : BuildError} (h : s.slotsOf id corners = .error cause) :
    CellRefused id (.build cause) := by
  obtain ⟨corner, -, hcorner⟩ := exists_of_mapM_eq_error h
  split at hcorner
  · cases hcorner
  · obtain rfl := Except.error.inj hcorner
    exact .unindexed corner

/-- A vertex whose id is indexed is taken, and nothing changes. -/
theorem accept_known (p : Point) (hid : s.index.contains id = true) :
    CellSink.accept (.vertex p id) s = (.ok (), s) := if_pos hid

namespace InStep

/-- The index lists the live vertices by their ids. -/
theorem getElem?_index (h : InStep s) {slot : ℕ} : s.index[id]? = some slot ↔
    s.editor.mesh.links.isLiveVertex ⟨slot⟩ = true ∧ s.editor.mesh.vertexId ⟨slot⟩ = id :=
  (h.index id slot).trans (h.listed.vertices id ⟨slot⟩)

/-- As many vertices are indexed as are live. -/
theorem indexedCount_eq (h : InStep s) : s.indexedCount = s.editor.mesh.links.liveVertices.length := by
  have hn : (s.editor.mesh.links.liveVertices.map fun v => (s.editor.mesh.vertexId v, v.slot)).Nodup := by
    refine s.editor.mesh.links.nodup_liveVertices.map fun v w he => ?_
    obtain ⟨i⟩ := v
    obtain ⟨j⟩ := w
    exact congrArg Vertex.mk (Prod.mk.inj he).2
  unfold indexedCount
  rw [lookup_size_eq_length hn fun _ _ => h.getElem?_index.trans mem_entries.symm, List.length_map]

/-! ## Vertices -/

/-- A vertex whose id is not indexed is new to the mesh, and is added to the mesh and to the index. -/
theorem accept_new (h : InStep s) (p : Point) (hid : s.index.contains id = false) :
    ∃ v m', Mesh.addVertex p id s.editor.mesh = (.ok v, m') ∧
      CellSink.accept (.vertex p id) s = (.ok (), ⟨{ s.editor with mesh := m' }, s.index.insert id v.slot⟩) ∧
        InStep ⟨{ s.editor with mesh := m' }, s.index.insert id v.slot⟩ := by
  -- The index has all ids of the mesh, so an id that it does not have is free.
  have hfree : s.editor.mesh.vertexById.contains id = false := by
    rw [contains_eq_false_iff, Option.eq_none_iff_forall_ne_some] at hid ⊢
    exact fun v hv => hid v.slot ((h.index id v.slot).2 hv)
  obtain ⟨v, m', hadd⟩ : ∃ v m', Mesh.addVertex p id s.editor.mesh = (.ok v, m') :=
    ⟨_, _, Mesh.addVertex_eq_ok.2 ⟨hfree, rfl, rfl⟩⟩
  refine ⟨v, m', hadd, ?_, h.mode, h.listed.addVertex hadd, fun i slot => ?_⟩
  · obtain ⟨⟨m, surface⟩, index⟩ := s
    obtain ⟨sf, rfl, -⟩ := Option.map_eq_some_iff.1 h.mode
    change addVertex p id _ = _
    unfold addVertex
    rw [if_neg (by simp [hid]), Editor.addVertex_apply sf hadd]
  · obtain ⟨-, rfl, rfl⟩ := Mesh.addVertex_eq_ok.1 hadd
    change (s.index.insert id s.editor.mesh.links.vertices.size)[i]? = some slot ↔
      (s.editor.mesh.vertexById.insert id ⟨s.editor.mesh.links.vertices.size⟩)[i]? = some ⟨slot⟩
    rw [Std.TreeMap.getElem?_insert, Std.TreeMap.getElem?_insert]
    split
    · simp
    · exact h.index i slot

/-! ## Cells -/

/-- The slots of corners are found if the mesh has all of them. -/
theorem slotsOf_eq_ok (h : InStep s) {facet : ℕ} {ids slots : List ℕ} :
    s.slotsOf facet ids = .ok slots ↔
      ids.map s.editor.mesh.findVertex? = (slots.map Vertex.mk).map some := by
  unfold slotsOf
  induction ids generalizing slots with
  | nil =>
    rw [List.mapM_nil, List.map_nil, eq_comm (a := []), List.map_eq_nil_iff, List.map_eq_nil_iff]
    exact ⟨fun he => (Except.ok.inj he).symm, fun he => by rw [he]; rfl⟩
  | cons i rest ih =>
    rw [List.mapM_cons, bind_eq_ok, List.map_cons]
    constructor
    · rintro ⟨slot, hslot, htail⟩
      obtain ⟨slots', hrest, he⟩ := bind_eq_ok.1 htail
      obtain rfl : slot :: slots' = slots := Except.ok.inj he
      -- The index gives the slot of the first corner, and the others are those of the rest.
      have hi : s.index[i]? = some slot := by
        split at hslot
        · rename_i hi
          rw [hi, Except.ok.inj hslot]
        · cases hslot
      rw [(h.index i slot).1 hi, ih.1 hrest, List.map_cons, List.map_cons]
    · intro he
      cases slots with
      | nil => cases he
      | cons slot slots' =>
        obtain ⟨hi, hrest⟩ := List.cons.inj he
        refine ⟨slot, ?_, bind_eq_ok.2 ⟨slots', ih.2 hrest, rfl⟩⟩
        rw [(h.index i slot).2 hi]

/-- The corners that are found are live. -/
theorem live_of_slotsOf (h : InStep s) {facet : ℕ} {ids slots : List ℕ} (hslots : s.slotsOf facet ids = .ok slots) :
    ∀ slot ∈ slots, s.editor.mesh.links.isLiveVertex ⟨slot⟩ = true := by
  intro slot hslot
  have hmem : some (⟨slot⟩ : Vertex) ∈ ids.map s.editor.mesh.findVertex? := by
    rw [h.slotsOf_eq_ok.1 hslots]
    exact List.mem_map_of_mem (List.mem_map_of_mem hslot)
  obtain ⟨id, -, hfound⟩ := List.mem_map.1 hmem
  exact ((h.listed.vertices id ⟨slot⟩).1 hfound).1

/-- Where no facet is open, a cell with indexed corners is taken as the mesh takes a facet on them. -/
theorem accept_cell_apply (h : InStep s) {sf : OpenSurface} (hs : s.editor.surface = some sf) (hf : sf.facet = none)
    {slots : List ℕ} (hslots : s.slotsOf id q.toList = .ok slots) :
    CellSink.accept (.cell q id) s =
      (((Mesh.addFacet (slots.map Vertex.mk) id s.editor.mesh).1.mapError Failure.build).map fun _ => (),
        { s with editor.mesh := (Mesh.addFacet (slots.map Vertex.mk) id s.editor.mesh).2 }) := by
  obtain ⟨⟨m, surface⟩, index⟩ := s
  obtain rfl : surface = some sf := hs
  have hmode : sf.mode = .absolute := Option.some.inj h.mode
  -- In absolute mode a slot is an index, and an indexed slot has a live vertex.
  have hlive : ∀ i ∈ slots, m.links.isLiveVertex (sf.vertexAt i) = true := by
    rw [OpenSurface.vertexAt_of_absolute hmode]
    exact h.live_of_slotsOf hslots
  have hlength : slots.length = 4 := (zip_of_mapM hslots).1
  have hadd := Editor.addFacet_apply_of_three hf hlive (by omega) id
  rw [OpenSurface.vertexAt_of_absolute hmode] at hadd
  change addCell q id _ = _
  unfold addCell
  rw [hslots]
  simp only [hadd]
  rcases Mesh.addFacet (slots.map Vertex.mk) id m with ⟨cause | f, m'⟩ <;> rfl

/-- A cell is refused, and then nothing changes, or the mesh has taken a facet on its corners. -/
theorem accept_cell_cases (h : InStep s) (q : Quad) (id : ℕ) :
    (∃ e, CellSink.accept (.cell q id) s = (.error e, s) ∧ CellRefused id e) ∨
    ∃ vs f m', Mesh.addFacet vs id s.editor.mesh = (.ok f, m') ∧
      CellSink.accept (.cell q id) s = (.ok (), { s with editor.mesh := m' }) := by
  cases hslots : s.slotsOf id q.toList with
  | error cause =>
    exact Or.inl ⟨.build cause, accept_cell_of_slotsOf hslots, cellRefused_of_slotsOf hslots⟩
  | ok slots =>
    obtain ⟨sf, hs, -⟩ := Option.map_eq_some_iff.1 h.mode
    cases hf : sf.facet with
    | some f =>
      refine Or.inl ⟨.build .facetAlreadyOpen, ?_, .facetOpen⟩
      obtain ⟨⟨m, surface⟩, index⟩ := s
      obtain rfl : surface = some sf := hs
      change addCell q id _ = _
      unfold addCell
      rw [hslots]
      simp only [Editor.addFacet_of_facet (s := sf) (by rw [hf]; rfl)]
    | none =>
      rw [h.accept_cell_apply hs hf hslots]
      have hthree : 3 ≤ (slots.map Vertex.mk).length := by
        rw [List.length_map, (zip_of_mapM hslots).1]
        exact Nat.le_succ 3
      rcases hadd : Mesh.addFacet (slots.map Vertex.mk) id s.editor.mesh with ⟨cause | f, m'⟩
      · -- Neither opening the facet nor refusing it has left anything behind.
        obtain rfl := Mesh.addFacet_eq_error hadd
        refine Or.inl ⟨.build cause, rfl, ?_⟩
        rcases Mesh.cause_of_addFacet hthree hadd with rfl | ⟨v, rfl⟩ | hmisfit
        · exact .duplicate
        · exact .repeated v
        · exact .misfit hmisfit
      · exact Or.inr ⟨_, f, m', hadd, rfl⟩

/-- Every call keeps the index in step, whether it succeeds or fails. -/
theorem accept (h : InStep s) (call : SinkCall) : InStep (CellSink.accept call s).2 := by
  cases call with
  | vertex p id =>
    cases hid : s.index.contains id with
    | true =>
      rw [accept_known p hid]
      exact h
    | false =>
      obtain ⟨v, m', -, hcall, hnext⟩ := h.accept_new p hid
      rw [hcall]
      exact hnext
  | cell q id =>
    rcases h.accept_cell_cases q id with ⟨e, hcall, -⟩ | ⟨vs, f, m', hadd, hcall⟩ <;> rw [hcall]
    · exact h
    -- A new facet changes no vertex, so the index need not change either.
    · refine ⟨h.mode, h.listed.addFacet hadd, fun i slot => ?_⟩
      obtain ⟨-, -, -, links, -, rfl⟩ := Mesh.addFacet_eq_ok.1 hadd
      exact h.index i slot

end InStep

/-- A sink that does what it should at any time, whatever its links are like. -/
structure Dependable (s : IdSink) : Prop where
  /-- The index lists the live vertices by their ids, and nothing else. -/
  index : ∀ id slot, s.index[id]? = some slot ↔
    s.editor.mesh.links.isLiveVertex ⟨slot⟩ = true ∧ s.editor.mesh.vertexId ⟨slot⟩ = id
  /-- As many vertices are indexed as are live. -/
  count : s.indexedCount = s.editor.mesh.links.liveVertices.length
  /-- A vertex is taken. -/
  vertex : ∀ p id, (CellSink.accept (.vertex p id) s).1 = .ok ()
  /-- If its id was there, nothing changes. -/
  known : ∀ p id v, s.editor.mesh.links.isLiveVertex v = true → s.editor.mesh.vertexId v = id →
    (CellSink.accept (.vertex p id) s).2 = s
  /-- A cell that is refused changes nothing. -/
  refused : ∀ q id e s', CellSink.accept (.cell q id) s = (.error e, s') → s' = s
  /-- It is not refused for corners that are out of range or too few, for want of an open facet, or for the id of a
  vertex. -/
  cause : ∀ q id e s', CellSink.accept (.cell q id) s = (.error (.build e), s') →
    (∀ index count, e ≠ .vertexIndexOutOfRange index count) ∧ (∀ facet corners, e ≠ .degenerateFacet facet corners) ∧
      e ≠ .noOpenFacet ∧ ∀ vertex, e ≠ .duplicateVertexId vertex

/-- An index in step makes a sink dependable. -/
theorem InStep.dependable (h : InStep s) : Dependable s where
  index _ _ := h.getElem?_index
  count := h.indexedCount_eq
  vertex p id := by
    cases hid : s.index.contains id with
    | true => rw [accept_known p hid]
    | false =>
      obtain ⟨v, m', -, hcall, -⟩ := h.accept_new p hid
      rw [hcall]
  known := by
    rintro p _ ⟨slot⟩ hv rfl
    have hslot := h.getElem?_index.2 ⟨hv, rfl⟩
    rw [accept_known p (by rw [Std.TreeMap.contains_eq_isSome_getElem?, hslot]; rfl)]
  refused q id e s' hcall := by
    rcases h.accept_cell_cases q id with ⟨_, he, -⟩ | ⟨_, _, _, -, hok⟩
    · exact (Prod.mk.inj (hcall.symm.trans he)).2
    · cases (Prod.mk.inj (hcall.symm.trans hok)).1
  cause q id e s' hcall := by
    rcases h.accept_cell_cases q id with ⟨e', he, hrefused⟩ | ⟨_, _, _, -, hok⟩
    · obtain rfl := Except.error.inj (Prod.mk.inj (hcall.symm.trans he)).1
      -- The causes of a refusal are known, and the four in question are not among them.
      cases hrefused with
      | misfit hmisfit => cases hmisfit <;> simp
      | _ => simp
    · cases (Prod.mk.inj (hcall.symm.trans hok)).1

/-- A sink can be made on an editor whose lookup matches the live vertices and whose surface is open in absolute mode,
and it is dependable after any calls, failed ones included. -/
theorem dependable_tryAll (hm : ed.mesh.VerticesListed) (hmode : ed.mode? = some .absolute) :
    ∃ s, make ed = .ok s ∧ s.editor = ed ∧ ∀ calls, Dependable (CellSink.tryAll calls s).2 := by
  obtain ⟨s, hs, hed, hstep⟩ := inStep_make hm hmode
  exact ⟨s, hs, hed, fun calls => (CellSink.keeps_tryAll (fun call _ h => h.accept call) calls hstep).dependable⟩

/-- A sink on a surface in which a facet was erased, with a deleted vertex in slot 0. -/
theorem dependable_tryAll_erased : ∃ s,
    make (EditorCall.run (EditorCall.erasedTriangle.take 17) {}) = .ok s ∧
      s.editor.mesh.links.isLiveVertex ⟨0⟩ = false ∧ ∀ calls, Dependable (CellSink.tryAll calls s).2 := by
  have h : Orderly (EditorCall.erasedTriangle.take 17) := by decide +kernel
  have hmode : (EditorCall.run (EditorCall.erasedTriangle.take 17) {}).mode? = some .absolute := by decide +kernel
  have hdead : (EditorCall.run (EditorCall.erasedTriangle.take 17) {}).mesh.links.isLiveVertex ⟨0⟩ = false := by
    decide +kernel
  obtain ⟨s, hs, hed, hall⟩ := dependable_tryAll h.sound.verticesListed hmode
  exact ⟨s, hs, by rw [hed]; exact hdead, hall⟩

end IdSink

end RegionMesh
