import RegionMesh.Proofs.Sink.ByPosition
import RegionMesh.Proofs.Sink.InStep

/-!
# Corners by position and by id

The same calls on a sink by position and on a sink by id, with every position replaced by the id of the vertex that
was added there, get the same answers and build the same mesh (`CellSink.sinks_agree`). The two ways of naming a corner
have nothing in common: a position counts from the first vertex of the surface, and an id is looked up among all
vertices. What carries over from call to call is that the meshes are the same, and that the vertices of the surface
stand in it in the order of the calls (`Twins`). A cell that is refused leaves both sinks as they were, so it does not
matter how many of them are.
-/

namespace RegionMesh

/-! ## Calls by position -/

/-- The corners of a cell under other names. -/
def Quad.map (f : ℕ → ℕ) (q : Quad) : Quad := ⟨f q.first, f q.second, f q.third, f q.fourth⟩

/-- The corners of a cell are renamed one by one. -/
@[simp]
theorem Quad.toList_map (f : ℕ → ℕ) (q : Quad) : (q.map f).toList = q.toList.map f := rfl

namespace SinkCall

/-- The samples that calls report, in order. -/
def samples (calls : List SinkCall) : List (ℕ × Point) := calls.filterMap sample?

/-- The corners that a call names. -/
def corners : SinkCall → List ℕ
  | vertex _ _ => []
  | cell q _ => q.toList

/-- A call whose corners are renamed. -/
def rename (f : ℕ → ℕ) : SinkCall → SinkCall
  | vertex p id => vertex p id
  | cell q id => cell (q.map f) id

/-- The id of the sample at a position. -/
def idAt (samples : List (ℕ × Point)) (k : ℕ) : ℕ := (samples.map Prod.fst).getD k 0

/-- The samples of two lists of calls are those of the one and then those of the other. -/
theorem samples_append (calls more : List SinkCall) : samples (calls ++ more) = samples calls ++ samples more :=
  List.filterMap_append ..

/-- Later samples do not change the ids at the positions so far. -/
theorem idAt_of_getElem? {samples later : List (ℕ × Point)} {k : ℕ} {x : ℕ × Point} (h : samples[k]? = some x) :
    idAt (samples ++ later) k = x.1 := by
  have hk : k < samples.length := (List.getElem?_eq_some_iff.1 h).1
  rw [idAt, List.getD_eq_getElem?_getD, List.getElem?_map, List.getElem?_append_left hk, h]
  rfl

end SinkCall

open SinkCall

/-- Calls on a new surface on `m` that name corners by position. -/
structure Mesh.TakesByPosition (m : Mesh) (calls : List SinkCall) : Prop where
  /-- The vertices have different ids. -/
  nodup : ((samples calls).map Prod.fst).Nodup
  /-- No vertex of the mesh has one of these ids. -/
  free : ∀ x ∈ samples calls, ∀ v, m.links.isLiveVertex v = true → m.vertexId v ≠ x.1
  /-- A corner is the position of a vertex that was added before. -/
  corner : ∀ i (hi : i < calls.length), ∀ k ∈ calls[i].corners, k < (samples (calls.take i)).length

namespace Mesh.TakesByPosition

variable {m m' : Mesh} {before rest calls : List SinkCall} {cells : List (ℕ × List ℕ)} {p : Point} {id : ℕ} {q : Quad}

/-- A vertex that comes next has a free id. -/
theorem findVertex?_eq_none (h : m.TakesByPosition calls) (hm : m.Sound)
    (hsplit : calls = before ++ .vertex p id :: rest) (hplaced : m.Placed (samples before) cells m') :
    m'.findVertex? id = none := by
  have hsamples : samples calls = samples before ++ (id, p) :: samples rest := by rw [hsplit, samples_append]; rfl
  have hmem : (id, p) ∈ samples calls := by
    rw [hsamples]
    exact List.mem_append_right _ (List.mem_cons_self ..)
  refine hplaced.findVertex?_eq_none hm (hm.vertices.getElem?_eq_none.2 (h.free _ hmem)) fun x hx he => ?_
  -- No id is given twice, so no earlier sample has it.
  have hnodup := h.nodup
  rw [hsamples, List.map_append, List.map_cons] at hnodup
  exact (List.nodup_append.1 hnodup).2.2 x.1 (List.mem_map_of_mem hx) id (List.mem_cons_self ..) he

/-- The corners of a cell that comes next are there. -/
theorem corner_lt (h : m.TakesByPosition calls) (hsplit : calls = before ++ .cell q id :: rest) :
    ∀ k ∈ q.toList, k < (samples before).length := by
  subst hsplit
  have hcorner := h.corner before.length (by simp)
  rw [List.getElem_append_right (Nat.le_refl _), List.take_left] at hcorner
  simpa [corners] using hcorner

/-- The positions so far have the ids of the samples so far. -/
theorem idAt_eq {call : SinkCall} (hsplit : calls = before ++ call :: rest) {k : ℕ} {x : ℕ × Point}
    (hx : (samples before)[k]? = some x) : idAt (samples calls) k = x.1 := by
  rw [hsplit, samples_append]
  exact idAt_of_getElem? hx

end Mesh.TakesByPosition

/-! ## Two sinks side by side -/

/-- A sink by position and a sink by id that were made on `m` hold the same mesh, with the samples in order behind the
vertices of `m`. -/
structure Twins (m : Mesh) (samples : List (ℕ × Point)) (s : PositionSink) (t : IdSink) : Prop where
  /-- The first sink has the mesh of the second one, and no open facet. -/
  left : s.editor = ⟨t.editor.mesh, some { mode := .relative, firstVertex := m.vertexCount, snapshot := m }⟩
  /-- The second sink has no open facet. -/
  right : t.editor.surface = some { mode := .absolute, firstVertex := m.vertexCount, snapshot := m }
  /-- Its index is in step. -/
  inStep : t.InStep
  /-- The samples are the new vertices. -/
  placed : ∃ cells, m.Placed samples cells t.editor.mesh

namespace Twins

variable {m : Mesh} {samples : List (ℕ × Point)} {s : PositionSink} {t : IdSink} {id : ℕ} {q : Quad}
  {before rest calls : List SinkCall} {call : SinkCall}

/-- New sinks on a sound mesh are twins. -/
theorem make (hm : m.Sound) : ∃ s t, PositionSink.make (.opened .relative m) = .ok s ∧
    IdSink.make (.opened .absolute m) = .ok t ∧ Twins m (SinkCall.samples []) s t := by
  have hlisted : (Editor.opened .absolute m).mesh.VerticesListed := hm.verticesListed
  obtain ⟨t, ht, hed, hstep⟩ := IdSink.inStep_make hlisted rfl
  refine ⟨⟨.opened .relative m⟩, t, rfl, ht, ?_, by rw [hed]; rfl, hstep, [], ?_⟩
  · rw [hed]
    rfl
  · rw [hed]
    exact .refl hm

/-- Both take a vertex with a free id. -/
theorem accept_vertex (h : Twins m samples s t) (p : Point) (hid : t.editor.mesh.findVertex? id = none) :
    ∃ s' t', CellSink.accept (.vertex p id) s = (.ok (), s') ∧ CellSink.accept (.vertex p id) t = (.ok (), t') ∧
      Twins m (samples ++ [(id, p)]) s' t' := by
  -- What the mesh does not know, the index does not have.
  have hnew : t.index.contains id = false := by
    rw [contains_eq_false_iff, Option.eq_none_iff_forall_ne_some]
    intro slot hslot
    rw [h.inStep.index, hid] at hslot
    cases hslot
  obtain ⟨v, m', hadd, hcall, hstep⟩ := h.inStep.accept_new p hnew
  obtain ⟨cells, hplaced⟩ := h.placed
  exact ⟨_, _, PositionSink.accept_vertex_apply h.left hadd, hcall, rfl, h.right, hstep, cells,
    hplaced.addVertex hadd⟩

/-- Both give the same answer to a cell, whose corners are named by position and by id. -/
theorem accept_cell (h : Twins m samples s t) (hcorner : ∀ k ∈ q.toList, k < samples.length) {name : ℕ → ℕ}
    (hname : ∀ k x, samples[k]? = some x → name k = x.1) : ∃ answer s' t',
      CellSink.accept (.cell q id) s = (answer, s') ∧ CellSink.accept (.cell (q.map name) id) t = (answer, t') ∧
        Twins m samples s' t' := by
  obtain ⟨cells, hplaced⟩ := h.placed
  have hlive := fun k hk => hplaced.isLiveVertex (hcorner k hk)
  have hleft := PositionSink.accept_cell_apply h.left rfl hlive id
  rw [OpenSurface.vertexAt_of_relative rfl] at hleft
  -- The ids at the positions are those of the vertices that the positions name.
  have hslots : t.slotsOf id (q.map name).toList = .ok (q.toList.map (m.vertexCount + ·)) := by
    rw [h.inStep.slotsOf_eq_ok, Quad.toList_map, List.map_map, List.map_map, List.map_map]
    refine List.map_congr_left fun k hk => ?_
    have hx := List.getElem?_eq_getElem (hcorner k hk)
    obtain ⟨hv, hid, -⟩ := hplaced.vertex k _ hx
    refine hplaced.sound.findVertex?_eq_some.2 ⟨hv, ?_⟩
    rw [hid, hname k _ hx]
  have hright := h.inStep.accept_cell_apply h.right rfl hslots
  rw [List.map_map] at hright
  refine ⟨_, _, _, hleft, hright, rfl, h.right, ?_, ?_⟩
  · have hstep := h.inStep.accept (.cell (q.map name) id)
    rw [hright] at hstep
    exact hstep
  · rcases hadd : Mesh.addFacet (q.toList.map fun k => ⟨m.vertexCount + k⟩) id t.editor.mesh with ⟨e | f, m'⟩
    · obtain rfl := Mesh.addFacet_eq_error hadd
      exact ⟨cells, by simpa [Function.comp_def, hadd] using hplaced⟩
    · exact ⟨cells ++ [(id, q.toList)], by simpa [Function.comp_def, hadd] using hplaced.addFacet hcorner hadd⟩

/-- Both give the same answer to the next call. -/
theorem accept (h : Twins m (SinkCall.samples before) s t) (hm : m.Sound) (hcalls : m.TakesByPosition calls)
    (hsplit : calls = before ++ call :: rest) : ∃ answer s' t', CellSink.accept call s = (answer, s') ∧
      CellSink.accept (call.rename (idAt (SinkCall.samples calls))) t = (answer, t') ∧
        Twins m (SinkCall.samples (before ++ [call])) s' t' := by
  rw [samples_append]
  cases call with
  | vertex p id =>
    obtain ⟨cells, hplaced⟩ := h.placed
    obtain ⟨s', t', hs, ht, hnext⟩ := h.accept_vertex p (hcalls.findVertex?_eq_none hm hsplit hplaced)
    exact ⟨_, s', t', hs, ht, hnext⟩
  -- A cell adds no sample, so the corners of what comes next are named as before.
  | cell q id =>
    obtain ⟨answer, s', t', hs, ht, hnext⟩ :=
      h.accept_cell (hcalls.corner_lt hsplit) fun _ _ => Mesh.TakesByPosition.idAt_eq hsplit
    refine ⟨answer, s', t', hs, ht, ?_⟩
    rwa [show SinkCall.samples [.cell q id] = [] from rfl, List.append_nil]

/-- Both give the same answers to the remaining calls. -/
theorem tryAll (h : Twins m (SinkCall.samples before) s t) (hm : m.Sound) (hcalls : m.TakesByPosition calls)
    (hsplit : calls = before ++ rest) :
    (CellSink.tryAll rest s).1 = (CellSink.tryAll (rest.map (rename (idAt (SinkCall.samples calls)))) t).1 ∧
      Twins m (SinkCall.samples calls) (CellSink.tryAll rest s).2
        (CellSink.tryAll (rest.map (rename (idAt (SinkCall.samples calls)))) t).2 := by
  induction rest generalizing before s t with
  | nil =>
    rw [List.append_nil] at hsplit
    exact ⟨rfl, hsplit ▸ h⟩
  | cons call rest ih =>
    -- Both sinks are twins again after the first call, whatever its answer.
    obtain ⟨answer, s', t', hs, ht, hnext⟩ := h.accept hm hcalls hsplit
    obtain ⟨hanswers, htwins⟩ := ih hnext (by rw [hsplit, List.append_cons])
    rw [List.map_cons, CellSink.tryAll_cons, CellSink.tryAll_cons, hs, ht]
    exact ⟨congrArg (answer :: ·) hanswers, htwins⟩

end Twins

/-- On the mesh of an orderly run, a sink by position and a sink by id answer the same calls in the same way and build
the same mesh, if the vertices have different free ids and every corner is named by its position to the one and by the
id of the vertex at this position to the other. -/
theorem CellSink.sinks_agree {calls : List EditorCall} (h : Orderly calls) {work : List SinkCall}
    (hwork : (EditorCall.run calls {}).mesh.TakesByPosition work) :
    ∃ s t, PositionSink.make (.opened .relative (EditorCall.run calls {}).mesh) = .ok s ∧
      IdSink.make (.opened .absolute (EditorCall.run calls {}).mesh) = .ok t ∧
      (tryAll work s).1 = (tryAll (work.map (rename (idAt (samples work)))) t).1 ∧
      (tryAll work s).2.editor.mesh = (tryAll (work.map (rename (idAt (samples work)))) t).2.editor.mesh := by
  obtain ⟨s, t, hs, ht, htwins⟩ := Twins.make h.sound
  obtain ⟨hanswers, hend⟩ := htwins.tryAll h.sound hwork rfl
  exact ⟨s, t, hs, ht, hanswers, by rw [hend.left]⟩

/-- Two neighbouring cells, and between them one that does not fit on the sides of the first. -/
def SinkCall.neighbors : List SinkCall :=
  [.vertex .origin 0, .vertex .origin 10, .vertex .origin 11, .vertex .origin 12, .cell ⟨0, 1, 2, 3⟩ 7,
    .cell ⟨0, 1, 2, 3⟩ 8, .vertex .origin 13, .vertex .origin 14, .cell ⟨1, 0, 4, 5⟩ 8]

/-- Cells behind a deleted vertex whose id is used again, of which the second one is refused by both sinks. -/
theorem CellSink.sinks_agree_neighbors : ∃ s t,
    PositionSink.make (.opened .relative (EditorCall.run (EditorCall.erasedTriangle.take 17) {}).mesh) = .ok s ∧
    IdSink.make (.opened .absolute (EditorCall.run (EditorCall.erasedTriangle.take 17) {}).mesh) = .ok t ∧
    (tryAll neighbors s).1.map Except.isOk = [true, true, true, true, true, false, true, true, true] ∧
    (tryAll neighbors s).1 = (tryAll (neighbors.map (rename (idAt (samples neighbors)))) t).1 ∧
    (tryAll neighbors s).2.editor.mesh =
      (tryAll (neighbors.map (rename (idAt (samples neighbors)))) t).2.editor.mesh := by
  have h : Orderly (EditorCall.erasedTriangle.take 17) := by decide +kernel
  -- The ids of the samples must be free, which is evaluated for each of them and each live vertex.
  have hfree : ∀ x ∈ (samples neighbors).map Prod.fst,
      ∀ v ∈ (EditorCall.run (EditorCall.erasedTriangle.take 17) {}).mesh.links.liveVertices,
        (EditorCall.run (EditorCall.erasedTriangle.take 17) {}).mesh.vertexId v ≠ x := by
    decide +kernel
  have hwork : (EditorCall.run (EditorCall.erasedTriangle.take 17) {}).mesh.TakesByPosition neighbors := {
    nodup := by decide +kernel
    free := fun x hx v hv => hfree x.1 (List.mem_map_of_mem hx) v (Connectivity.mem_liveVertices.2 hv)
    corner := by decide +kernel
  }
  have hanswers : (tryAll neighbors
      (⟨.opened .relative (EditorCall.run (EditorCall.erasedTriangle.take 17) {}).mesh⟩ : PositionSink)).1.map
        Except.isOk = [true, true, true, true, true, false, true, true, true] := by
    decide +kernel
  obtain ⟨s, t, hs, ht, hsame⟩ := sinks_agree h hwork
  obtain rfl := Except.ok.inj hs
  exact ⟨_, t, rfl, ht, hanswers, hsame⟩

end RegionMesh
