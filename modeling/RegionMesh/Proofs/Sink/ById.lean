import RegionMesh.Proofs.Mesh.Appended
import RegionMesh.Proofs.Sink.InStep

/-!
# What a sink by id makes of its calls

As long as its calls succeed, a sink that was made on a surface of a sound mesh holds the mesh to which the calls
were appended (`IdSink.Took`). A vertex is never refused (`Took.accept_vertex`), and a cell is taken if its corners
are there and the mesh takes the facet (`Took.accept_cell`).

When a call fails, all that matters is what the open surface would restore, and no call of the sink changes that
(`IdSink.keeps_accept`).
-/

namespace RegionMesh

namespace IdSink

variable {m : Mesh} {calls : List SinkCall} {s s' : IdSink} {p : Point} {id : ℕ} {q : Quad}

/-- No call of a sink changes what the open surface would restore. -/
theorem keeps_accept (m : Mesh) (call : SinkCall) :
    (CellSink.accept call : Action Failure IdSink Unit).Keeps fun s => s.editor.Restores m := by
  intro s hs
  -- A known vertex and a cell with an unknown corner do not get to the editor.
  cases call with
  | vertex p id =>
    change (addVertex p id s).2.editor.Restores m
    unfold addVertex
    have hkeeps := Editor.keeps_restores_addVertex p id s.editor hs
    split
    · exact hs
    · split <;> simp_all
  | cell q id =>
    change (addCell q id s).2.editor.Restores m
    unfold addCell
    split
    · exact hs
    · rename_i slots _
      have hkeeps := Editor.keeps_restores_addFacet slots id s.editor hs
      split <;> simp_all

/-- A sink that was made on `m`, in an open surface, has taken calls. -/
structure Took (m : Mesh) (calls : List SinkCall) (s : IdSink) : Prop where
  /-- The surface is open, and no facet is. -/
  surface : s.editor.surface = some { mode := .absolute, firstVertex := m.vertexCount, snapshot := m }
  /-- What the calls report was appended. -/
  mesh : m.Appended (calls.filterMap SinkCall.sample?) (calls.filterMap SinkCall.cell?) s.editor.mesh
  /-- The index lists the vertices. -/
  index : ∀ id slot, s.index[id]? = some slot ↔ s.editor.mesh.findVertex? id = some ⟨slot⟩

/-- A sink that is made on a new surface has taken no calls. -/
theorem took_make (hm : m.Sound) : ∃ s, make (.opened .absolute m) = .ok s ∧ Took m [] s := by
  have hlisted : (Editor.opened .absolute m).mesh.VerticesListed := hm.verticesListed
  obtain ⟨s, hs, hed, hstep⟩ := inStep_make hlisted rfl
  refine ⟨s, hs, congrArg Editor.surface hed, ?_, hstep.index⟩
  rw [hed]
  exact .refl hm

namespace Took

/-- The index is in step with the mesh. -/
theorem inStep (h : Took m calls s) : InStep s :=
  ⟨by unfold Editor.mode?; rw [h.surface]; rfl, h.mesh.sound.verticesListed, h.index⟩

/-- A vertex is taken, whether its id is known or not. -/
theorem accept_vertex (h : Took m calls s) (p : Point) (id : ℕ) :
    ∃ s', CellSink.accept (.vertex p id) s = (.ok (), s') ∧ Took m (calls ++ [.vertex p id]) s' := by
  have happend : ∀ m', m.Appended (calls.filterMap SinkCall.sample? ++ [(id, p)])
        (calls.filterMap SinkCall.cell?) m' →
      m.Appended ((calls ++ [SinkCall.vertex p id]).filterMap SinkCall.sample?)
        ((calls ++ [SinkCall.vertex p id]).filterMap SinkCall.cell?) m' := by
    intro m' h'
    simpa [List.filterMap_cons, SinkCall.sample?, SinkCall.cell?] using h'
  cases hid : s.index.contains id with
  | true =>
    refine ⟨s, accept_known p hid, h.surface, happend _ (h.mesh.known ?_), h.index⟩
    rw [Std.TreeMap.contains_eq_isSome_getElem?, Option.isSome_iff_exists] at hid
    obtain ⟨slot, hslot⟩ := hid
    rw [(h.index id slot).1 hslot]
    exact Option.some_ne_none _
  -- A new vertex is added to the mesh and to the index, which stays in step.
  | false =>
    obtain ⟨v, m', hadd, hcall, hstep⟩ := h.inStep.accept_new p hid
    exact ⟨_, hcall, h.surface, happend _ (h.mesh.addVertex hadd), hstep.index⟩

/-- A cell is taken if the mesh has its corners and takes a facet on them. -/
theorem accept_cell (h : Took m calls s) : CellSink.accept (.cell q id) s = (.ok (), s') ↔
    ∃ vs f m', q.toList.map s.editor.mesh.findVertex? = vs.map some ∧
      Mesh.addFacet vs id s.editor.mesh = (.ok f, m') ∧
        s' = { s with editor := { s.editor with mesh := m' } } := by
  rcases hslots : s.slotsOf id q.toList with e | slots
  · -- If a corner is missing, there are no such vertices.
    rw [accept_cell_of_slotsOf hslots]
    simp only [Prod.mk.injEq, reduceCtorEq, false_and, false_iff]
    rintro ⟨vs, f, m', hvs, -⟩
    have hslot : (vs.map Vertex.slot).map Vertex.mk = vs := by
      rw [List.map_map]
      exact List.map_id vs
    have hok : s.slotsOf id q.toList = .ok (vs.map Vertex.slot) := h.inStep.slotsOf_eq_ok.2 (by rw [hvs, hslot])
    rw [hslots] at hok
    cases hok
  · have hvs : ∀ vs : List Vertex, q.toList.map s.editor.mesh.findVertex? = vs.map some ↔
        slots.map Vertex.mk = vs := by
      intro vs
      rw [h.inStep.slotsOf_eq_ok.1 hslots]
      exact (List.map_injective_iff.2 (Option.some_injective _)).eq_iff
    rw [h.inStep.accept_cell_apply h.surface rfl hslots]
    simp only [hvs]
    rcases hadd : Mesh.addFacet (slots.map Vertex.mk) id s.editor.mesh with ⟨e | f, m'⟩
    · constructor
      · intro hcall
        cases (Prod.mk.inj hcall).1
      · rintro ⟨_, f, m', rfl, hm', -⟩
        rw [hadd] at hm'
        cases (Prod.mk.inj hm').1
    · constructor
      · intro hcall
        exact ⟨_, f, m', rfl, hadd, (Prod.mk.inj hcall).2.symm⟩
      · rintro ⟨_, g, m'', rfl, hm', rfl⟩
        obtain ⟨-, rfl⟩ := Prod.mk.inj (hadd.symm.trans hm')
        rfl

/-- A call that succeeds is taken. -/
theorem accept (h : Took m calls s) {call : SinkCall} (hcall : CellSink.accept call s = (.ok (), s')) :
    Took m (calls ++ [call]) s' := by
  cases call with
  | vertex p id =>
    obtain ⟨s'', hs'', htook⟩ := h.accept_vertex p id
    -- An action has one outcome.
    obtain rfl := (Prod.mk.inj (hcall.symm.trans hs'')).2
    exact htook
  | cell q id =>
    obtain ⟨vs, f, m', hvs, hadd, rfl⟩ := h.accept_cell.1 hcall
    obtain ⟨hlive, hids⟩ := h.mesh.sound.map_findVertex?.1 hvs
    have happ := h.mesh.addFacet hlive hadd
    refine ⟨h.surface, ?_, fun i slot => ?_⟩
    · rw [hids] at happ
      simpa [List.filterMap_cons, SinkCall.sample?, SinkCall.cell?] using happ
    · obtain ⟨-, -, -, links, -, rfl⟩ := Mesh.addFacet_eq_ok.1 hadd
      exact h.index i slot

/-- Calls that all succeed are taken. -/
theorem acceptAll (h : Took m calls s) {more : List SinkCall}
    (hmore : CellSink.acceptAll more s = (.ok (), s')) : Took m (calls ++ more) s' := by
  induction more generalizing calls s with
  | nil =>
    obtain rfl : s = s' := (Prod.mk.inj hmore).2
    rwa [List.append_nil]
  | cons call rest ih =>
    obtain ⟨_, s₁, hcall, hrest⟩ := Action.bind_eq_ok.1 hmore
    rw [List.append_cons]
    exact ih (h.accept hcall) hrest

/-- If every cell is taken when its turn comes, all calls succeed. -/
theorem exists_acceptAll (h : Took m calls s) {more : List SinkCall}
    (hcell : ∀ before q id after, more = before ++ .cell q id :: after → ∀ s, Took m (calls ++ before) s →
      ∃ s', CellSink.accept (.cell q id) s = (.ok (), s')) :
    ∃ s', CellSink.acceptAll more s = (.ok (), s') ∧ Took m (calls ++ more) s' := by
  -- What was taken grows from the left, so the hypothesis on the cells is moved along with it.
  induction more generalizing calls s with
  | nil => exact ⟨s, rfl, by rwa [List.append_nil]⟩
  | cons call rest ih =>
    obtain ⟨s₁, hcall⟩ : ∃ s₁, CellSink.accept call s = (.ok (), s₁) := by
      cases call with
      | vertex p id =>
        obtain ⟨s₁, hs₁, -⟩ := h.accept_vertex p id
        exact ⟨s₁, hs₁⟩
      | cell q id => exact hcell [] q id rest rfl s (by rwa [List.append_nil])
    obtain ⟨s', hrest, htook⟩ := ih (h.accept hcall) fun before q id after he s hs =>
      hcell (call :: before) q id after (by rw [he, List.cons_append]) s (by rwa [List.append_cons])
    refine ⟨s', (Action.bind_apply_of_ok hcall _).trans hrest, ?_⟩
    rwa [List.append_cons]

end Took

end IdSink

end RegionMesh
