import RegionMesh.Proofs.Editor.Surface
import RegionMesh.Proofs.Mesh.Placed
import RegionMesh.Proofs.Sink.Calls
import RegionMesh.Sink.ByPosition

/-!
# What a sink by position makes of its calls

A sink that was made on a surface of a sound mesh holds the mesh to which the samples and cells of its calls were added
in order (`PositionSink.Took`). A vertex is taken if its id is free (`Took.accept_vertex`), and a cell if its corners
were added and the mesh takes the facet (`Took.accept_cell`).
-/

namespace RegionMesh

namespace PositionSink

variable {m : Mesh} {calls : List SinkCall} {s : PositionSink}

/-- A vertex is taken if the mesh takes it. -/
theorem accept_vertex_apply {m' : Mesh} {sf : OpenSurface} (hs : s.editor = ⟨m, some sf⟩) {p : Point} {id : ℕ}
    {v : Vertex} (hadd : Mesh.addVertex p id m = (.ok v, m')) :
    CellSink.accept (.vertex p id) s = (.ok (), ⟨⟨m', some sf⟩⟩) := by
  change onEditor (Editor.addVertex p id) s = _
  unfold onEditor
  rw [hs, Editor.addVertex_apply sf hadd]
  rfl

/-- Where no facet is open, a cell on live vertices is taken as the mesh takes a facet on them. -/
theorem accept_cell_apply {sf : OpenSurface} (hs : s.editor = ⟨m, some sf⟩) (hf : sf.facet = none) {q : Quad}
    (hlive : ∀ i ∈ q.toList, m.links.isLiveVertex (sf.vertexAt i) = true) (id : ℕ) :
    CellSink.accept (.cell q id) s =
      (((Mesh.addFacet (q.toList.map sf.vertexAt) id m).1.mapError Failure.build).map fun _ => (),
        ⟨⟨(Mesh.addFacet (q.toList.map sf.vertexAt) id m).2, some sf⟩⟩) := by
  change onEditor (Editor.addFacet q.toList id) s = _
  unfold onEditor
  rw [hs, Editor.addFacet_apply_of_three hf hlive (by simp [Quad.toList])]

/-- A sink that was made on `m`, in an open surface, has taken calls. -/
structure Took (m : Mesh) (calls : List SinkCall) (s : PositionSink) : Prop where
  /-- The surface is open, and no facet is. -/
  surface : s.editor.surface = some { mode := .relative, firstVertex := m.vertexCount, snapshot := m }
  /-- What the calls report was added in order. -/
  mesh : m.Placed (calls.filterMap SinkCall.sample?) (calls.filterMap SinkCall.cell?) s.editor.mesh

/-- A sink that is made on a new surface has taken no calls. -/
theorem took_make (hm : m.Sound) : ∃ s, make (.opened .relative m) = .ok s ∧ Took m [] s :=
  ⟨⟨.opened .relative m⟩, rfl, rfl, .refl hm⟩

namespace Took

/-- The editor has the mesh and the surface. -/
theorem editor_eq (h : Took m calls s) : s.editor =
    ⟨s.editor.mesh, some { mode := .relative, firstVertex := m.vertexCount, snapshot := m }⟩ :=
  congrArg (Editor.mk s.editor.mesh) h.surface

/-- A vertex with a free id is taken. -/
theorem accept_vertex (h : Took m calls s) (p : Point) {id : ℕ} (hid : s.editor.mesh.findVertex? id = none) :
    ∃ s', CellSink.accept (.vertex p id) s = (.ok (), s') ∧ Took m (calls ++ [.vertex p id]) s' := by
  obtain ⟨v, m', hadd⟩ : ∃ v m', Mesh.addVertex p id s.editor.mesh = (.ok v, m') :=
    ⟨_, _, Mesh.addVertex_eq_ok.2 ⟨contains_eq_false_iff.2 hid, rfl, rfl⟩⟩
  refine ⟨_, accept_vertex_apply h.editor_eq hadd, rfl, ?_⟩
  simpa [List.filterMap_cons, SinkCall.sample?, SinkCall.cell?] using h.mesh.addVertex hadd

/-- A cell is taken if its corners were added and the mesh takes a facet on them. -/
theorem accept_cell (h : Took m calls s) {q : Quad} {id : ℕ}
    (hcorners : ∀ i ∈ q.toList, i < (calls.filterMap SinkCall.sample?).length)
    (hadd : ∃ f m', Mesh.addFacet (q.toList.map fun i => ⟨m.vertexCount + i⟩) id s.editor.mesh = (.ok f, m')) :
    ∃ s', CellSink.accept (.cell q id) s = (.ok (), s') ∧ Took m (calls ++ [.cell q id]) s' := by
  obtain ⟨f, m', hadd⟩ := hadd
  have hlive := fun i hi => h.mesh.isLiveVertex (hcorners i hi)
  have hcall := accept_cell_apply h.editor_eq rfl hlive id
  rw [OpenSurface.vertexAt_of_relative rfl, hadd] at hcall
  refine ⟨_, hcall, rfl, ?_⟩
  simpa [List.filterMap_cons, SinkCall.sample?, SinkCall.cell?] using h.mesh.addFacet hcorners hadd

end Took

end PositionSink

end RegionMesh
