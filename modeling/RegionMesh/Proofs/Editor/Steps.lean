import Mathlib.Data.List.Infix
import RegionMesh.Editor.Call
import RegionMesh.Proofs.Mesh.Sound

/-!
# The steps of an editor

What a call on an editor can do, case by case (`Editor.Step`), and that every call does one of these things
(`perform_step`). What holds of all runs is shown along their calls (`forall_prefix`), with one case
for each kind of step and no look at the definitions of the calls.

The mesh that an open surface would restore is always the one that it was opened on (`Editor.Step.snapshot`).
-/

namespace RegionMesh

namespace Editor

/-- The facet that is open, if one is. -/
def openFacet? (ed : Editor) : Option OpenFacet := ed.surface.bind (·.facet)

/-- What a call can do: its answer, and the editor that it leaves. -/
inductive Step (ed : Editor) : EditorCall → Except BuildError (Option ℕ) → Editor → Prop
  /-- A call is refused, and leaves the editor as it is. -/
  | refused (call : EditorCall) (e : BuildError) : Step ed call (.error e) ed
  /-- A surface is opened. -/
  | beginSurface (mode : Indexing) (h : ed.surface = none) :
    Step ed (.beginSurface mode) (.ok none)
      { ed with
        surface := some { mode, firstVertex := ed.mesh.vertexCount, snapshot := ed.mesh } }
  /-- A vertex is added. -/
  | addVertex (p : Point) (id : ℕ) (s : OpenSurface) (v : Vertex) (m : Mesh) (hs : ed.surface = some s)
      (h : Mesh.addVertex p id ed.mesh = (.ok v, m)) :
    Step ed (.addVertex p id) (.ok (some v.slot)) { ed with mesh := m }
  /-- A facet is opened. -/
  | beginFacet (id : ℕ) (s : OpenSurface) (hs : ed.surface = some s) (hf : s.facet = none)
      (h : ed.mesh.findFacet? id = none) :
    Step ed (.beginFacet id) (.ok none) { ed with surface := some { s with facet := some { id } } }
  /-- The open facet gets another corner. -/
  | addCorner (index : ℕ) (s : OpenSurface) (f : OpenFacet) (hs : ed.surface = some s)
      (hf : s.facet = some f)
      (h : ed.mesh.links.isLiveVertex ⟨(ed.addressable s).1 + index⟩ = true) :
    Step ed (.addCorner index) (.ok none)
      { ed with
        surface := some { s with
          facet := some { f with corners := f.corners ++ [⟨(ed.addressable s).1 + index⟩] } } }
  /-- The open facet is added to the mesh. -/
  | endFacet (s : OpenSurface) (f : OpenFacet) (g : Facet) (m : Mesh) (hs : ed.surface = some s)
      (hf : s.facet = some f) (h : Mesh.addFacet f.corners f.id ed.mesh = (.ok g, m)) :
    Step ed .endFacet (.ok (some g.slot)) { mesh := m, surface := some { s with facet := none } }
  /-- The open facet does not fit, and is dropped. -/
  | dropFacet (s : OpenSurface) (f : OpenFacet) (e : BuildError) (m : Mesh) (hs : ed.surface = some s)
      (hf : s.facet = some f) (h : Mesh.addFacet f.corners f.id ed.mesh = (.error e, m)) :
    Step ed .endFacet (.error e) { mesh := m, surface := some { s with facet := none } }
  /-- A facet is erased. -/
  | eraseFacet (id : ℕ) (s : OpenSurface) (f : Facet) (hs : ed.surface = some s)
      (h : ed.mesh.findFacet? id = some f) :
    Step ed (.eraseFacet id) (.ok none)
      { mesh := ed.mesh.deleteFacet f, surface := some { s with erased := true } }
  /-- The surface ends, and the mesh is compacted or not. -/
  | endSurface (s : OpenSurface) (m : Mesh) (hs : ed.surface = some s) (hf : s.facet = none)
      (h : m = ed.mesh ∨ m = ed.mesh.compact) : Step ed .endSurface (.ok none) { mesh := m }
  /-- The mesh is restored. -/
  | rollback (s : OpenSurface) (hs : ed.surface = some s) :
    Step ed .rollback (.ok none) { mesh := s.snapshot }
  /-- The surface is given up, and the mesh stays. -/
  | abandon : Step ed .abandon (.ok none) { mesh := ed.mesh }

variable {ed ed' : Editor} {call : EditorCall} {answer : Except BuildError (Option ℕ)}

/-- What an open surface would restore is the mesh that it was opened on. -/
theorem Step.snapshot (h : ed.Step call answer ed') {s' : OpenSurface} (hs' : ed'.surface = some s') :
    s'.snapshot = ed.mesh ∨ ∃ s, ed.surface = some s ∧ s'.snapshot = s.snapshot := by
  -- Opening a surface is the only step that makes a snapshot, and ending one leaves no surface.
  cases h with
  | refused e => exact Or.inr ⟨s', hs', rfl⟩
  | beginSurface mode hs =>
    obtain rfl := Option.some.inj hs'
    exact Or.inl rfl
  | addVertex p id s v m hs h => exact Or.inr ⟨s', hs', rfl⟩
  | beginFacet id s hs hf h =>
    obtain rfl := Option.some.inj hs'
    exact Or.inr ⟨s, hs, rfl⟩
  | addCorner index s f hs hf h =>
    obtain rfl := Option.some.inj hs'
    exact Or.inr ⟨s, hs, rfl⟩
  | endFacet s f g m hs hf h =>
    obtain rfl := Option.some.inj hs'
    exact Or.inr ⟨s, hs, rfl⟩
  | dropFacet s f e m hs hf h =>
    obtain rfl := Option.some.inj hs'
    exact Or.inr ⟨s, hs, rfl⟩
  | eraseFacet id s f hs h =>
    obtain rfl := Option.some.inj hs'
    exact Or.inr ⟨s, hs, rfl⟩
  | endSurface s m hs hf h => cases hs'
  | rollback s hs => cases hs'
  | abandon => cases hs'

end Editor

/-- An action whose answer is changed leaves the same state. -/
theorem Action.map_apply {ε σ α β : Type} (f : α → β) (x : Action ε σ α) (s : σ) :
    (f <$> x) s = ((x s).1.map f, (x s).2) := by
  change (x >>= fun a => pure (f a)) s = _
  rw [Action.bind_apply]
  rcases x s with ⟨e | a, s'⟩ <;> rfl

namespace EditorCall

variable {ed : Editor}

/-- A call on the mesh leaves the surface as it is. -/
theorem onMesh_apply {α : Type} (call : Action BuildError Mesh α) (ed : Editor) :
    Editor.onMesh call ed = ((call ed.mesh).1, { ed with mesh := (call ed.mesh).2 }) := rfl

/-- A surface opens on an editor without one, and is refused on any other. -/
theorem beginSurface_step (mode : Indexing) (ed : Editor) : ed.Step (.beginSurface mode)
    ((beginSurface mode).perform ed).1 ((beginSurface mode).perform ed).2 := by
  obtain ⟨m, surface⟩ := ed
  simp only [perform, Action.map_apply]
  unfold Editor.beginSurface
  cases surface with
  | some s => exact .refused _ _
  | none => exact .beginSurface mode rfl

/-- An open surface gets a vertex, unless the mesh refuses it. -/
theorem addVertex_step (p : Point) (id : ℕ) (ed : Editor) : ed.Step (.addVertex p id)
    ((addVertex p id).perform ed).1 ((addVertex p id).perform ed).2 := by
  obtain ⟨m, surface⟩ := ed
  simp only [perform, Action.map_apply]
  unfold Editor.addVertex
  cases surface with
  | none => exact .refused _ _
  | some s =>
    simp only [onMesh_apply]
    -- A vertex that is refused leaves the mesh as it was.
    rcases hadd : Mesh.addVertex p id m with ⟨e | v, m'⟩
    · obtain rfl := Mesh.addVertex_eq_error hadd
      exact .refused _ _
    · exact .addVertex p id s v m' rfl hadd

/-- A surface without an open facet opens one with a free id, and refuses any other. -/
theorem beginFacet_step (id : ℕ) (ed : Editor) : ed.Step (.beginFacet id)
    ((beginFacet id).perform ed).1 ((beginFacet id).perform ed).2 := by
  obtain ⟨m, surface⟩ := ed
  simp only [perform, Action.map_apply]
  unfold Editor.beginFacet
  cases surface with
  | none => exact .refused _ _
  | some s =>
    simp only
    split
    · exact .refused _ _
    · rename_i hf
      split
      · exact .refused _ _
      · rename_i hid
        exact .beginFacet id s rfl (by simpa using hf) (by simpa using hid)

/-- An open facet gets a live vertex as a corner, and refuses an index that names none. -/
theorem addCorner_step (index : ℕ) (ed : Editor) : ed.Step (.addCorner index)
    ((addCorner index).perform ed).1 ((addCorner index).perform ed).2 := by
  obtain ⟨m, surface⟩ := ed
  simp only [perform, Action.map_apply]
  unfold Editor.addCorner
  cases surface with
  | none => exact .refused _ _
  | some s =>
    simp only
    split
    · exact .refused _ _
    · rename_i hv
      cases hf : s.facet with
      | none => exact .refused _ _
      | some f =>
        rw [not_or] at hv
        exact .addCorner index s f rfl hf (by simpa using hv.2)

/-- An open facet is closed, and dropped if it does not fit. -/
theorem endFacet_step (ed : Editor) :
    ed.Step .endFacet (endFacet.perform ed).1 (endFacet.perform ed).2 := by
  obtain ⟨m, surface⟩ := ed
  simp only [perform, Action.map_apply]
  unfold Editor.endFacet
  cases surface with
  | none => exact .refused _ _
  | some s =>
    cases hf : s.facet with
    | none =>
      simp only [hf]
      exact .refused _ _
    | some f =>
      simp only [hf, onMesh_apply]
      rcases hadd : Mesh.addFacet f.corners f.id m with ⟨e | g, m'⟩
      · exact .dropFacet s f e m' rfl hf hadd
      · exact .endFacet s f g m' rfl hf hadd

/-- An open surface loses the facet with an id, if there is one. -/
theorem eraseFacet_step (id : ℕ) (ed : Editor) : ed.Step (.eraseFacet id)
    ((eraseFacet id).perform ed).1 ((eraseFacet id).perform ed).2 := by
  obtain ⟨m, surface⟩ := ed
  simp only [perform, Action.map_apply]
  unfold Editor.eraseFacet
  cases surface with
  | none => exact .refused _ _
  | some s =>
    simp only
    cases hf : m.findFacet? id with
    | none => exact .refused _ _
    | some f => exact .eraseFacet id s f rfl hf

/-- A surface without an open facet ends, with the mesh compacted or as it is. -/
theorem endSurface_step (ed : Editor) :
    ed.Step .endSurface (endSurface.perform ed).1 (endSurface.perform ed).2 := by
  obtain ⟨m, surface⟩ := ed
  simp only [perform, Action.map_apply]
  unfold Editor.endSurface
  cases surface with
  | none => exact .refused _ _
  | some s =>
    simp only
    -- Whether the mesh is compacted is decided when it is known that no facet is open.
    split
    · exact .refused _ _
    · rename_i hf
      split
      · exact .endSurface s _ rfl (by simpa using hf) (.inr rfl)
      · exact .endSurface s _ rfl (by simpa using hf) (.inl rfl)

/-- An open surface goes, and the mesh is what it was. -/
theorem rollback_step (ed : Editor) :
    ed.Step .rollback (rollback.perform ed).1 (rollback.perform ed).2 := by
  obtain ⟨m, surface⟩ := ed
  simp only [perform, Action.map_apply]
  unfold Editor.rollback
  cases surface with
  | none => exact .refused _ _
  | some s => exact .rollback s rfl

/-- Every call takes one of the steps. -/
theorem perform_step (call : EditorCall) (ed : Editor) :
    ed.Step call (call.perform ed).1 (call.perform ed).2 := by
  cases call with
  | beginSurface mode => exact beginSurface_step mode ed
  | addVertex p id => exact addVertex_step p id ed
  | beginFacet id => exact beginFacet_step id ed
  | addCorner index => exact addCorner_step index ed
  | endFacet => exact endFacet_step ed
  | eraseFacet id => exact eraseFacet_step id ed
  | endSurface => exact endSurface_step ed
  | rollback => exact rollback_step ed
  | abandon => exact .abandon

/-! ## Runs -/

/-- The last call of a run works on what the others left. -/
theorem run_concat (calls : List EditorCall) (call : EditorCall) (ed : Editor) :
    run (calls ++ [call]) ed = (call.perform (run calls ed)).2 := by
  unfold run
  rw [List.foldl_append]
  rfl

/-- What holds at first and is kept by every call of a run holds after any number of its calls. -/
theorem forall_prefix {p : List EditorCall → Prop} {calls : List EditorCall} (hnil : p [])
    (hstep : ∀ before call, before ++ [call] <+: calls → p before → p (before ++ [call])) :
    ∀ before, before <+: calls → p before := by
  intro before
  induction before using List.reverseRecOn with
  | nil => exact fun _ => hnil
  | append_singleton before call ih =>
    exact fun h => hstep before call h (ih ((List.prefix_append before [call]).trans h))

end EditorCall

end RegionMesh
