import RegionMesh.Proofs.Action
import RegionMesh.Proofs.Editor.Steps

/-!
# Work in an open surface

What whoever builds a mesh through an editor needs to know of the editor. In an open surface a vertex is added if the
mesh takes it (`Editor.addVertex_apply`), and a facet on live vertices goes to the mesh in one go
(`Editor.addFacet_apply`), whichever way its corners are counted (`OpenSurface.vertexAt`).

Work in a surface of its own leaves what it has done (`Editor.inSurface_of_ok`). If it fails, it leaves what the open
surface restores (`Editor.inSurface_of_error`), and that no call changes but those that close the surface
(`Editor.Step.restores`).
-/

namespace RegionMesh

/-- The vertex that the index of a corner names. -/
def OpenSurface.vertexAt (s : OpenSurface) (index : ℕ) : Vertex :=
  match s.mode with
  | .relative => ⟨s.firstVertex + index⟩
  | .absolute => ⟨index⟩

/-- In relative mode an index counts from the first vertex of the surface. -/
theorem OpenSurface.vertexAt_of_relative {s : OpenSurface} (h : s.mode = .relative) :
    s.vertexAt = fun index => ⟨s.firstVertex + index⟩ := by
  funext index
  simp [vertexAt, h]

/-- In absolute mode an index names the vertex in this slot. -/
theorem OpenSurface.vertexAt_of_absolute {s : OpenSurface} (h : s.mode = .absolute) : s.vertexAt = Vertex.mk := by
  funext index
  simp [vertexAt, h]

namespace Editor

/-- An editor with a surface that was just opened. -/
def opened (mode : Indexing) (m : Mesh) : Editor where
  mesh := m
  surface := some { mode, firstVertex := m.vertexCount, snapshot := m }

/-- A surface is open that was opened on `m`. -/
def Restores (m : Mesh) (ed : Editor) : Prop := ∃ s, ed.surface = some s ∧ s.snapshot = m

variable {m : Mesh} {ed ed' : Editor} {call : EditorCall} {answer : Except BuildError (Option ℕ)}

/-- An open surface stays open until it is ended or given up. -/
theorem Step.restores (h : ed.Step call answer ed') (hend : call ≠ .endSurface) (hback : call ≠ .rollback)
    (hleave : call ≠ .abandon) (hed : ed.Restores m) : ed'.Restores m := by
  obtain ⟨s₀, hs₀, hm⟩ := hed
  -- No second surface can be opened, and the steps in the surface do not touch its snapshot.
  cases h with
  | refused e => exact ⟨s₀, hs₀, hm⟩
  | beginSurface mode hs =>
    rw [hs₀] at hs
    cases hs
  | addVertex p id s v m' hs h => exact ⟨s₀, hs₀, hm⟩
  | beginFacet id s hs hf h =>
    obtain rfl := Option.some.inj (hs₀.symm.trans hs)
    exact ⟨_, rfl, hm⟩
  | addCorner index s f hs hf h =>
    obtain rfl := Option.some.inj (hs₀.symm.trans hs)
    exact ⟨_, rfl, hm⟩
  | endFacet s f g m' hs hf h =>
    obtain rfl := Option.some.inj (hs₀.symm.trans hs)
    exact ⟨_, rfl, hm⟩
  | dropFacet s f e m' hs hf h =>
    obtain rfl := Option.some.inj (hs₀.symm.trans hs)
    exact ⟨_, rfl, hm⟩
  | eraseFacet id s f hs h =>
    obtain rfl := Option.some.inj (hs₀.symm.trans hs)
    exact ⟨_, rfl, hm⟩
  | endSurface s m' hs hf h => exact absurd rfl hend
  | rollback s hs => exact absurd rfl hback
  | abandon => exact absurd rfl hleave

/-- A call whose answer is the slot of what it adds does to the editor what the call does. -/
theorem keeps_restores {α : Type} {edit : Edit α} {slot : α → Option ℕ} (call : EditorCall)
    (h : call.perform = slot <$> edit) (hend : call ≠ .endSurface) (hback : call ≠ .rollback)
    (hleave : call ≠ .abandon) : edit.Keeps (Restores m) := by
  intro ed hed
  have hstep := EditorCall.perform_step call ed
  rw [h, Action.map_apply] at hstep
  exact hstep.restores hend hback hleave hed

/-- Adding a vertex makes no difference to what a surface restores. -/
theorem keeps_restores_addVertex (p : Point) (id : ℕ) : (addVertex p id).Keeps (Restores m) :=
  keeps_restores (.addVertex p id) rfl (by simp) (by simp) (by simp)

/-- Adding a facet makes no difference to what a surface restores. -/
theorem keeps_restores_addFacet (corners : List ℕ) (id : ℕ) : (addFacet corners id).Keeps (Restores m) := by
  have hbegin : (beginFacet id).Keeps (Restores m) :=
    keeps_restores (.beginFacet id) rfl (by simp) (by simp) (by simp)
  have hcorner : ∀ i, (addCorner i).Keeps (Restores m) := fun i =>
    keeps_restores (.addCorner i) rfl (by simp) (by simp) (by simp)
  have hfinish : endFacet.Keeps (Restores m) :=
    keeps_restores .endFacet rfl (by simp) (by simp) (by simp)
  exact hbegin.bind fun _ => (Action.Keeps.forM hcorner corners).bind fun _ => hfinish

/-! ## Adding to a surface -/

section Adding

variable {m' : Mesh} {s : OpenSurface} {p : Point} {id : ℕ} {indices : List ℕ}

/-- A vertex is added to an open surface if the mesh takes it. -/
theorem addVertex_apply (s : OpenSurface) {v : Vertex} (h : Mesh.addVertex p id m = (.ok v, m')) :
    addVertex p id ⟨m, some s⟩ = (.ok v, ⟨m', some s⟩) := by
  simp [addVertex, EditorCall.onMesh_apply, h]

/-- An index that names a live vertex is in range. -/
theorem addCorner_apply {index : ℕ} (f : OpenFacet) (hlive : m.links.isLiveVertex (s.vertexAt index) = true) :
    addCorner index ⟨m, some { s with facet := some f }⟩ =
      (.ok (), ⟨m, some { s with facet := some { f with corners := f.corners ++ [s.vertexAt index] } }⟩) := by
  have hslot : (s.vertexAt index).slot < m.vertexCount := Connectivity.slot_lt_of_isLiveVertex hlive
  unfold addCorner addressable
  -- In relative mode the range is what the surface has added, so the vertex has to be behind its first one.
  cases hmode : s.mode with
  | relative =>
    rw [OpenSurface.vertexAt_of_relative hmode] at hlive hslot ⊢
    have hcount : ¬m.vertexCount - s.firstVertex ≤ index := by
      change s.firstVertex + index < m.vertexCount at hslot
      omega
    simp [hlive, hcount]
  | absolute =>
    rw [OpenSurface.vertexAt_of_absolute hmode] at hlive hslot ⊢
    have hcount : ¬m.vertexCount ≤ index := Nat.not_le.2 hslot
    simp [hlive, hcount]

/-- The open facet gets the vertices that the indices name. -/
theorem addCorners_apply (f : OpenFacet) (hlive : ∀ i ∈ indices, m.links.isLiveVertex (s.vertexAt i) = true) :
    indices.forM addCorner ⟨m, some { s with facet := some f }⟩ =
      (.ok (), ⟨m, some { s with
        facet := some { f with corners := f.corners ++ indices.map s.vertexAt } }⟩) := by
  -- The corners of the open facet grow, so the induction is on any open facet.
  induction indices generalizing f with
  | nil =>
    rw [List.map_nil, List.append_nil]
    rfl
  | cons i rest ih =>
    calc (i :: rest).forM addCorner ⟨m, some { s with facet := some f }⟩
        = rest.forM addCorner
            ⟨m, some { s with facet := some { f with corners := f.corners ++ [s.vertexAt i] } }⟩ :=
          Action.bind_apply_of_ok (addCorner_apply f (hlive i List.mem_cons_self)) _
      _ = (.ok (), ⟨m, some { s with
            facet := some { f with corners := f.corners ++ [s.vertexAt i] ++ rest.map s.vertexAt } }⟩) :=
          ih _ fun j hj => hlive j (List.mem_cons_of_mem i hj)
      _ = _ := by rw [List.append_assoc, List.singleton_append, List.map_cons]

/-- A facet on live vertices is added to the mesh of an open surface, unless its id is taken. -/
theorem addFacet_apply (hf : s.facet = none) (hlive : ∀ i ∈ indices, m.links.isLiveVertex (s.vertexAt i) = true) :
    addFacet indices id ⟨m, some s⟩ =
      if m.facetById.contains id then (.error (.duplicateFacetId id), ⟨m, some s⟩)
      else ((Mesh.addFacet (indices.map s.vertexAt) id m).1,
        ⟨(Mesh.addFacet (indices.map s.vertexAt) id m).2, some s⟩) := by
  have hclose : { s with facet := none } = s := by rw [← hf]
  cases hid : m.facetById.contains id with
  | true =>
    -- The facet is refused before it gets corners.
    have hbegin : beginFacet id ⟨m, some s⟩ = (.error (.duplicateFacetId id), ⟨m, some s⟩) := by
      rw [Std.TreeMap.contains_eq_isSome_getElem?] at hid
      simp [beginFacet, Mesh.findFacet?, hf, hid]
    exact Action.bind_apply_of_error hbegin _
  | false =>
    have hbegin : beginFacet id ⟨m, some s⟩ = (.ok (), ⟨m, some { s with facet := some { id } }⟩) := by
      rw [contains_eq_false_iff] at hid
      simp [beginFacet, Mesh.findFacet?, hf, hid]
    have hall : addFacet indices id ⟨m, some s⟩ =
        endFacet ⟨m, some { s with facet := some ⟨id, indices.map s.vertexAt⟩ }⟩ :=
      (Action.bind_apply_of_ok hbegin _).trans (Action.bind_apply_of_ok (addCorners_apply { id } hlive) _)
    rw [hall]
    simp only [endFacet, EditorCall.onMesh_apply, hclose]
    rfl

/-- With three corners at least, a facet is added as the mesh adds it. -/
theorem addFacet_apply_of_three (hf : s.facet = none)
    (hlive : ∀ i ∈ indices, m.links.isLiveVertex (s.vertexAt i) = true) (hthree : 3 ≤ indices.length) (id : ℕ) :
    addFacet indices id ⟨m, some s⟩ = ((Mesh.addFacet (indices.map s.vertexAt) id m).1,
      ⟨(Mesh.addFacet (indices.map s.vertexAt) id m).2, some s⟩) := by
  rw [addFacet_apply hf hlive]
  cases hid : m.facetById.contains id with
  | true => simp [Mesh.addFacet, hid, Nat.not_lt.2 hthree]
  | false => rfl

/-- While another facet is open, none is added. -/
theorem addFacet_of_facet (hf : s.facet.isSome = true) :
    addFacet indices id ⟨m, some s⟩ = (.error .facetAlreadyOpen, ⟨m, some s⟩) := by
  have hbegin : beginFacet id ⟨m, some s⟩ = (.error .facetAlreadyOpen, ⟨m, some s⟩) := by
    simp [beginFacet, hf]
  exact Action.bind_apply_of_error hbegin _

end Adding

/-! ## Surfaces of their own -/

section Own

variable {m' : Mesh} {mode : Indexing} {work : Action Failure Editor Unit}

/-- If the work succeeds and leaves no facet open and none erased, what it has done stays. -/
theorem inSurface_of_ok (hwork : work (opened mode m) = (.ok (), ed)) {s : OpenSurface} (hs : ed.surface = some s)
    (hfacet : s.facet = none) (herased : s.erased = false) :
    inSurface mode work m = (.ok (), ed.mesh) := by
  have hbegin : (beginSurface mode).renameFailure .build { mesh := m } =
      ((.ok (), opened mode m) : Except Failure Unit × Editor) := rfl
  -- Nothing was erased, so that ending the surface does not compact the mesh.
  have hend : endSurface.renameFailure .build ed = ((.ok (), { mesh := ed.mesh }) : Except Failure Unit × Editor) := by
    rw [Action.renameFailure_apply]
    simp [endSurface, hs, hfacet, herased, Except.mapError]
  unfold inSurface
  simp only [Action.bind_apply_of_ok hbegin]
  rw [Action.bind_apply, Action.tryCatch_apply, hwork]
  simp only [hend]

/-- If the work fails, the mesh is what the open surface restores. -/
theorem inSurface_of_error {e : Failure} (hwork : work (opened mode m) = (.error e, ed)) (hed : ed.Restores m') :
    inSurface mode work m = (.error e, m') := by
  obtain ⟨s, hs, rfl⟩ := hed
  have hbegin : (beginSurface mode).renameFailure .build { mesh := m } =
      ((.ok (), opened mode m) : Except Failure Unit × Editor) := rfl
  -- The surface is still open, so it can be given up.
  have hback : rollback.renameFailure .build ed =
      ((.ok (), { mesh := s.snapshot }) : Except Failure Unit × Editor) := by
    rw [Action.renameFailure_apply]
    simp [rollback, hs, Except.mapError]
  unfold inSurface
  simp only [Action.bind_apply_of_ok hbegin]
  rw [Action.bind_apply, Action.tryCatch_apply, hwork]
  simp only [Action.bind_apply_of_ok hback, Action.throw_apply]

end Own

end Editor

end RegionMesh
