import RegionMesh.Proofs.Editor.StaleCorners

/-!
# Orderly runs

A run is orderly (`Orderly`) if it erases no facet while another one is open. Then the corners of the open facet
stay live, as nothing else deletes vertices before the facet is closed, and the mesh stays sound
(`Orderly.sound`).
-/

namespace RegionMesh

/-- No facet is erased while a facet is open. -/
def Orderly (calls : List EditorCall) : Prop :=
  ∀ before id, before ++ [.eraseFacet id] <+: calls →
    (EditorCall.run before {}).openFacet? = none

/-- Whether a call erases a facet while another one is open. -/
def EditorCall.erasesMeanwhile (ed : Editor) : EditorCall → Bool
  | .eraseFacet _ => ed.openFacet?.isSome
  | _ => false

/-- A run can be checked for order call by call. -/
theorem orderly_iff {calls : List EditorCall} : Orderly calls ↔
    ∀ i : Fin calls.length, (calls.get i).erasesMeanwhile (EditorCall.run (calls.take i) {}) = false := by
  constructor
  · intro h i
    cases hcall : calls.get i with
    | eraseFacet id =>
      have hnone := h (calls.take i) id (by
        rw [← hcall, List.get_eq_getElem, List.take_append_getElem i.isLt]
        exact List.take_prefix _ _)
      simp [EditorCall.erasesMeanwhile, hnone]
    | _ => rfl
  -- The prefix before a call is as long as the place of the call says.
  · rintro h before id ⟨rest, rfl⟩
    have hcall := h ⟨before.length, by simp⟩
    simpa [EditorCall.erasesMeanwhile] using hcall

instance (calls : List EditorCall) : Decidable (Orderly calls) := decidable_of_iff _ orderly_iff.symm

namespace Editor

variable {ed ed' : Editor} {call : EditorCall} {answer : Except BuildError (Option ℕ)}

/-- An editor is in order if it is sound and the corners of its open facet are live. -/
structure InOrder (ed : Editor) : Prop extends ed.Sound where
  /-- The corners of the open facet are live. -/
  corner_live : ∀ f, ed.openFacet? = some f → ∀ v ∈ f.corners, ed.mesh.links.isLiveVertex v = true

/-- An editor without elements is in order. -/
theorem inOrder_empty : ({} : Editor).InOrder :=
  ⟨sound_empty, fun f hf => by simp [openFacet?] at hf⟩

/-- An editor in order has no corner that is deleted. -/
theorem InOrder.not_hasStaleCorner (hed : ed.InOrder) : ¬ ed.HasStaleCorner := by
  rintro ⟨f, hf, v, hv, hdead⟩
  rw [hed.corner_live f hf v hv] at hdead
  cases hdead

/-- Calls keep an editor in order, if no facet is erased while another one is open. -/
theorem InOrder.step (hed : ed.InOrder) (h : ed.Step call answer ed')
    (horderly : ∀ id, call = .eraseFacet id → ed.openFacet? = none) : ed'.InOrder := by
  refine ⟨hed.toSound.step h fun _ _ => hed.not_hasStaleCorner, ?_⟩
  intro f' hf'
  cases h with
  | refused e => exact hed.corner_live f' hf'
  | beginSurface mode hs => simp [openFacet?] at hf'
  | addVertex p id s v m hs h =>
    -- A new vertex deletes no other one.
    have hkeeps := (hed.mesh.addVertex h).2.2.2
    exact fun w hw => (hkeeps w (hed.corner_live f' hf' w hw)).1
  | beginFacet id s hs hf h =>
    obtain rfl : { id } = f' := by simpa [openFacet?] using hf'
    simp
  | addCorner index s f hs hf h =>
    obtain rfl : { f with corners := f.corners ++ [⟨(ed.addressable s).1 + index⟩] } = f' := by
      simpa [openFacet?] using hf'
    intro w hw
    rcases List.mem_append.1 hw with hw | hw
    · have hopen : ed.openFacet? = some f := by simp [openFacet?, hs, hf]
      exact hed.corner_live f hopen w hw
    · rw [List.mem_singleton.1 hw]
      exact h
  | endFacet s f g m hs hf h => simp [openFacet?] at hf'
  | dropFacet s f e m hs hf h => simp [openFacet?] at hf'
  | eraseFacet id s f hs h =>
    have hnone := horderly id rfl
    simp only [openFacet?, hs, Option.bind_some] at hnone hf'
    rw [hnone] at hf'
    cases hf'
  | endSurface s m hs hf h => simp [openFacet?] at hf'
  | rollback s hs => simp [openFacet?] at hf'
  | abandon => simp [openFacet?] at hf'

end Editor

/-- In an orderly run the editor is in order all the time. -/
theorem Orderly.inOrder {calls : List EditorCall} (h : Orderly calls) :
    ∀ before, before <+: calls → (EditorCall.run before {}).InOrder := by
  refine EditorCall.forall_prefix Editor.inOrder_empty fun before call hprefix hed => ?_
  refine hed.step (EditorCall.run_step before call) fun id hcall => ?_
  subst hcall
  exact h before id hprefix

/-- Two triangles with a common edge, of which the first one is erased again. Its third corner goes with it, and the
vertices with the ids 1 to 4 get the slots 0 to 3. -/
def EditorCall.erasedTriangle : List EditorCall :=
  [.beginSurface .absolute, .addVertex .origin 0, .addVertex .origin 1, .addVertex .origin 2,
    .addVertex .origin 3, .addVertex .origin 4,
    .beginFacet 1, .addCorner 0, .addCorner 1, .addCorner 2, .endFacet,
    .beginFacet 2, .addCorner 2, .addCorner 1, .addCorner 3, .endFacet,
    .eraseFacet 1, .endSurface]

/-- After an orderly run the mesh is sound. -/
theorem Orderly.sound {calls : List EditorCall} (h : Orderly calls) :
    (EditorCall.run calls {}).mesh.Sound :=
  (h.inOrder calls (List.prefix_refl calls)).mesh

end RegionMesh
