import RegionMesh.Proofs.Connectivity.Added
import RegionMesh.Proofs.Editor.Steps

/-!
# Calls that fail

A call that fails leaves an editor as it found it, apart from the open facet, which is dropped when it does not fit
(`failed_call_changes_nothing`). This rests on the links: a facet that is refused leaves them as they are
(`Connectivity.addFacet_eq_error`), although the vertices at its corners are changed before the last of its edges can
be refused.
-/

namespace RegionMesh

namespace Editor

/-- The editor without its open facet. -/
def dropFacet (ed : Editor) : Editor :=
  { ed with surface := ed.surface.map fun s => { s with facet := none } }

/-- What an editor is after a call that failed. -/
def afterFailure (ed : Editor) : EditorCall → Editor
  | .endFacet => ed.dropFacet
  | _ => ed

variable {ed ed' : Editor} {call : EditorCall} {e : BuildError}

/-- Without an open facet there is nothing to be dropped. -/
theorem dropFacet_eq_self (h : ed.openFacet? = none) : ed.dropFacet = ed := by
  obtain ⟨m, surface⟩ := ed
  cases surface with
  | none => rfl
  | some s =>
    obtain ⟨mode, first, snapshot, facet, erased⟩ := s
    obtain rfl : facet = none := h
    rfl

/-- Calls other than the one that closes a facet change nothing when they fail. -/
theorem Step.eq_of_error (h : ed.Step call (.error e) ed') (hcall : call ≠ .endFacet) : ed' = ed := by
  cases h with
  | refused => rfl
  | dropFacet => exact absurd rfl hcall

end Editor

namespace EditorCall

variable {ed : Editor} {call : EditorCall} {e : BuildError}

/-- A facet that cannot be closed is dropped, and nothing else changes. -/
theorem endFacet_eq_error (h : (endFacet.perform ed).1 = .error e) :
    (endFacet.perform ed).2 = ed.dropFacet := by
  obtain ⟨m, surface⟩ := ed
  simp only [perform, Action.map_apply] at h ⊢
  unfold Editor.endFacet at h ⊢
  cases surface with
  | none => rfl
  | some s =>
    cases hf : s.facet with
    | none =>
      simp only [hf]
      have hopen : Editor.openFacet? ⟨m, some s⟩ = none := hf
      exact (Editor.dropFacet_eq_self hopen).symm
    -- A facet that the mesh refuses leaves the mesh as it was, but it is gone from the surface.
    | some f =>
      simp only [hf, onMesh_apply] at h ⊢
      rcases hadd : Mesh.addFacet f.corners f.id m with ⟨e' | g, m'⟩
      · obtain rfl := Mesh.addFacet_eq_error hadd
        rfl
      · rw [hadd] at h
        cases h

/-- An editor after a call that failed is the one before it, without its open facet if that was to be closed. -/
theorem perform_eq_error (h : (call.perform ed).1 = .error e) :
    (call.perform ed).2 = ed.afterFailure call := by
  have hstep := perform_step call ed
  rw [h] at hstep
  -- Of the steps that fail only the one that drops a facet changes something.
  cases call with
  | endFacet => exact endFacet_eq_error h
  | beginSurface mode => exact hstep.eq_of_error (by simp)
  | addVertex p id => exact hstep.eq_of_error (by simp)
  | beginFacet id => exact hstep.eq_of_error (by simp)
  | addCorner index => exact hstep.eq_of_error (by simp)
  | eraseFacet id => exact hstep.eq_of_error (by simp)
  | endSurface => exact hstep.eq_of_error (by simp)
  | rollback => exact hstep.eq_of_error (by simp)
  | abandon => exact hstep.eq_of_error (by simp)

/-- Construction that fails changes nothing. A facet that is refused leaves the links as they are, along whatever
list of vertices it was to be attached, and a call on an editor that fails leaves its mesh and its open surface, with
what that would restore and the facet that is open. Only a facet that could not be closed is not open any more. -/
theorem failed_call_changes_nothing :
    (∀ (c : Connectivity) (vs : List Vertex) (e : BuildError),
      (Connectivity.addFacet vs c).1 = .error e → (Connectivity.addFacet vs c).2 = c) ∧
    ∀ (ed : Editor) (call : EditorCall) (e : BuildError), (call.perform ed).1 = .error e →
      (call.perform ed).2 = ed.afterFailure call :=
  ⟨fun c vs _ h => Connectivity.addFacet_eq_error (Prod.ext h rfl : Connectivity.addFacet vs c = (_, _)),
    fun _ _ _ => perform_eq_error⟩

/-- A facet that has a corner twice. -/
def repeatedCorner : List EditorCall :=
  [.beginSurface .relative, .addVertex .origin 10, .addVertex .origin 11, .addVertex .origin 12,
    .beginFacet 5, .addCorner 0, .addCorner 1, .addCorner 0]

/-- A facet between sides that bound the same fan is refused, and a facet with a repeated corner is dropped while its
surface stays open. -/
theorem failed_call_repeatedCorner :
    (Connectivity.addFacet ([1, 0, 2].map Vertex.mk) .pinwheel).1 = .error .patchRelinkingFailed ∧
      (Connectivity.addFacet ([1, 0, 2].map Vertex.mk) .pinwheel).2 = .pinwheel ∧
    (endFacet.perform (run repeatedCorner {})).1 = .error (.repeatedCorner 5 ⟨0⟩) ∧
      (endFacet.perform (run repeatedCorner {})).2 = (run repeatedCorner {}).dropFacet ∧
        (run repeatedCorner {}).openFacet?.isSome = true := by
  have hrefused : (Connectivity.addFacet ([1, 0, 2].map Vertex.mk) .pinwheel).1 =
      .error .patchRelinkingFailed := by
    decide +kernel
  have hdropped : (endFacet.perform (run repeatedCorner {})).1 = .error (.repeatedCorner 5 ⟨0⟩) := by
    decide +kernel
  exact ⟨hrefused, failed_call_changes_nothing.1 _ _ _ hrefused, hdropped,
    failed_call_changes_nothing.2 _ endFacet _ hdropped, by decide +kernel⟩

end EditorCall

end RegionMesh
