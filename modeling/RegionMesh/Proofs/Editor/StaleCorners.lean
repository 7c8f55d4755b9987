import RegionMesh.Proofs.Connectivity.Rings
import Mathlib.Data.List.TFAE
import RegionMesh.Proofs.Editor.Steps

/-!
# Corners that are deleted while their facet is open

A facet that is open keeps the corners that it was given, and erasing another facet may delete some of them.
If the open facet is accepted all the same, its halfedges point to deleted vertices from then on, and the mesh
fails its check (`Sound.checkLinks_of_stale`). Nothing else goes wrong: all other calls keep the mesh sound
(`Sound.step`), so the checks pass throughout exactly on the runs that never accept such a facet
(`checks_pass_iff_no_stale_corner`).
-/

namespace RegionMesh

namespace Mesh

/-- The links and the facet ids of a mesh pass their checks. -/
def PassesChecks (m : Mesh) : Prop := m.checkLinks = .ok () ∧ m.checkFacetIds = .ok ()

/-- The live halfedges point to live vertices, are linked to live halfedges, and belong to live facets. -/
def LinksLive (m : Mesh) : Prop :=
  ∀ h, m.links.IsLive h → m.links.isLiveVertex (m.links.head h) = true ∧
    m.links.IsLive (m.links.next h) ∧ m.links.IsLive (m.links.prev h) ∧
      ∀ f, m.links.facetOf h = some f → m.links.isLiveFacet f = true

variable {m : Mesh}

/-- A sound mesh passes both checks. -/
theorem Sound.passesChecks (hm : m.Sound) : m.PassesChecks := ⟨hm.checkLinks_eq_ok, hm.checkFacetIds_eq_ok⟩

/-- The links of a sound mesh lead to live elements only. -/
theorem Sound.linksLive (hm : m.Sound) : m.LinksLive := fun _ hh =>
  ⟨hm.wellFormed.head_live hh, (hm.wellFormed.next_live hh).1, (hm.wellFormed.prev_live hh).1,
    fun _ hf => hm.wellFormed.facet_live hh hf⟩

end Mesh

namespace Editor

variable {ed ed' : Editor} {call : EditorCall} {answer : Except BuildError (Option ℕ)}

/-- The mesh of an editor is sound, and so is the one that the open surface would restore. -/
structure Sound (ed : Editor) : Prop where
  /-- The mesh is sound. -/
  mesh : ed.mesh.Sound
  /-- The mesh before the surface is sound. -/
  snapshot : ∀ s, ed.surface = some s → s.snapshot.Sound

/-- Whether a corner of the open facet is deleted. -/
def HasStaleCorner (ed : Editor) : Prop :=
  ∃ f, ed.openFacet? = some f ∧ ∃ v ∈ f.corners, ed.mesh.links.isLiveVertex v = false

/-- Whether a call makes the mesh accept a facet with a deleted corner. -/
def AcceptsStaleCorner (ed : Editor) (call : EditorCall) : Prop :=
  call = .endFacet ∧ (∃ slot, (call.perform ed).1 = .ok slot) ∧ ed.HasStaleCorner

/-- An editor without elements is sound. -/
theorem sound_empty : ({} : Editor).Sound := ⟨Mesh.sound_empty, fun s hs => by cases hs⟩

/-- All calls keep the mesh sound, apart from one that accepts a facet with a deleted corner. -/
theorem Sound.mesh_step (hed : ed.Sound) (h : ed.Step call answer ed')
    (hstale : call = .endFacet → (∃ slot, answer = .ok slot) → ¬ ed.HasStaleCorner) : ed'.mesh.Sound := by
  cases h with
  | refused e => exact hed.mesh
  | beginSurface mode hs => exact hed.mesh
  | addVertex p id s v m hs h => exact (hed.mesh.addVertex h).1
  | beginFacet id s hs hf h => exact hed.mesh
  | addCorner index s f hs hf h => exact hed.mesh
  | endFacet s f g m hs hf h =>
    -- The corners of the open facet are live, as none of them is stale.
    have hlive : ∀ v ∈ f.corners, ed.mesh.links.isLiveVertex v = true := by
      intro v hv
      by_contra hdead
      have hopen : ed.openFacet? = some f := by simp [openFacet?, hs, hf]
      exact hstale rfl ⟨_, rfl⟩ ⟨f, hopen, v, hv, Bool.eq_false_iff.2 hdead⟩
    exact (hed.mesh.addFacet hlive h).1
  | dropFacet s f e m hs hf h =>
    obtain rfl := Mesh.addFacet_eq_error h
    exact hed.mesh
  | eraseFacet id s f hs h =>
    have hf := (hed.mesh.findFacet?_eq_some.1 h).1
    exact (hed.mesh.deleteFacet hf).1
  | endSurface s m hs hf h =>
    rcases h with rfl | rfl
    · exact hed.mesh
    · exact hed.mesh.compact.1
  | rollback s hs => exact hed.snapshot s hs
  | abandon => exact hed.mesh

/-- All calls keep an editor sound, apart from one that accepts a facet with a deleted corner. -/
theorem Sound.step (hed : ed.Sound) (h : ed.Step call answer ed')
    (hstale : call = .endFacet → (∃ slot, answer = .ok slot) → ¬ ed.HasStaleCorner) : ed'.Sound := by
  refine ⟨hed.mesh_step h hstale, fun s' hs' => ?_⟩
  rcases h.snapshot hs' with he | ⟨s, hs, he⟩
  · rw [he]
    exact hed.mesh
  · rw [he]
    exact hed.snapshot s hs

/-- After a facet with a deleted corner was accepted, the links fail their check. -/
theorem Sound.checkLinks_of_stale (hed : ed.Sound) {slot : Option ℕ}
    (h : ed.Step .endFacet (.ok slot) ed') (hstale : ed.HasStaleCorner) : ed'.mesh.checkLinks ≠ .ok () := by
  obtain ⟨f, hopen, v, hv, hdead⟩ := hstale
  cases h with
  | endFacet s f' g m hs hf h =>
    obtain rfl : f' = f := by simpa [openFacet?, hs, hf] using hopen
    obtain ⟨-, -, -, links, hadd, rfl⟩ := Mesh.addFacet_eq_ok.1 h
    have hdead' : ed.mesh.links.isLiveVertex v ≠ true := by simp [hdead]
    -- A live side of the new facet points to the deleted corner, which the check of the links looks at.
    obtain ⟨k, hk, hhead⟩ :=
      Connectivity.exists_dead_head hed.mesh.wellFormed hed.mesh.simple hv hdead' hadd
    exact fun hcheck => hhead (Connectivity.head_live_of_check hcheck hk)

end Editor

namespace EditorCall

variable {calls : List EditorCall}

/-- A run goes from one editor to the next by steps. -/
theorem run_step (before : List EditorCall) (call : EditorCall) :
    (run before {}).Step call (call.perform (run before {})).1 (run (before ++ [call]) {}) := by
  rw [run_concat]
  exact perform_step call _

/-- A run that never accepts a deleted corner keeps its editor sound. -/
theorem sound_of_no_stale_corner
    (h : ∀ before call, before ++ [call] <+: calls → ¬ (run before {}).AcceptsStaleCorner call) :
    ∀ before, before <+: calls → (run before {}).Sound := by
  refine forall_prefix Editor.sound_empty fun before call hprefix hed => ?_
  exact hed.step (run_step before call) fun hcall hok hstale => h before call hprefix ⟨hcall, hok, hstale⟩

/-- A sound editor that accepts a deleted corner fails the checks afterwards. -/
theorem not_passesChecks_of_stale {before : List EditorCall} {call : EditorCall}
    (hed : (run before {}).Sound) (h : (run before {}).AcceptsStaleCorner call) :
    ¬ (run (before ++ [call]) {}).mesh.PassesChecks := by
  obtain ⟨rfl, ⟨slot, hslot⟩, hstale⟩ := h
  have hstep := run_step before .endFacet
  rw [hslot] at hstep
  exact fun hpass => hed.checkLinks_of_stale hstep hstale hpass.1

/-- The checks pass after every call of a run exactly if the run never accepts a facet with a corner that was
deleted after it had been given. Then no live halfedge is ever linked to a deleted element. -/
theorem checks_pass_iff_no_stale_corner (calls : List EditorCall) :
    [∀ before, before <+: calls → (run before {}).mesh.PassesChecks,
      ∀ before, before <+: calls → (run before {}).mesh.PassesChecks ∧ (run before {}).mesh.LinksLive,
      ∀ before call, before ++ [call] <+: calls → ¬ (run before {}).AcceptsStaleCorner call].TFAE := by
  tfae_have 1 → 3 := by
    intro hpass
    -- As long as the checks pass the editor stays sound, since a stale corner would make them fail.
    have hsound : ∀ before, before <+: calls → (run before {}).Sound := by
      refine forall_prefix Editor.sound_empty fun before call hprefix hed => ?_
      refine hed.step (run_step before call) fun hcall hok hstale => ?_
      exact not_passesChecks_of_stale hed ⟨hcall, hok, hstale⟩ (hpass _ hprefix)
    intro before call hprefix hstale
    have hed := hsound before ((List.prefix_append before [call]).trans hprefix)
    exact not_passesChecks_of_stale hed hstale (hpass _ hprefix)
  tfae_have 3 → 2 := by
    intro hfresh before hprefix
    have hmesh := (sound_of_no_stale_corner hfresh before hprefix).mesh
    exact ⟨hmesh.passesChecks, hmesh.linksLive⟩
  tfae_have 2 → 1 := fun hpass before hprefix => (hpass before hprefix).1
  tfae_finish

/-- Two facets on the same corners. The first one is erased, and its corners with it, when the second one has
been given them. -/
def erasedMeanwhile : List EditorCall :=
  [.beginSurface .absolute, .addVertex .origin 0, .addVertex .origin 1, .addVertex .origin 2,
    .beginFacet 1, .addCorner 0, .addCorner 1, .addCorner 2, .endFacet,
    .beginFacet 2, .addCorner 2, .addCorner 1, .addCorner 0, .eraseFacet 1, .endFacet]

/-- The second facet is accepted, and its halfedges point to deleted vertices. -/
theorem checkLinks_erasedMeanwhile : (run erasedMeanwhile {}).mesh.checkLinks =
    .error (.invalidHalfedgeLink ⟨⟨3⟩, false⟩) := by
  decide +kernel

end EditorCall

end RegionMesh
