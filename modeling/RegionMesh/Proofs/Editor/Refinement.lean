import RegionMesh.Proofs.Editor.Orderly

/-!
# Editing as work on two maps

Whoever calls an editor can keep a ledger (`Ledger`): the points by vertex id, the corners by facet id, what these
two maps were when the surface was opened, and the corners that were given to the open facet. Every call that
succeeds changes the ledger in a simple way (`Ledger.enter`), and every call that fails leaves it alone.

On orderly runs the mesh shows what the ledger says, after every call (`mesh_shows_ledger`). Which slots the elements
have, how they are linked, which records are deleted and when the storage is compacted does not matter.
-/

namespace RegionMesh

/-! ## Ledgers -/

/-- What is known of a mesh that is being edited. -/
structure Ledger where
  /-- The vertices and the facets. -/
  maps : TwoMaps := .empty
  /-- The vertices and the facets when the surface was opened. -/
  saved : TwoMaps := .empty
  /-- The id of the facet that was opened last, and its corners so far. -/
  draft : ℕ × List ℕ := (0, [])

/-- The id of the vertex that a corner's index names. -/
def Editor.namedId (ed : Editor) (index : ℕ) : ℕ :=
  match ed.surface with
  | some s => ed.mesh.vertexId ⟨(ed.addressable s).1 + index⟩
  | none => 0

namespace Ledger

variable (l : Ledger) (ed : Editor)

/-- Enter a call that succeeds. -/
noncomputable def enter : EditorCall → Ledger
  | .beginSurface _ => { l with saved := l.maps }
  | .addVertex p id => { l with maps := l.maps.addVertex id p }
  | .beginFacet id => { l with draft := (id, []) }
  | .addCorner index => { l with draft := (l.draft.1, l.draft.2 ++ [ed.namedId index]) }
  | .endFacet => { l with maps := l.maps.addFacet l.draft.1 l.draft.2 }
  | .eraseFacet id => { l with maps := l.maps.eraseFacet id }
  | .endSurface => l
  | .rollback => { l with maps := l.saved }
  | .abandon => l

/-- What the ledger says when a call succeeds: ids that are entered are free, ids that are struck out or named
are taken, and a facet has three different vertices at least. -/
def Admits : EditorCall → Prop
  | .addVertex _ id => l.maps.points id = none
  | .beginFacet id => l.maps.corners id = none
  | .addCorner index => l.maps.points (ed.namedId index) ≠ none
  | .endFacet => l.maps.corners l.draft.1 = none ∧ 3 ≤ l.draft.2.length ∧ l.draft.2.Nodup ∧
      ∀ v ∈ l.draft.2, l.maps.points v ≠ none
  | .eraseFacet id => l.maps.corners id ≠ none
  | _ => True

/-- Enter a call with its answer. -/
noncomputable def after (call : EditorCall) : Except BuildError (Option ℕ) → Ledger
  | .ok _ => l.enter ed call
  | .error _ => l

end Ledger

namespace EditorCall

/-- The ledger of a run that starts without elements. -/
noncomputable def ledger (calls : List EditorCall) : Ledger :=
  (calls.foldl (fun x call => ((call.perform x.1).2, x.2.after x.1 call (call.perform x.1).1))
    (({}, {}) : Editor × Ledger)).2

/-- The last call of a run is entered after the others. -/
theorem ledger_concat (calls : List EditorCall) (call : EditorCall) :
    ledger (calls ++ [call]) =
      (ledger calls).after (run calls {}) call (call.perform (run calls {})).1 := by
  -- Along a run the ledger is kept beside the editor.
  have hfst : ∀ calls : List EditorCall,
      (calls.foldl (fun x call => ((call.perform x.1).2, x.2.after x.1 call (call.perform x.1).1))
        (({}, {}) : Editor × Ledger)).1 = run calls {} := by
    intro calls
    induction calls using List.reverseRecOn with
    | nil => rfl
    | append_singleton calls call ih =>
      rw [List.foldl_concat, run_concat, ih]
  unfold ledger
  rw [List.foldl_concat, hfst]

end EditorCall

/-! ## What a mesh shows -/

/-- Read by ids alone, a mesh shows the two maps. -/
structure Mesh.Shows (m : Mesh) (t : TwoMaps) : Prop where
  /-- The live vertices have the ids and the positions of the map of points. -/
  points : ∀ id p, t.points id = some p ↔
    ∃ v, m.links.isLiveVertex v = true ∧ m.vertexId v = id ∧ m.point v = p
  /-- A vertex is found if it is live and has the id. -/
  findVertex? : ∀ id v, m.findVertex? id = some v ↔ m.links.isLiveVertex v = true ∧ m.vertexId v = id
  /-- No vertex is found under an id that is not in the map. -/
  findVertex?_none : ∀ id, m.findVertex? id = none ↔ t.points id = none
  /-- A facet is found if it is live and has the id. -/
  findFacet? : ∀ id f, m.findFacet? id = some f ↔ m.links.isLiveFacet f = true ∧ m.facetId f = id
  /-- No facet is found under an id that is not in the map. -/
  findFacet?_none : ∀ id, m.findFacet? id = none ↔ t.corners id = none
  /-- The ring of a facet closes, and its corners are those of the map, in the same order. -/
  corners : ∀ id f, m.findFacet? id = some f →
    (m.links.ring f).closed = true ∧ t.corners id = some ((m.links.corners f).map m.vertexId)

/-- The map of corners has no entry where no facet is found. -/
theorem Mesh.corners_eq_none_iff {m : Mesh} {id : ℕ} :
    m.maps.corners id = none ↔ m.findFacet? id = none := by
  change (m.facetCorners id).map (·.map m.vertexId) = none ↔ _
  rw [Option.map_eq_none_iff]
  exact Option.map_eq_none_iff

/-- A sound mesh shows its own maps. -/
theorem Mesh.Sound.shows {m : Mesh} (hm : m.Sound) : m.Shows m.maps := by
  refine ⟨fun id p => hm.points_eq_some, fun id v => hm.findVertex?_eq_some, fun id => ?_,
    fun id f => hm.findFacet?_eq_some, fun id => ?_, fun id f hf => ⟨?_, ?_⟩⟩
  · exact Option.map_eq_none_iff.symm
  · exact Mesh.corners_eq_none_iff.symm
  · exact hm.wellFormed.ring_closed (hm.findFacet?_eq_some.1 hf).1
  · simp only [maps, facetCorners, hf, Option.map_some]

/-! ## The ledger along a run -/

/-- A ledger is right about an editor. -/
structure Ledger.Tracks (l : Ledger) (ed : Editor) : Prop where
  /-- The maps are those of the mesh. -/
  maps : l.maps = ed.mesh.maps
  /-- The saved maps are those of the mesh that the open surface would restore. -/
  saved : ∀ s, ed.surface = some s → l.saved = s.snapshot.maps
  /-- The draft lists the corners of the open facet. -/
  draft : ∀ f, ed.openFacet? = some f → l.draft = (f.id, f.corners.map ed.mesh.vertexId)

namespace Ledger

variable {l : Ledger} {ed ed' : Editor} {call : EditorCall} {answer : Except BuildError (Option ℕ)}

/-- Without elements the empty ledger is right. -/
theorem tracks_empty : ({} : Ledger).Tracks {} := by
  refine ⟨?_, fun s hs => (by cases hs), fun f hf => by simp [Editor.openFacet?] at hf⟩
  refine TwoMaps.ext_some (fun id p => ?_) fun id l => ?_
  · simp [TwoMaps.empty, Mesh.maps, Mesh.findVertex?]
  · simp [TwoMaps.empty, Mesh.maps, Mesh.facetCorners, Mesh.findFacet?]

/-- The maps of the ledger follow those of the mesh. -/
theorem Tracks.maps_step (h : l.Tracks ed) (hed : ed.InOrder) (hstep : ed.Step call answer ed') :
    (l.after ed call answer).maps = ed'.mesh.maps := by
  cases hstep with
  | refused e => exact h.maps
  | beginSurface mode hs => exact h.maps
  | addVertex p id s v m hs hadd =>
    calc l.maps.addVertex id p = ed.mesh.maps.addVertex id p := by rw [h.maps]
      _ = m.maps := (hed.mesh.addVertex hadd).2.2.1.symm
  | beginFacet id s hs hf hid => exact h.maps
  | addCorner index s f hs hf hv => exact h.maps
  | endFacet s f g m hs hf hadd =>
    have hopen : ed.openFacet? = some f := by simp [Editor.openFacet?, hs, hf]
    calc l.maps.addFacet l.draft.1 l.draft.2
        = ed.mesh.maps.addFacet f.id (f.corners.map ed.mesh.vertexId) := by rw [h.maps, h.draft f hopen]
      _ = m.maps := (hed.mesh.addFacet (hed.corner_live f hopen) hadd).2.2.1.symm
  | dropFacet s f e m hs hf hadd =>
    obtain rfl := Mesh.addFacet_eq_error hadd
    exact h.maps
  | eraseFacet id s f hs hid =>
    obtain ⟨hf, rfl⟩ := hed.mesh.findFacet?_eq_some.1 hid
    calc l.maps.eraseFacet (ed.mesh.facetId f) = ed.mesh.maps.eraseFacet (ed.mesh.facetId f) := by
          rw [h.maps]
      _ = (ed.mesh.deleteFacet f).maps := (hed.mesh.deleteFacet hf).2.symm
  | endSurface s m hs hf hm =>
    -- A compaction does not show in the maps.
    rcases hm with rfl | rfl
    · exact h.maps
    · calc l.maps = ed.mesh.maps := h.maps
        _ = ed.mesh.compact.maps := hed.mesh.compact.2.symm
  | rollback s hs => exact h.saved s hs
  | abandon => exact h.maps

/-- The saved maps of the ledger follow those of the mesh that the open surface would restore. -/
theorem Tracks.saved_step (h : l.Tracks ed) (hstep : ed.Step call answer ed') {s' : OpenSurface}
    (hs' : ed'.surface = some s') : (l.after ed call answer).saved = s'.snapshot.maps := by
  -- Only the opening of a surface saves something. All other calls leave the snapshot of an open surface alone.
  cases hstep with
  | refused e => exact h.saved s' hs'
  | beginSurface mode hs =>
    obtain rfl := Option.some.inj hs'
    exact h.maps
  | addVertex p id s v m hs hadd => exact h.saved s' hs'
  | beginFacet id s hs hf hid =>
    obtain rfl := Option.some.inj hs'
    exact h.saved s hs
  | addCorner index s f hs hf hv =>
    obtain rfl := Option.some.inj hs'
    exact h.saved s hs
  | endFacet s f g m hs hf hadd =>
    obtain rfl := Option.some.inj hs'
    exact h.saved s hs
  | dropFacet s f e m hs hf hadd =>
    obtain rfl := Option.some.inj hs'
    exact h.saved s hs
  | eraseFacet id s f hs hid =>
    obtain rfl := Option.some.inj hs'
    exact h.saved s hs
  | endSurface s m hs hf hm => cases hs'
  | rollback s hs => cases hs'
  | abandon => cases hs'

/-- The draft of the ledger follows the open facet. -/
theorem Tracks.draft_step (h : l.Tracks ed) (hed : ed.InOrder) (hstep : ed.Step call answer ed')
    (horderly : ∀ id, call = .eraseFacet id → ed.openFacet? = none) {f' : OpenFacet}
    (hf' : ed'.openFacet? = some f') :
    (l.after ed call answer).draft = (f'.id, f'.corners.map ed'.mesh.vertexId) := by
  cases hstep with
  | refused e => exact h.draft f' hf'
  | beginSurface mode hs => simp [Editor.openFacet?] at hf'
  | addVertex p id s v m hs hadd =>
    -- The corners keep their ids.
    have hkeeps : ∀ w ∈ f'.corners, ed.mesh.vertexId w = m.vertexId w :=
      fun w hw => ((hed.mesh.addVertex hadd).2.2.2 w (hed.corner_live f' hf' w hw)).2.symm
    calc l.draft = (f'.id, f'.corners.map ed.mesh.vertexId) := h.draft f' hf'
      _ = (f'.id, f'.corners.map m.vertexId) := by rw [List.map_congr_left hkeeps]
  | beginFacet id s hs hf hid =>
    obtain rfl : { id } = f' := by simpa [Editor.openFacet?] using hf'
    rfl
  | addCorner index s f hs hf hv =>
    obtain rfl : { f with corners := f.corners ++ [⟨(ed.addressable s).1 + index⟩] } = f' := by
      simpa [Editor.openFacet?] using hf'
    have hopen : ed.openFacet? = some f := by simp [Editor.openFacet?, hs, hf]
    simp [after, enter, h.draft f hopen, Editor.namedId, hs]
  | endFacet s f g m hs hf hadd => simp [Editor.openFacet?] at hf'
  | dropFacet s f e m hs hf hadd => simp [Editor.openFacet?] at hf'
  | eraseFacet id s f hs hid =>
    -- No facet is open.
    have hnone := horderly id rfl
    simp only [Editor.openFacet?, hs, Option.bind_some] at hnone hf'
    rw [hnone] at hf'
    cases hf'
  | endSurface s m hs hf hm => simp [Editor.openFacet?] at hf'
  | rollback s hs => simp [Editor.openFacet?] at hf'
  | abandon => simp [Editor.openFacet?] at hf'

/-- The ledger stays right when a call is entered. -/
theorem Tracks.step (h : l.Tracks ed) (hed : ed.InOrder) (hstep : ed.Step call answer ed')
    (horderly : ∀ id, call = .eraseFacet id → ed.openFacet? = none) :
    (l.after ed call answer).Tracks ed' :=
  ⟨h.maps_step hed hstep, fun _ hs' => h.saved_step hstep hs',
    fun _ hf' => h.draft_step hed hstep horderly hf'⟩

/-- A call that succeeds finds the ledger as it should be. -/
theorem Tracks.admits (h : l.Tracks ed) (hed : ed.InOrder) {slot : Option ℕ}
    (hstep : ed.Step call (.ok slot) ed') : l.Admits ed call := by
  cases hstep with
  | beginSurface mode hs => trivial
  | addVertex p id s v m hs hadd =>
    change l.maps.points id = none
    rw [h.maps]
    exact (hed.mesh.addVertex hadd).2.1
  | beginFacet id s hs hf hid =>
    change l.maps.corners id = none
    rw [h.maps, Mesh.corners_eq_none_iff]
    exact hid
  | addCorner index s f hs hf hv =>
    have hid : ed.namedId index = ed.mesh.vertexId ⟨(ed.addressable s).1 + index⟩ := by
      unfold Editor.namedId
      rw [hs]
    change l.maps.points (ed.namedId index) ≠ none
    rw [hid, h.maps, hed.mesh.points_vertexId hv]
    simp
  | endFacet s f g m hs hf hadd =>
    have hopen : ed.openFacet? = some f := by simp [Editor.openFacet?, hs, hf]
    have hlive := hed.corner_live f hopen
    -- What the mesh checks of the corners is what the ledger asks of their ids.
    obtain ⟨hthree, -, hn, -⟩ := Mesh.addFacet_eq_ok.1 hadd
    simp only [Admits, h.maps, h.draft f hopen]
    have hfree : ed.mesh.maps.corners f.id = none :=
      Option.map_eq_none_iff.2 (hed.mesh.addFacet hlive hadd).2.1
    refine ⟨hfree, ?_, hed.mesh.nodup_map_vertexId hlive hn, fun i hi => ?_⟩
    · rw [List.length_map]
      exact hthree
    · obtain ⟨v, hv, rfl⟩ := List.mem_map.1 hi
      rw [hed.mesh.points_vertexId (hlive v hv)]
      simp
  | eraseFacet id s f hs hid =>
    obtain ⟨hf, rfl⟩ := hed.mesh.findFacet?_eq_some.1 hid
    simp [Admits, h.maps, hed.mesh.corners_facetId hf]
  | endSurface s m hs hf hm => trivial
  | rollback s hs => trivial
  | abandon => trivial

end Ledger

namespace EditorCall

variable {calls : List EditorCall}

/-- The ledger of an orderly run is right all the time. -/
theorem tracks_ledger (h : Orderly calls) :
    ∀ before, before <+: calls → (ledger before).Tracks (run before {}) := by
  refine forall_prefix Ledger.tracks_empty fun before call hprefix htracks => ?_
  rw [ledger_concat]
  have hed := h.inOrder before ((List.prefix_append before [call]).trans hprefix)
  refine htracks.step hed (run_step before call) fun id hcall => ?_
  subst hcall
  exact h before id hprefix

/-- After every call of an orderly run the mesh shows what the ledger says, and every call that succeeds finds the
ledger as it should be. -/
theorem mesh_shows_ledger (h : Orderly calls) :
    (∀ before, before <+: calls →
      (run before {}).mesh.Shows (ledger before).maps ∧ (ledger before).maps.Valid) ∧
    ∀ before call slot, before ++ [call] <+: calls →
      (call.perform (run before {})).1 = .ok slot → (ledger before).Admits (run before {}) call := by
  constructor
  · intro before hprefix
    have hmesh := (h.inOrder before hprefix).mesh
    rw [(tracks_ledger h before hprefix).maps]
    exact ⟨hmesh.shows, hmesh.valid⟩
  -- The call is admitted by the ledger before it, and the runs up to it are tracked.
  · intro before call slot hprefix hslot
    have hprefix' := (List.prefix_append before [call]).trans hprefix
    have hstep := run_step before call
    rw [hslot] at hstep
    exact (tracks_ledger h before hprefix').admits (h.inOrder before hprefix') hstep

/-- When a triangle was erased and the storage was compacted, the mesh shows what the ledger says. -/
theorem erasedTriangle_shows_ledger : Orderly erasedTriangle ∧
    (run erasedTriangle {}).mesh.Shows (ledger erasedTriangle).maps := by
  have h : Orderly erasedTriangle := by decide +kernel
  exact ⟨h, ((mesh_shows_ledger h).1 erasedTriangle (List.prefix_refl _)).1⟩

end EditorCall

end RegionMesh
