import RegionMesh.Editor.Basic

/-!
# Calls on an editor as data

Every call that an editor takes, as a value, so that a run of the editor is a list of calls.
-/

namespace RegionMesh

/-- A call on an editor. -/
inductive EditorCall where
  /-- Open a surface. -/
  | beginSurface (mode : Indexing)
  /-- Add a vertex. -/
  | addVertex (point : Point) (id : Nat)
  /-- Open a facet. -/
  | beginFacet (id : Nat)
  /-- Add a corner to the open facet. -/
  | addCorner (index : Nat)
  /-- Close the open facet. -/
  | endFacet
  /-- Delete a facet. -/
  | eraseFacet (id : Nat)
  /-- End the surface. -/
  | endSurface
  /-- Give the surface up. -/
  | rollback
  /-- Stop editing and start anew on the mesh as it is. -/
  | abandon

namespace EditorCall

/-- Carry out a call. The answer is the slot of the element that it adds, if it adds one. -/
def perform : EditorCall → Edit (Option Nat)
  | beginSurface mode => (fun _ => none) <$> Editor.beginSurface mode
  | addVertex p id => (fun v => some v.slot) <$> Editor.addVertex p id
  | beginFacet id => (fun _ => none) <$> Editor.beginFacet id
  | addCorner index => (fun _ => none) <$> Editor.addCorner index
  | endFacet => (fun f => some f.slot) <$> Editor.endFacet
  | eraseFacet id => (fun _ => none) <$> Editor.eraseFacet id
  | endSurface => (fun _ => none) <$> Editor.endSurface
  | rollback => (fun _ => none) <$> Editor.rollback
  | abandon => fun ed => (.ok none, ed.abandon)

/-- The editor after a list of calls, failing ones included. -/
def run (calls : List EditorCall) (ed : Editor) : Editor :=
  calls.foldl (fun ed call => (call.perform ed).2) ed

end EditorCall

end RegionMesh
