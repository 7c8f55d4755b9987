import RegionMesh.Editor.Basic
import RegionMesh.Sink.Basic

/-!
# Corners by position

A sink for producers that know in which order they add vertices. A cell's corner is named by its position
in the sequence of vertices that the surface has added.

This is `SequentialSink` of the source.
-/

namespace RegionMesh

/-- An editor with a surface in relative mode that takes a grid. -/
structure PositionSink where
  /-- The editor that builds the mesh. -/
  editor : Editor
deriving Inhabited

namespace PositionSink

/-- A sink on an editor, whose surface has to be open in relative mode. -/
def make (ed : Editor) : Except BuildError PositionSink :=
  match ed.mode? with
  | none => .error .surfaceNotOpen
  | some .relative => .ok ⟨ed⟩
  | some .absolute => .error (.wrongIndexingMode .absolute)

/-- Carry out a call on the editor. -/
def onEditor {α : Type} (call : Edit α) : Action Failure PositionSink Unit := fun s =>
  let (answer, editor) := call s.editor
  ((answer.mapError .build).map fun _ => (), { editor })

instance : CellSink PositionSink where
  addVertex p id := onEditor (Editor.addVertex p id)
  addCell corners id := onEditor (Editor.addFacet corners.toList id)

/-- Let a new sink on an editor do some work. -/
def run {α : Type} (work : Action Failure PositionSink α) : Action Failure Editor α := fun ed =>
  match make ed with
  | .error e => (.error (.build e), ed)
  | .ok s =>
    let (answer, s) := work s
    (answer, s.editor)

end PositionSink

end RegionMesh
