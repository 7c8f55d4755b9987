import Mathlib.Data.Nat.Notation
import RegionMesh.Proofs.Action
import RegionMesh.Sink.Basic

/-!
# What calls on a sink report

The calls on a sink report samples and cells, apart from each other in the order in which they are made. Calls are
made one after another, and another one can be made where all before it have succeeded (`CellSink.acceptAll_concat`).
Whoever makes them may also go on where one fails (`CellSink.tryAll`). A sink that writes its calls down (`CallLog`)
takes them all.
-/

namespace RegionMesh

/-- The sample that a call reports, by id. -/
def SinkCall.sample? : SinkCall → Option (ℕ × Point)
  | .vertex p id => some (id, p)
  | .cell _ _ => none

/-- The cell that a call reports, by id, with its corners as the call names them. -/
def SinkCall.cell? : SinkCall → Option (ℕ × List ℕ)
  | .vertex _ _ => none
  | .cell corners id => some (id, corners.toList)

/-- After calls that have all succeeded, another one is made. -/
theorem CellSink.acceptAll_concat {σ : Type} [CellSink σ] {calls : List SinkCall} {call : SinkCall} {s s' s'' : σ}
    (h : CellSink.acceptAll calls s = (.ok (), s')) (hcall : CellSink.accept call s' = (.ok (), s'')) :
    CellSink.acceptAll (calls ++ [call]) s = (.ok (), s'') := by
  induction calls generalizing s with
  | nil =>
    obtain rfl : s = s' := (Prod.mk.inj h).2
    exact Action.bind_apply_of_ok hcall _
  | cons first rest ih =>
    obtain ⟨_, s₁, hfirst, hrest⟩ := Action.bind_eq_ok.1 h
    exact (Action.bind_apply_of_ok hfirst _).trans (ih hrest)

namespace CellSink

variable {σ : Type} [CellSink σ]

/-- Make calls on a sink one after another, and go on where one fails. There is an answer to each of them. -/
def tryAll : List SinkCall → σ → List (Except Failure Unit) × σ
  | [], s => ([], s)
  | call :: rest, s =>
    let (answer, s) := accept call s
    let (answers, s) := tryAll rest s
    (answer :: answers, s)

/-- The calls behind the first one are tried on what it leaves, whether or not it was taken. -/
theorem tryAll_cons (call : SinkCall) (rest : List SinkCall) (s : σ) : tryAll (call :: rest) s =
    ((accept call s).1 :: (tryAll rest (accept call s).2).1, (tryAll rest (accept call s).2).2) := rfl

/-- What every call keeps, calls keep among which some may fail. -/
theorem keeps_tryAll {p : σ → Prop} (h : ∀ call, (accept call : Action Failure σ Unit).Keeps p)
    (calls : List SinkCall) {s : σ} (hs : p s) : p (tryAll calls s).2 := by
  induction calls generalizing s with
  | nil => exact hs
  | cons call rest ih => exact ih (h call s hs)

end CellSink

/-- A sink that writes its calls down. -/
structure CallLog where
  /-- The calls in the order in which they were made. -/
  calls : List SinkCall := []

instance : CellSink CallLog where
  addVertex p id log := (.ok (), ⟨log.calls ++ [.vertex p id]⟩)
  addCell corners id log := (.ok (), ⟨log.calls ++ [.cell corners id]⟩)

namespace CallLog

/-- The ids of the cells that were reported, in order. -/
def cellIds (log : CallLog) : List ℕ := (log.calls.filterMap SinkCall.cell?).map Prod.fst

/-- All calls are written down. -/
theorem acceptAll_eq (calls : List SinkCall) (log : CallLog) :
    CellSink.acceptAll calls log = (.ok (), ⟨log.calls ++ calls⟩) := by
  induction calls generalizing log with
  | nil => simp [CellSink.acceptAll]
  | cons call rest ih =>
    have hcall : CellSink.accept call log = (.ok (), ⟨log.calls ++ [call]⟩) := by cases call <;> rfl
    have hrest := ih ⟨log.calls ++ [call]⟩
    rw [List.append_assoc, List.singleton_append] at hrest
    exact (Action.bind_apply_of_ok hcall _).trans hrest

end CallLog

end RegionMesh
