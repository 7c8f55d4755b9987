import RegionMesh.Proofs.Sink.Calls

/-!
# Recorded calls

Any sink can be given a record of the calls that it has accepted (`Recorded`). The record changes nothing of what the
sink does: a call succeeds or fails as it does without the record, and is written down if it succeeds
(`Recorded.accept_eq_ok`, `Recorded.accept_eq_error`). So whoever makes calls on a sink can be asked which of them the
sink has accepted.
-/

namespace RegionMesh

/-- A sink with a record of its calls. -/
structure Recorded (σ : Type) where
  /-- The sink. -/
  sink : σ
  /-- The calls that the sink has accepted, in order. -/
  calls : List SinkCall

namespace Recorded

variable {σ : Type} {s s' : Recorded σ} {call : SinkCall} {calls : List SinkCall} {e : Failure}

/-- A sink with an empty record. -/
def start (s : σ) : Recorded σ := ⟨s, []⟩

variable [CellSink σ]

/-- Make a call on the sink, and write it down if it succeeds. -/
def forward (call : SinkCall) : Action Failure (Recorded σ) Unit := fun s =>
  match CellSink.accept call s.sink with
  | (.ok (), sink) => (.ok (), ⟨sink, s.calls ++ [call]⟩)
  | (.error e, sink) => (.error e, { s with sink })

instance : CellSink (Recorded σ) where
  addVertex p id := forward (.vertex p id)
  addCell corners id := forward (.cell corners id)

/-- A call goes to the recorded sink, and is written down if the sink takes it. -/
theorem accept_eq_forward (call : SinkCall) :
    (CellSink.accept call : Action Failure (Recorded σ) Unit) = forward call := by
  cases call <;> rfl

/-- A call that the sink accepts is written down. -/
theorem accept_eq_ok : CellSink.accept call s = (.ok (), s') ↔
    CellSink.accept call s.sink = (.ok (), s'.sink) ∧ s'.calls = s.calls ++ [call] := by
  obtain ⟨sink', calls'⟩ := s'
  rw [accept_eq_forward, forward]
  rcases CellSink.accept call s.sink with ⟨e | ⟨⟩, sink⟩ <;> simp [eq_comm]

/-- A call that the sink refuses is not. -/
theorem accept_eq_error : CellSink.accept call s = (.error e, s') ↔
    CellSink.accept call s.sink = (.error e, s'.sink) ∧ s'.calls = s.calls := by
  obtain ⟨sink', calls'⟩ := s'
  rw [accept_eq_forward, forward]
  rcases CellSink.accept call s.sink with ⟨e' | ⟨⟩, sink⟩
  · simp only [Prod.mk.injEq, Except.error.injEq, Recorded.mk.injEq, and_assoc, eq_comm (a := s.calls)]
  · simp

/-- Calls that the sink accepts are all written down. -/
theorem acceptAll_eq_ok : CellSink.acceptAll calls s = (.ok (), s') ↔
    CellSink.acceptAll calls s.sink = (.ok (), s'.sink) ∧ s'.calls = s.calls ++ calls := by
  unfold CellSink.acceptAll
  induction calls generalizing s with
  | nil =>
    obtain ⟨sink', calls'⟩ := s'
    obtain ⟨sink, calls⟩ := s
    simp [eq_comm]
  | cons call rest ih =>
    rw [Action.forM_cons, Action.forM_cons, Action.bind_eq_ok, Action.bind_eq_ok]
    constructor
    · rintro ⟨⟨⟩, s₁, hcall, hrest⟩
      obtain ⟨hcall, hs₁⟩ := accept_eq_ok.1 hcall
      obtain ⟨hrest, hs'⟩ := ih.1 hrest
      exact ⟨⟨(), s₁.sink, hcall, hrest⟩, by rw [hs', hs₁, List.append_assoc, List.singleton_append]⟩
    -- The record in between is what was recorded before and the first call.
    · rintro ⟨⟨⟨⟩, sink, hcall, hrest⟩, hs'⟩
      refine ⟨(), ⟨sink, s.calls ++ [call]⟩, accept_eq_ok.2 ⟨hcall, rfl⟩, ih.2 ⟨hrest, ?_⟩⟩
      rw [hs', List.append_assoc, List.singleton_append]

/-- Calls that the recorded sink takes are written down in order. -/
theorem acceptAll_of_ok {sink : σ} (h : CellSink.acceptAll calls s.sink = (.ok (), sink)) :
    CellSink.acceptAll calls s = (.ok (), ⟨sink, s.calls ++ calls⟩) := acceptAll_eq_ok.2 ⟨h, rfl⟩

end Recorded

end RegionMesh
