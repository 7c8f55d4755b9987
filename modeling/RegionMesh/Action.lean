/-!
# Actions

A call that works on a state, may fail, and says in either case what the state is afterwards. Actions are
put together by `do`: the first failure ends the sequence, and the state is the one that the failing call
left. What each way of putting actions together does at a state is stated beside it (`bind_apply`,
`tryCatch_apply`, …).
-/

namespace RegionMesh

/-- A call on a state `σ` that answers with an `α` or fails with an `ε`. The state after a failing
call is the one that the call left, which need not be the one that it found. -/
def Action (ε σ α : Type) : Type := σ → Except ε α × σ

namespace Action

variable {ε ε' σ τ α β : Type}

instance : Monad (Action ε σ) where
  pure a := fun s => (.ok a, s)
  bind x f := fun s =>
    match x s with
    | (.ok a, s') => f a s'
    | (.error e, s') => (.error e, s')

instance : MonadExcept ε (Action ε σ) where
  throw e := fun s => (.error e, s)
  tryCatch x handler := fun s =>
    match x s with
    | (.ok a, s') => (.ok a, s')
    | (.error e, s') => handler e s'

/-- An action on the first of two states. -/
def onFirst (x : Action ε σ α) : Action ε (σ × τ) α := fun s => ((x s.1).1, (x s.1).2, s.2)

/-- An action on the second of two states. -/
def onSecond (x : Action ε τ α) : Action ε (σ × τ) α := fun s => ((x s.2).1, s.1, (x s.2).2)

/-- The same action with its failures renamed. -/
def renameFailure (f : ε → ε') (x : Action ε σ α) : Action ε' σ α := fun s =>
  ((x s).1.mapError f, (x s).2)

/-- A value leaves the state as it is. -/
@[simp]
theorem pure_apply (a : α) (s : σ) : (pure a : Action ε σ α) s = (.ok a, s) := rfl

/-- A sequence goes on with the answer and the state of its first action, or fails with it. -/
theorem bind_apply (x : Action ε σ α) (f : α → Action ε σ β) (s : σ) :
    (x >>= f) s = match x s with
      | (.ok a, s') => f a s'
      | (.error e, s') => (.error e, s') := rfl

/-- After an action that succeeds, the sequence goes on from the state that it left. -/
theorem bind_apply_of_ok {x : Action ε σ α} {s s' : σ} {a : α} (h : x s = (.ok a, s'))
    (f : α → Action ε σ β) : (x >>= f) s = f a s' := by
  rw [bind_apply, h]

/-- An action that fails ends the sequence. -/
theorem bind_apply_of_error {x : Action ε σ α} {s s' : σ} {e : ε} (h : x s = (.error e, s'))
    (f : α → Action ε σ β) : (x >>= f) s = (.error e, s') := by
  rw [bind_apply, h]

/-- A failure leaves the state as it is. -/
@[simp]
theorem throw_apply (e : ε) (s : σ) : (throw e : Action ε σ α) s = (.error e, s) := rfl

/-- A handler takes over at the state in which the action failed. -/
theorem tryCatch_apply (x : Action ε σ α) (handler : ε → Action ε σ α) (s : σ) :
    (tryCatch x handler) s = match x s with
      | (.ok a, s') => (.ok a, s')
      | (.error e, s') => handler e s' := rfl

/-- An action on the first of two states leaves the second one as it is. -/
theorem onFirst_apply (x : Action ε σ α) (s : σ) (t : τ) :
    x.onFirst (s, t) = ((x s).1, (x s).2, t) := rfl

/-- An action on the second of two states leaves the first one as it is. -/
theorem onSecond_apply (x : Action ε τ α) (s : σ) (t : τ) :
    x.onSecond (s, t) = ((x t).1, s, (x t).2) := rfl

/-- Another name for the failure makes no difference to the state. -/
theorem renameFailure_apply (f : ε → ε') (x : Action ε σ α) (s : σ) :
    x.renameFailure f s = ((x s).1.mapError f, (x s).2) := rfl

instance : LawfulMonad (Action ε σ) :=
  LawfulMonad.mk' (Action ε σ)
    (fun x => by
      funext s
      show (x >>= pure) s = x s
      rw [bind_apply]
      split <;> simp_all)
    (fun _ _ => rfl)
    (fun x f g => by
      funext s
      simp only [bind_apply]
      obtain ⟨answer, s'⟩ := x s
      cases answer <;> rfl)

end Action

end RegionMesh
