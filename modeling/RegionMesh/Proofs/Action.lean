import RegionMesh.Action

/-!
# What actions answer and what they keep

A sequence of actions succeeds if each of them does (`Action.bind_eq_ok`), and fails at the first one that does not
(`Action.bind_eq_error`, `Action.forM_eq_error`). What every action of a sequence keeps, whether it succeeds or fails,
is kept by the whole sequence (`Action.Keeps`).
-/

namespace RegionMesh

namespace Action

variable {ε ε' σ τ α β : Type}

/-- A sequence of two actions succeeds if the first one does, and the second one on what the first one left. -/
theorem bind_eq_ok {x : Action ε σ α} {f : α → Action ε σ β} {s s'' : σ} {b : β} :
    (x >>= f) s = (.ok b, s'') ↔ ∃ a s', x s = (.ok a, s') ∧ f a s' = (.ok b, s'') := by
  rcases hx : x s with ⟨e | a, s'⟩
  · simp [bind_apply_of_error hx]
  · rw [bind_apply_of_ok hx]
    constructor
    · exact fun h => ⟨a, s', rfl, h⟩
    · rintro ⟨_, _, ⟨⟩, h⟩
      exact h

/-- A sequence of two actions fails if the first one does, or the second one on what the first one left. -/
theorem bind_eq_error {x : Action ε σ α} {f : α → Action ε σ β} {s s'' : σ} {e : ε} :
    (x >>= f) s = (.error e, s'') ↔
      x s = (.error e, s'') ∨ ∃ a s', x s = (.ok a, s') ∧ f a s' = (.error e, s'') := by
  rcases hx : x s with ⟨e' | a, s'⟩
  · simp [bind_apply_of_error hx]
  · rw [bind_apply_of_ok hx]
    constructor
    · exact fun h => Or.inr ⟨a, s', rfl, h⟩
    · rintro (h | ⟨_, _, ⟨⟩, h⟩)
      · cases h
      · exact h

/-- An action on the first of two states leaves the second one alone. -/
theorem onFirst_eq_ok {x : Action ε σ α} {s s' : σ} {t t' : τ} {a : α} :
    x.onFirst (s, t) = (.ok a, s', t') ↔ x s = (.ok a, s') ∧ t' = t := by
  rw [onFirst_apply]
  rcases x s with ⟨e | b, s₁⟩
  · simp
  · simp only [Prod.mk.injEq, Except.ok.injEq, and_assoc, eq_comm (a := t)]

/-- An action on the second of two states leaves the first one alone. -/
theorem onSecond_eq_ok {x : Action ε τ α} {s s' : σ} {t t' : τ} {a : α} :
    x.onSecond (s, t) = (.ok a, s', t') ↔ s' = s ∧ x t = (.ok a, t') := by
  rw [onSecond_apply]
  rcases x t with ⟨e | b, t₁⟩
  · simp
  · simp only [Prod.mk.injEq, Except.ok.injEq, eq_comm (a := s)]
    exact and_left_comm

/-- An action that fails on the first of two states leaves the second one alone. -/
theorem onFirst_eq_error {x : Action ε σ α} {s s' : σ} {t t' : τ} {e : ε} :
    x.onFirst (s, t) = (.error e, s', t') ↔ x s = (.error e, s') ∧ t' = t := by
  rw [onFirst_apply]
  rcases x s with ⟨e' | a, s₁⟩
  · simp only [Prod.mk.injEq, Except.error.injEq, and_assoc, eq_comm (a := t)]
  · simp

/-- An action that fails on the second of two states leaves the first one alone. -/
theorem onSecond_eq_error {x : Action ε τ α} {s s' : σ} {t t' : τ} {e : ε} :
    x.onSecond (s, t) = (.error e, s', t') ↔ s' = s ∧ x t = (.error e, t') := by
  rw [onSecond_apply]
  rcases x t with ⟨e' | a, t₁⟩
  · simp only [Prod.mk.injEq, Except.error.injEq, eq_comm (a := s)]
    exact and_left_comm
  · simp

/-- A list of actions goes through its elements in order. -/
theorem forM_cons (f : α → Action ε σ Unit) (a : α) (rest : List α) :
    (a :: rest).forM f = (f a >>= fun _ => rest.forM f) := rfl

/-- A list of actions fails at the first of them that does, in the state that those before it left. -/
theorem forM_eq_error {f : α → Action ε σ Unit} {l : List α} {s s' : σ} {e : ε} :
    l.forM f s = (.error e, s') ↔ ∃ before a after s₁, l = before ++ a :: after ∧
      before.forM f s = (.ok (), s₁) ∧ f a s₁ = (.error e, s') := by
  constructor
  · intro h
    induction l generalizing s with
    | nil => cases h
    | cons a rest ih =>
      rw [forM_cons, bind_eq_error] at h
      -- Either the first action fails, or it is one more of those that succeed before the failure.
      rcases h with ha | ⟨⟨⟩, s₁, ha, hrest⟩
      · exact ⟨[], a, rest, s, rfl, rfl, ha⟩
      · obtain ⟨before, x, after, s₂, rfl, hbefore, hx⟩ := ih hrest
        exact ⟨a :: before, x, after, s₂, rfl, (bind_apply_of_ok ha _).trans hbefore, hx⟩
  · rintro ⟨before, a, after, s₁, rfl, hbefore, ha⟩
    induction before generalizing s with
    | nil =>
      obtain rfl : s = s₁ := (Prod.mk.inj hbefore).2
      exact bind_apply_of_error ha _
    | cons x before ih =>
      obtain ⟨_, s₂, hx, hrest⟩ := bind_eq_ok.1 hbefore
      exact (bind_apply_of_ok hx _).trans (ih hrest)

/-- An action keeps a property of the state, also where it fails. -/
def Keeps (p : σ → Prop) (x : Action ε σ α) : Prop := ∀ s, p s → p (x s).2

section Keeping

variable {p : σ → Prop}

/-- A value keeps every property of the state. -/
theorem keeps_pure (a : α) : Keeps p (pure a : Action ε σ α) := fun _ hs => hs

/-- A failure keeps every property of the state. -/
theorem keeps_throw (e : ε) : Keeps p (throw e : Action ε σ α) := fun _ hs => hs

/-- A sequence keeps what its actions keep. -/
theorem Keeps.bind {x : Action ε σ α} {f : α → Action ε σ β} (hx : x.Keeps p) (hf : ∀ a, (f a).Keeps p) :
    (x >>= f).Keeps p := by
  intro s hs
  have hs' := hx s hs
  rcases h : x s with ⟨e | a, s'⟩ <;> rw [h] at hs'
  · rw [bind_apply_of_error h]
    exact hs'
  · rw [bind_apply_of_ok h]
    exact hf a s' hs'

/-- A loop keeps what its body keeps. -/
theorem Keeps.forM {f : α → Action ε σ Unit} (hf : ∀ a, (f a).Keeps p) (l : List α) : (l.forM f).Keeps p := by
  induction l with
  | nil => exact keeps_pure ()
  | cons a rest ih => exact (hf a).bind fun _ => ih

/-- What is said of the second state does not depend on the first one. -/
theorem keeps_onFirst (x : Action ε τ α) : x.onFirst.Keeps fun st : τ × σ => p st.2 := fun _ hs => hs

/-- An action on the second of two states keeps what it keeps of that state. -/
theorem Keeps.onSecond {x : Action ε σ α} (hx : x.Keeps p) : x.onSecond.Keeps fun st : τ × σ => p st.2 :=
  fun st hs => hx st.2 hs

end Keeping

end Action

end RegionMesh
