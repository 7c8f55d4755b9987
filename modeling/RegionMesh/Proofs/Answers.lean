import Mathlib.Data.List.Basic

/-!
# Answers that may be failures

A sequence of steps each of which may fail gives an answer only if every step does. What the steps answered
is read off the answer of the sequence (`bind_eq_ok`, `guard_eq_ok`, `zip_of_mapM`), and where every step answers, so
does the sequence (`exists_mapM`, `forM_eq_ok`).
-/

namespace RegionMesh

variable {α β ε : Type}

/-- A sequence of two steps answers if the first one answers, and the second one on that answer. -/
theorem bind_eq_ok {x : Except ε α} {f : α → Except ε β} {b : β} :
    (x >>= f) = .ok b ↔ ∃ a, x = .ok a ∧ f a = .ok b := by
  cases x with
  | error e =>
    have hbind : ((.error e : Except ε α) >>= f) = .error e := rfl
    simp [hbind]
  | ok a =>
    have hbind : ((.ok a : Except ε α) >>= f) = f a := rfl
    simp [hbind]

/-- A sequence of two steps fails if the first one fails, or the second one on the answer of the first. -/
theorem bind_eq_error {x : Except ε α} {f : α → Except ε β} {e : ε} :
    (x >>= f) = .error e ↔ x = .error e ∨ ∃ a, x = .ok a ∧ f a = .error e := by
  cases x with
  | error e' =>
    have hbind : ((.error e' : Except ε α) >>= f) = .error e' := rfl
    simp [hbind]
  | ok a =>
    have hbind : ((.ok a : Except ε α) >>= f) = f a := rfl
    simp [hbind]

/-- A step behind a guard answers if the guard lets it and it answers. -/
theorem guard_eq_ok {p : Prop} [Decidable p] {e : ε} {x : Except ε α} {a : α} :
    (if p then .error e else x) = .ok a ↔ ¬ p ∧ x = .ok a := by
  by_cases hp : p <;> simp [hp]

/-- A step behind a guard fails if the guard refuses it or it fails. -/
theorem guard_eq_error {p : Prop} [Decidable p] {e e' : ε} {x : Except ε α} :
    (if p then .error e else x) = .error e' ↔ p ∧ e = e' ∨ ¬ p ∧ x = .error e' := by
  by_cases hp : p <;> simp [hp]

/-- The answers to the elements of a list are one for each element. -/
theorem zip_of_mapM {f : α → Except ε β} {xs : List α} {ys : List β} (h : xs.mapM f = .ok ys) :
    ys.length = xs.length ∧ ∀ x ∈ xs.zip ys, f x.1 = .ok x.2 := by
  induction xs generalizing ys with
  | nil =>
    rw [List.mapM_nil] at h
    obtain rfl : [] = ys := Except.ok.inj h
    exact ⟨rfl, by simp⟩
  | cons a xs ih =>
    rw [List.mapM_cons, bind_eq_ok] at h
    obtain ⟨b, hb, h⟩ := h
    rw [bind_eq_ok] at h
    obtain ⟨bs, hbs, h⟩ := h
    obtain rfl : b :: bs = ys := Except.ok.inj h
    obtain ⟨hlen, hall⟩ := ih hbs
    refine ⟨by simp [hlen], fun x hx => ?_⟩
    rcases List.mem_cons.1 hx with rfl | hx
    · exact hb
    · exact hall x hx

/-- Every element of a list is answered, and every answer is the answer to an element. -/
theorem mem_of_mapM {f : α → Except ε β} {xs : List α} {ys : List β} (h : xs.mapM f = .ok ys) :
    (∀ x ∈ xs, ∃ y ∈ ys, f x = .ok y) ∧ ∀ y ∈ ys, ∃ x ∈ xs, f x = .ok y := by
  obtain ⟨hlen, hall⟩ := zip_of_mapM h
  -- An element and its answer stand in the same place, so membership goes by places in both directions.
  constructor
  · intro x hx
    obtain ⟨i, hi, rfl⟩ := List.mem_iff_getElem.1 hx
    have hi' : i < ys.length := by omega
    have hmem : (xs[i], ys[i]) ∈ xs.zip ys := by
      rw [List.mem_iff_getElem]
      exact ⟨i, by rw [List.length_zip]; omega, by simp⟩
    exact ⟨ys[i], List.getElem_mem hi', hall _ hmem⟩
  · intro y hy
    obtain ⟨i, hi, rfl⟩ := List.mem_iff_getElem.1 hy
    have hi' : i < xs.length := by omega
    have hmem : (xs[i], ys[i]) ∈ xs.zip ys := by
      rw [List.mem_iff_getElem]
      exact ⟨i, by rw [List.length_zip]; omega, by simp⟩
    exact ⟨xs[i], List.getElem_mem hi', hall _ hmem⟩

/-- If every element of a list has an answer, so has the list. -/
theorem exists_mapM {f : α → Except ε β} {xs : List α} (h : ∀ x ∈ xs, ∃ y, f x = .ok y) :
    ∃ ys, xs.mapM f = .ok ys := by
  induction xs with
  | nil => exact ⟨[], rfl⟩
  | cons a xs ih =>
    obtain ⟨b, hb⟩ := h a List.mem_cons_self
    obtain ⟨bs, hbs⟩ := ih fun x hx => h x (List.mem_cons_of_mem a hx)
    refine ⟨b :: bs, ?_⟩
    rw [List.mapM_cons, bind_eq_ok]
    refine ⟨b, hb, ?_⟩
    rw [bind_eq_ok]
    exact ⟨bs, hbs, rfl⟩

/-- Where a list has no answer, one of its elements has failed. -/
theorem exists_of_mapM_eq_error {f : α → Except ε β} {xs : List α} {e : ε} (h : xs.mapM f = .error e) :
    ∃ x ∈ xs, f x = .error e := by
  induction xs with
  | nil => cases h
  | cons a xs ih =>
    rw [List.mapM_cons, bind_eq_error] at h
    rcases h with ha | ⟨b, -, h⟩
    · exact ⟨a, List.mem_cons_self, ha⟩
    · rcases bind_eq_error.1 h with hxs | ⟨_, -, hend⟩
      · obtain ⟨x, hx, he⟩ := ih hxs
        exact ⟨x, List.mem_cons_of_mem a hx, he⟩
      · cases hend

/-- A list of checks succeeds if every check does. -/
theorem forM_eq_ok {f : α → Except ε Unit} {xs : List α} :
    xs.forM f = .ok () ↔ ∀ x ∈ xs, f x = .ok () := by
  induction xs with
  | nil => simp [pure, Except.pure]
  | cons a xs ih =>
    have hcons : (a :: xs).forM f = (f a >>= fun _ => xs.forM f) := rfl
    rw [hcons, bind_eq_ok, List.forall_mem_cons, ← ih]
    constructor
    · rintro ⟨⟨⟩, ha, hxs⟩
      exact ⟨ha, hxs⟩
    · intro h
      exact ⟨(), h⟩

/-- A list of checks fails as the first of them that fails. -/
theorem forM_eq_error {f : α → Except ε Unit} {xs : List α} {e : ε} :
    xs.forM f = .error e ↔
      ∃ before x after, xs = before ++ x :: after ∧ before.forM f = .ok () ∧ f x = .error e := by
  constructor
  · intro h
    induction xs with
    | nil => cases h
    | cons a xs ih =>
      have hcons : (a :: xs).forM f = (f a >>= fun _ => xs.forM f) := rfl
      rw [hcons, bind_eq_error] at h
      -- Either the first check fails, or it passes and the induction finds the failure behind it.
      rcases h with ha | ⟨⟨⟩, ha, hrest⟩
      · exact ⟨[], a, xs, rfl, rfl, ha⟩
      · obtain ⟨before, x, after, rfl, hbefore, hx⟩ := ih hrest
        refine ⟨a :: before, x, after, rfl, ?_, hx⟩
        rw [forM_eq_ok, List.forall_mem_cons]
        exact ⟨ha, forM_eq_ok.1 hbefore⟩
  · rintro ⟨before, x, after, rfl, hbefore, hx⟩
    induction before with
    | nil => exact bind_eq_error.2 (.inl hx)
    | cons a before ih =>
      rw [forM_eq_ok, List.forall_mem_cons] at hbefore
      exact bind_eq_error.2 (.inr ⟨(), hbefore.1, ih (forM_eq_ok.2 hbefore.2)⟩)

/-- A sequence of steps fails as the first of them that fails, in the state that those before it leave. -/
theorem foldlM_eq_error {σ : Type} {f : σ → α → Except ε σ} {l : List α} {s : σ} {e : ε} :
    l.foldlM f s = .error e ↔
      ∃ before x after t, l = before ++ x :: after ∧ before.foldlM f s = .ok t ∧ f t x = .error e := by
  constructor
  · intro h
    induction l generalizing s with
    | nil => cases h
    | cons a rest ih =>
      rw [List.foldlM_cons, bind_eq_error] at h
      rcases h with ha | ⟨t, ha, hrest⟩
      · exact ⟨[], a, rest, s, rfl, rfl, ha⟩
      -- The step that fails is behind, and the first one comes before it.
      · obtain ⟨before, x, after, t', rfl, hbefore, hx⟩ := ih hrest
        refine ⟨a :: before, x, after, t', rfl, ?_, hx⟩
        rw [List.foldlM_cons, bind_eq_ok]
        exact ⟨t, ha, hbefore⟩
  · rintro ⟨before, x, after, t, rfl, hbefore, hx⟩
    rw [List.foldlM_append, bind_eq_error]
    refine .inr ⟨t, hbefore, ?_⟩
    rw [List.foldlM_cons, bind_eq_error]
    exact .inl hx

/-- If a sequence of steps answers, so does each step, in some state. -/
theorem exists_of_foldlM {σ : Type} {f : σ → α → Except ε σ} {l : List α} {s s' : σ}
    (h : l.foldlM f s = .ok s') : ∀ x ∈ l, ∃ t t', f t x = .ok t' := by
  induction l generalizing s with
  | nil => simp
  | cons a rest ih =>
    rw [List.foldlM_cons, bind_eq_ok] at h
    obtain ⟨t, ha, hrest⟩ := h
    exact List.forall_mem_cons.2 ⟨⟨s, t, ha⟩, ih hrest⟩

/-- A sequence of steps that each answer, and keep a property of the state, answers and keeps it. -/
theorem exists_foldlM {σ : Type} {f : σ → α → Except ε σ} {p : σ → Prop} {l : List α}
    (h : ∀ s, ∀ x ∈ l, p s → ∃ s', f s x = .ok s' ∧ p s') {s : σ} (hs : p s) :
    ∃ s', l.foldlM f s = .ok s' ∧ p s' := by
  induction l generalizing s with
  | nil => exact ⟨s, rfl, hs⟩
  | cons a rest ih =>
    obtain ⟨s', ha, hs'⟩ := h s a List.mem_cons_self hs
    obtain ⟨s'', hrest, hs''⟩ := ih (fun t x hx => h t x (List.mem_cons_of_mem a hx)) hs'
    refine ⟨s'', ?_, hs''⟩
    rw [List.foldlM_cons, bind_eq_ok]
    exact ⟨s', ha, hrest⟩

end RegionMesh
