import Mathlib.Data.List.Iterate
import Mathlib.Data.List.Nodup
import Mathlib.Data.List.Perm.Subperm
import Mathlib.Data.Set.Finite.Basic
import Mathlib.Dynamics.PeriodicPts.Lemmas
import RegionMesh.CyclicList

/-!
# Orbits

A step that is taken again and again from some element comes back to it, or it does not. Where it does,
the elements on the way form an orbit: a list of distinct elements along which the step leads, and from
the last of which it leads to the first (`Orbit`). Orbits are what the walks over the links of a mesh
run through.

An orbit may be written from any of its elements on (`Orbit.rotate`), and backwards if the step can be
undone (`Orbit.reverse`). When the step changes at one or three elements, the new orbit is the old one with
elements put in (`Orbit.insert`), taken out (`Orbit.remove_last`), or with two parts exchanged
(`Orbit.exchange`).
-/

namespace RegionMesh

variable {α β : Type} {step step' : α → α}

/-! ## Stretches -/

/-- A step leads along a list and then to `b`: from every element to the one behind it, and from the last
one to `b`. -/
def Leads (step : α → α) : List α → α → Prop
  | [], _ => True
  | a :: l, b => step a = l.headD b ∧ Leads step l b

/-- No elements lead anywhere. -/
@[simp]
theorem leads_nil (b : α) : Leads step [] b := trivial

/-- The first element leads to the next one, and this one on. -/
@[simp]
theorem leads_cons (a b : α) (l : List α) :
    Leads step (a :: l) b ↔ step a = l.headD b ∧ Leads step l b := Iff.rfl

/-- A step leads along two lists, one behind the other, if it leads along the first one to the second
one, and along the second one. -/
theorem leads_append (k l : List α) (b : α) :
    Leads step (k ++ l) b ↔ Leads step k (l.headD b) ∧ Leads step l b := by
  induction k with
  | nil => simp
  | cons a k ih =>
    have hhead : (k ++ l).headD b = k.headD (l.headD b) := by cases k <;> simp
    rw [List.cons_append, leads_cons, leads_cons, ih, hhead, and_assoc]

/-- A longer list leads on by one more step at its end. -/
theorem leads_concat (l : List α) (a b : α) :
    Leads step (l ++ [a]) b ↔ Leads step l a ∧ step a = b := by
  rw [leads_append]
  simp

/-- Only the values of the step on the list matter. -/
theorem Leads.congr {l : List α} {b : α} (h : Leads step l b) (he : ∀ a ∈ l, step' a = step a) :
    Leads step' l b := by
  induction l with
  | nil => trivial
  | cons a l ih =>
    refine ⟨?_, ih h.2 fun x hx => he x (List.mem_cons_of_mem a hx)⟩
    rw [he a List.mem_cons_self, h.1]

/-- A map that carries one step to another carries its stretches along. -/
theorem Leads.map {step' : β → β} {g : α → β} {l : List α} {b : α} (h : Leads step l b)
    (hg : ∀ a ∈ l, step' (g a) = g (step a)) : Leads step' (l.map g) (g b) := by
  induction l with
  | nil => trivial
  | cons a l ih =>
    refine ⟨?_, ih h.2 fun x hx => hg x (List.mem_cons_of_mem a hx)⟩
    rw [hg a List.mem_cons_self, h.1]
    cases l <;> rfl

/-- The values of the step along a list are the elements behind the first one, and then `b`. -/
theorem Leads.map_step {a b : α} {l : List α} (h : Leads step (a :: l) b) :
    (a :: l).map step = l ++ [b] := by
  induction l generalizing a with
  | nil => simpa using h.1
  | cons x l ih =>
    have hx : step a = x := h.1
    rw [List.map_cons, ih h.2, hx, List.cons_append]

/-- A step that can be undone leads along the list backwards when it is undone. -/
theorem Leads.reverse {back : α → α} {a b : α} {l : List α} (h : Leads step (a :: l) b)
    (hb : ∀ x ∈ a :: l, back (step x) = x) : Leads back (b :: l.reverse) a := by
  induction l generalizing a with
  | nil =>
    have ha : step a = b := h.1
    exact ⟨by simpa [← ha] using hb a (by simp), trivial⟩
  | cons x l ih =>
    have ha : step a = x := h.1
    have hrest := ih h.2 fun y hy => hb y (List.mem_cons_of_mem a hy)
    -- Backwards the first element comes last, and the second one leads to it.
    rw [List.reverse_cons, ← List.cons_append, leads_concat]
    refine ⟨hrest, ?_⟩
    rw [← ha]
    exact hb a List.mem_cons_self

/-- A step leads along a list to `b` if it leads from each element to the one behind it, with `b` behind the
last one. -/
theorem leads_iff_zip {a b : α} {l : List α} :
    Leads step (a :: l) b ↔ ∀ x ∈ (a :: l).zip (l ++ [b]), step x.1 = x.2 := by
  induction l generalizing a with
  | nil => simp
  | cons y l ih =>
    rw [leads_cons, ih, List.headD_cons, List.cons_append, List.zip_cons_cons, List.forall_mem_cons]

/-- What holds of the first element of a stretch and is kept by the step holds of all its elements. -/
theorem Leads.forall_mem {p : α → Prop} {a b : α} {l : List α} (h : Leads step (a :: l) b) (ha : p a)
    (hp : ∀ x ∈ a :: l, p x → p (step x)) : ∀ x ∈ a :: l, p x := by
  induction l generalizing a with
  | nil =>
    intro x hx
    obtain rfl : x = a := by simpa using hx
    exact ha
  | cons y l ih =>
    have hay : step a = y := h.1
    have hy : p y := hay ▸ hp a List.mem_cons_self ha
    have hrest := ih h.2 hy fun x hx => hp x (List.mem_cons_of_mem a hx)
    intro x hx
    rcases List.mem_cons.1 hx with rfl | hx
    · exact ha
    · exact hrest x hx

/-- A step leads from each element of a stretch to the one behind it. -/
theorem Leads.step_append {k l : List α} {x y b : α} (h : Leads step (k ++ x :: y :: l) b) : step x = y :=
  ((leads_append k (x :: y :: l) b).1 h).2.1

/-- Taking a step again and again leads along what is met to where it ends. -/
theorem leads_iterate (step : α → α) (a : α) (n : ℕ) : Leads step (List.iterate step a n) (step^[n] a) := by
  induction n generalizing a with
  | zero => trivial
  | succ n ih =>
    refine ⟨?_, ih (step a)⟩
    cases n <;> rfl

/-! ## Orbits -/

/-- A list of distinct elements that a step runs through, and from the last of which it leads back to the
first one. -/
structure Orbit (step : α → α) (l : List α) : Prop where
  /-- No element is met twice. -/
  nodup : l.Nodup
  /-- The step leads along the list and back to its first element. -/
  leads : ∀ a ∈ l.head?, Leads step l a

namespace Orbit

/-- No elements are an orbit. -/
theorem nil : Orbit step [] := ⟨List.nodup_nil, by simp⟩

/-- An orbit leads back to its first element. -/
theorem leads_head {a : α} {l : List α} (h : Orbit step (a :: l)) : Leads step (a :: l) a :=
  h.leads a (by simp)

/-- The step leads from the first element of an orbit to any other one. -/
theorem leads_to {a b : α} {k l : List α} (h : Orbit step (a :: (k ++ b :: l))) : Leads step (a :: k) b :=
  ((leads_append (a :: k) (b :: l) a).1 h.leads_head).1

/-- The step leads from the last element of an orbit to the first one. -/
theorem step_last {a b : α} {l : List α} (h : Orbit step (a :: l)) (hb : l.getLast? = some b) : step b = a := by
  obtain ⟨k, rfl⟩ := List.getLast?_eq_some_iff.1 hb
  exact ((leads_concat (a :: k) b a).1 h.leads_head).2

/-- The step leads from each element of an orbit to the one behind it. -/
theorem step_append {a b : α} {k l : List α} (h : Orbit step (k ++ a :: b :: l)) : step a = b := by
  cases k with
  | nil => exact h.leads_head.1
  | cons x k => exact Leads.step_append (k := x :: k) h.leads_head

/-- Along an orbit the step leads from every element to its successor in the cyclic list. -/
theorem iff_cyclicPairs {l : List α} :
    Orbit step l ↔ l.Nodup ∧ ∀ x ∈ cyclicPairs l, step x.1 = x.2 := by
  cases l with
  | nil => simp [Orbit.nil, cyclicPairs]
  | cons a l =>
    constructor
    · exact fun h => ⟨h.nodup, leads_iff_zip.1 h.leads_head⟩
    · rintro ⟨hn, hstep⟩
      refine ⟨hn, fun b hb => ?_⟩
      obtain rfl : a = b := by simpa using hb
      exact leads_iff_zip.2 hstep

/-- An orbit may be written from any of its elements on. -/
theorem rotate {k l : List α} (h : Orbit step (k ++ l)) : Orbit step (l ++ k) := by
  refine ⟨List.nodup_append_comm.1 h.nodup, ?_⟩
  -- Where one of the parts is empty, there is nothing to turn.
  cases k with
  | nil => simpa using h.leads
  | cons a k =>
    cases l with
    | nil => simpa using h.leads
    | cons b l =>
      intro x hx
      obtain rfl : b = x := by simpa using hx
      have hl := h.leads a (by simp)
      rw [leads_append] at hl ⊢
      exact ⟨hl.2, hl.1⟩

/-- The orbit of an element can be written from this element on. -/
theorem from_mem {l : List α} (h : Orbit step l) {a : α} (ha : a ∈ l) :
    ∃ r, Orbit step (a :: r) ∧ (a :: r).Perm l := by
  obtain ⟨k, r, rfl⟩ := List.append_of_mem ha
  refine ⟨r ++ k, ?_, ?_⟩
  · simpa using h.rotate
  · have hswap : ((a :: r) ++ k).Perm (k ++ a :: r) := List.perm_append_comm
    simpa using hswap

/-- The orbit of an element can be written so that this element is the last one. -/
theorem to_mem {l : List α} (h : Orbit step l) {a : α} (ha : a ∈ l) :
    ∃ r, Orbit step (r ++ [a]) ∧ (r ++ [a]).Perm l := by
  obtain ⟨r, hr, hp⟩ := h.from_mem ha
  refine ⟨r, ?_, (List.perm_append_singleton a r).trans hp⟩
  exact hr.rotate (k := [a])

/-- An orbit depends on its own steps only. -/
theorem congr {l : List α} (h : Orbit step l) (he : ∀ a ∈ l, step' a = step a) : Orbit step' l :=
  ⟨h.nodup, fun a ha => (h.leads a ha).congr he⟩

/-- A map that carries one step to another, and does not identify elements of an orbit, carries the orbit
along. -/
theorem map {step' : β → β} {g : α → β} {l : List α} (h : Orbit step l)
    (hg : ∀ a ∈ l, step' (g a) = g (step a)) (hi : ∀ a ∈ l, ∀ b ∈ l, g a = g b → a = b) :
    Orbit step' (l.map g) := by
  refine ⟨h.nodup.map_on hi, ?_⟩
  cases l with
  | nil => simp
  | cons a l =>
    intro b hb
    obtain rfl : g a = b := by simpa using hb
    exact h.leads_head.map hg

/-- The values of the step along an orbit are the elements of the orbit. -/
theorem map_perm {l : List α} (h : Orbit step l) : (l.map step).Perm l := by
  cases l with
  | nil => simp
  | cons a l =>
    rw [h.leads_head.map_step]
    exact List.perm_append_singleton a l

/-- A step stays in its orbit. -/
theorem step_mem {l : List α} (h : Orbit step l) {a : α} (ha : a ∈ l) : step a ∈ l :=
  h.map_perm.mem_iff.1 (List.mem_map_of_mem ha)

/-- Every element of an orbit comes behind another one. -/
theorem exists_step_eq {l : List α} (h : Orbit step l) {b : α} (hb : b ∈ l) :
    ∃ a ∈ l, step a = b := by
  simpa using h.map_perm.mem_iff.2 hb

/-- What holds of one element of an orbit and is kept by the step holds of all its elements. -/
theorem forall_mem {p : α → Prop} {l : List α} (h : Orbit step l) {a : α} (ha : a ∈ l) (hpa : p a)
    (hp : ∀ x ∈ l, p x → p (step x)) : ∀ x ∈ l, p x := by
  obtain ⟨r, hr, hperm⟩ := h.from_mem ha
  intro x hx
  exact hr.leads_head.forall_mem hpa (fun y hy => hp y (hperm.mem_iff.1 hy)) x (hperm.mem_iff.2 hx)

/-- Different elements of an orbit have different successors. -/
theorem step_inj {l : List α} (h : Orbit step l) {a b : α} (ha : a ∈ l) (hb : b ∈ l)
    (he : step a = step b) : a = b :=
  List.inj_on_of_nodup_map (h.map_perm.nodup_iff.2 h.nodup) ha hb he

/-- Undoing the step runs through the orbit backwards. -/
theorem reverse {back : α → α} {a : α} {l : List α} (h : Orbit step (a :: l))
    (hb : ∀ x ∈ a :: l, back (step x) = x) : Orbit back (a :: l.reverse) := by
  refine ⟨?_, ?_⟩
  · have hp : (a :: l.reverse).Perm (a :: l) := (List.reverse_perm l).cons a
    exact hp.nodup_iff.2 h.nodup
  · intro x hx
    obtain rfl : a = x := by simpa using hx
    exact h.leads_head.reverse hb

/-- If the step changes at `y` alone, where it now leads along some new elements and then on as before, the
new elements come behind `y`. -/
theorem insert {l m : List α} {y : α} (h : Orbit step (l ++ [y])) (he : ∀ a ∈ l, step' a = step a)
    (hm : Leads step' (y :: m) (step y)) (hn : (l ++ y :: m).Nodup) : Orbit step' (l ++ y :: m) := by
  refine ⟨hn, fun a ha => ?_⟩
  have ha' : a ∈ (l ++ [y]).head? := by cases l <;> simpa using ha
  obtain ⟨hl, hy⟩ := (leads_concat l y a).1 (h.leads a ha')
  rw [leads_append]
  exact ⟨hl.congr he, hy ▸ hm⟩

/-- If the step changes at `y` alone, where it now leads along some new elements and then on as before, there
is an orbit of the old and the new elements. -/
theorem exists_insert {l m : List α} {y : α} (h : Orbit step l) (hy : y ∈ l)
    (he : ∀ a ∈ l, a ≠ y → step' a = step a) (hm : Leads step' (y :: m) (step y)) (hn : m.Nodup)
    (hd : ∀ a ∈ m, a ∉ l) : ∃ l', Orbit step' l' ∧ ∀ a, a ∈ l' ↔ a ∈ l ∨ a ∈ m := by
  -- The orbit is turned so that it ends with `y`, and the new elements come behind.
  obtain ⟨r, hr, hp⟩ := h.to_mem hy
  have hmem : ∀ a, a ∈ r ++ [y] ↔ a ∈ l := fun a => hp.mem_iff
  have hnodup : (r ++ y :: m).Nodup := by
    rw [List.append_cons]
    exact hr.nodup.append hn fun a ha ha' => hd a ha' ((hmem a).1 ha)
  refine ⟨r ++ y :: m, hr.insert ?_ hm hnodup, fun a => ?_⟩
  · intro a ha
    refine he a ((hmem a).1 (by simp [ha])) ?_
    rintro rfl
    exact (List.nodup_append.1 hr.nodup).2.2 a ha a (by simp) rfl
  · rw [← hmem]
    simp [or_assoc]

/-- If the step changes at `y` alone, and now leads past the element `x` that came behind `y`, then `x` has
left the orbit. -/
theorem remove_last {l : List α} {x y : α} (h : Orbit step (l ++ [y, x]))
    (he : ∀ a ∈ l, a ≠ y → step' a = step a) (hy : step' y = step x) : Orbit step' (l ++ [y]) := by
  have hn : (l ++ [y]).Nodup := h.nodup.sublist (by simp)
  refine ⟨hn, fun a ha => ?_⟩
  have ha' : a ∈ (l ++ [y, x]).head? := by cases l <;> simpa using ha
  obtain ⟨hl, hy', hx⟩ : Leads step l y ∧ step y = x ∧ step x = a := by
    simpa [leads_append] using h.leads a ha'
  rw [leads_concat]
  refine ⟨hl.congr fun b hb => he b hb ?_, hy.trans hx⟩
  rintro rfl
  exact (List.nodup_append.1 hn).2.2 b hb b (by simp) rfl

/-- The elements behind which a list without repetitions is cut are different ones. -/
theorem cuts_ne {k l m : List α} {a b c : α} (h : ((k ++ [a]) ++ ((l ++ [b]) ++ (m ++ [c]))).Nodup) :
    a ≠ b ∧ a ≠ c ∧ b ≠ c := by
  simp only [List.nodup_append, List.mem_append, List.mem_singleton] at h
  obtain ⟨-, ⟨-, -, hbc⟩, ha⟩ := h
  exact ⟨ha a (Or.inr rfl) b (Or.inl (Or.inr rfl)), ha a (Or.inr rfl) c (Or.inr (Or.inr rfl)),
    hbc b (Or.inr rfl) c (Or.inr rfl)⟩

/-- If an orbit is cut behind `a`, `b` and `c`, and the step changes there so that each of them leads to the
part behind the next one, then the two parts between the cuts are exchanged. -/
theorem exchange {k l m : List α} {a b c : α}
    (h : Orbit step ((k ++ [a]) ++ ((l ++ [b]) ++ (m ++ [c]))))
    (he : ∀ x ∈ (k ++ [a]) ++ ((l ++ [b]) ++ (m ++ [c])), x ≠ a → x ≠ b → x ≠ c → step' x = step x)
    (ha : step' a = step b) (hb : step' b = step c) (hc : step' c = step a) :
    Orbit step' ((k ++ [a]) ++ ((m ++ [c]) ++ (l ++ [b]))) := by
  have hn : ((k ++ [a]) ++ ((m ++ [c]) ++ (l ++ [b]))).Nodup :=
    (List.perm_append_comm.append_left (k ++ [a])).nodup_iff.1 h.nodup
  -- The elements between the cuts are none of the three, so the step does not change there.
  have hne : ∀ x ∈ k ++ (l ++ m), x ≠ a ∧ x ≠ b ∧ x ≠ c := by
    classical
    have hperm : ((k ++ [a]) ++ ((l ++ [b]) ++ (m ++ [c]))).Perm ((k ++ (l ++ m)) ++ [a, b, c]) := by
      rw [List.perm_iff_count]
      intro x
      simp only [List.count_append, List.count_cons, List.count_nil]
      omega
    have hdisj := (List.nodup_append.1 (hperm.nodup_iff.1 h.nodup)).2.2
    intro x hx
    exact ⟨hdisj x hx a (by simp), hdisj x hx b (by simp), hdisj x hx c (by simp)⟩
  have hsame : ∀ x ∈ k ++ (l ++ m), step' x = step x := by
    intro x hx
    obtain ⟨h₁, h₂, h₃⟩ := hne x hx
    refine he x ?_ h₁ h₂ h₃
    simp only [List.mem_append] at hx ⊢
    tauto
  refine ⟨hn, fun x hx => ?_⟩
  have hx' : x ∈ ((k ++ [a]) ++ ((l ++ [b]) ++ (m ++ [c]))).head? := by cases k <;> simpa using hx
  have hl := h.leads x hx'
  rw [leads_append (k ++ [a]), leads_append (l ++ [b]), leads_concat, leads_concat, leads_concat] at hl
  rw [leads_append (k ++ [a]), leads_append (m ++ [c]), leads_concat, leads_concat, leads_concat]
  obtain ⟨⟨hk, ha'⟩, ⟨hl', hb'⟩, hm, hc'⟩ := hl
  have hkx : Leads step' k a := hk.congr fun y hy => hsame y (by simp [hy])
  have hlx : Leads step' l b := hl'.congr fun y hy => hsame y (by simp [hy])
  have hmx : Leads step' m c := hm.congr fun y hy => hsame y (by simp [hy])
  have hheadl : ((l ++ [b]) ++ (m ++ [c])).headD x = (l ++ [b]).headD x := by cases l <;> rfl
  have hheadm : ((m ++ [c]) ++ (l ++ [b])).headD x = (m ++ [c]).headD x := by cases m <;> rfl
  refine ⟨⟨hkx, ?_⟩, ⟨hmx, ?_⟩, hlx, ?_⟩
  · rw [ha, hb', hheadm]
  · rw [hc, ha', hheadl]
  · rw [hb, hc']

/-- Where a step can be undone and does not leave a finite list, it comes back to every element of it. -/
theorem mem_periodicPts_of_back {back : α → α} {s : List α} (hs : ∀ a ∈ s, step a ∈ s)
    (hb : ∀ a ∈ s, back (step a) = a) {a : α} (ha : a ∈ s) : a ∈ Function.periodicPts step := by
  -- On the list alone the step is injective.
  let onList : { x // x ∈ s } → { x // x ∈ s } := fun x => ⟨step x, hs x x.2⟩
  have hinj : Function.Injective onList := by
    intro x y hxy
    have hval : step x = step y := congrArg Subtype.val hxy
    have hback : (x : α) = y :=
      calc (x : α) = back (step x) := (hb x x.2).symm
        _ = back (step y) := by rw [hval]
        _ = y := hb y y.2
    exact Subtype.ext hback
  have : Finite { x // x ∈ s } := s.finite_toSet.to_subtype
  have hsemi : Function.Semiconj Subtype.val onList step := fun _ => rfl
  exact hsemi.mapsTo_periodicPts (hinj.mem_periodicPts ⟨a, ha⟩)

/-- The step runs from an element to which it comes back through an orbit. -/
theorem exists_of_periodic {a : α} (ha : a ∈ Function.periodicPts step) :
    ∃ r, Orbit step (a :: r) ∧ ∀ b ∈ a :: r, ∃ n, step^[n] a = b := by
  have hpos := Function.minimalPeriod_pos_of_mem_periodicPts ha
  obtain ⟨p, hp⟩ : ∃ p, Function.minimalPeriod step a = p + 1 := ⟨_, (Nat.succ_pred hpos.ne').symm⟩
  -- Up to its least period no element repeats, and then the step is back.
  have hnodup := Function.nodup_periodicOrbit (f := step) (x := a)
  rw [Function.periodicOrbit, Cycle.nodup_coe_iff, List.range_map_iterate, hp] at hnodup
  have hlead := leads_iterate step a (p + 1)
  rw [← hp, Function.iterate_minimalPeriod, hp] at hlead
  refine ⟨List.iterate step (step a) p, ⟨hnodup, fun x hx => ?_⟩, fun b hb => ?_⟩
  · obtain rfl : a = x := Option.some.inj hx
    exact hlead
  · obtain ⟨n, -, rfl⟩ := List.mem_iterate.1 (show b ∈ List.iterate step a (p + 1) from hb)
    exact ⟨n, rfl⟩

/-- Where a step can be undone and does not leave a finite list, every element has an orbit. -/
theorem exists_of_finite {back : α → α} {s : List α} (hs : ∀ a ∈ s, step a ∈ s)
    (hb : ∀ a ∈ s, back (step a) = a) {a : α} (ha : a ∈ s) :
    ∃ r, Orbit step (a :: r) ∧ ∀ b ∈ a :: r, b ∈ s := by
  obtain ⟨r, hr, hreach⟩ := exists_of_periodic (mem_periodicPts_of_back hs hb ha)
  refine ⟨r, hr, fun b hmem => ?_⟩
  obtain ⟨n, rfl⟩ := hreach b hmem
  exact Set.MapsTo.iterate (s := { x | x ∈ s }) hs n ha

end Orbit

end RegionMesh
