import Mathlib.Data.List.Nodup
import RegionMesh.CyclicList

/-!
# Neighbours in cyclic lists

The corners of a facet are a cyclic list, and so are its sides: between each corner and its successor there is
one side, and between each side and its successor one corner. With a list of corners and a list of sides of
one length, `(cyclicPairs corners).zip sides` lists the sides with their two ends, and
`(successors corners).zip (cyclicPairs sides)` the corners with the two sides that meet there. Read backwards, a
cyclic list has its pairs turned round (`mem_cyclicPairs_reverse`).
-/

namespace RegionMesh

variable {α β : Type}

/-- The successor of an element is the next one, and behind the last one the first. -/
theorem getElem_successors (l : List α) {i j : ℕ} (hi : i < (successors l).length) (hj : j < l.length)
    (hij : (i + 1) % l.length = j) : (successors l)[i] = l[j] := by
  subst hij
  cases l with
  | nil => simp [successors] at hi
  | cons a l =>
    rw [length_successors, List.length_cons] at hi
    -- Only the last element is followed by the first one.
    rcases Nat.lt_or_ge i l.length with hlt | hge
    · have hmod : (i + 1) % (l.length + 1) = i + 1 := Nat.mod_eq_of_lt (by omega)
      simp [successors, List.getElem_append_left hlt, hmod]
    · obtain rfl : i = l.length := by omega
      simp [successors]

/-- The elements of a list, each in the place of its predecessor, are the same elements. -/
theorem successors_perm (l : List α) : (successors l).Perm l := by
  cases l with
  | nil => exact List.Perm.refl _
  | cons a l => exact List.perm_append_singleton a l

/-- Successors are taken elementwise. -/
theorem successors_map (f : α → β) (l : List α) : successors (l.map f) = (successors l).map f := by
  cases l <;> simp [successors]

/-- Pairs are taken elementwise. -/
theorem cyclicPairs_map (f : α → β) (l : List α) :
    cyclicPairs (l.map f) = (cyclicPairs l).map (Prod.map f f) := by
  rw [cyclicPairs, cyclicPairs, successors_map, List.zip_map]

/-! ## Places -/

/-- Every place of a cyclic list comes behind another one. -/
theorem exists_succ_mod {j k : ℕ} (hj : j < k) : ∃ i < k, (i + 1) % k = j := by
  rcases Nat.eq_zero_or_pos j with rfl | hpos
  · exact ⟨k - 1, by omega, by rw [Nat.sub_add_cancel (by omega), Nat.mod_self]⟩
  · exact ⟨j - 1, by omega, by rw [Nat.sub_add_cancel hpos, Nat.mod_eq_of_lt hj]⟩

/-- Different places of a cyclic list come before different ones. -/
theorem succ_mod_inj {i j k : ℕ} (hi : i < k) (hj : j < k) (h : (i + 1) % k = (j + 1) % k) : i = j := by
  rcases Nat.lt_or_ge (i + 1) k with hi' | hi' <;> rcases Nat.lt_or_ge (j + 1) k with hj' | hj'
  · rw [Nat.mod_eq_of_lt hi', Nat.mod_eq_of_lt hj'] at h
    omega
  · rw [Nat.mod_eq_of_lt hi', show j + 1 = k by omega, Nat.mod_self] at h
    omega
  · rw [Nat.mod_eq_of_lt hj', show i + 1 = k by omega, Nat.mod_self] at h
    omega
  · omega

/-- A pair is an element and the next one, counted in a circle. -/
theorem mem_cyclicPairs {l : List α} {x : α × α} :
    x ∈ cyclicPairs l ↔ ∃ (i j : ℕ) (hi : i < l.length) (hj : j < l.length),
      (i + 1) % l.length = j ∧ x = (l[i], l[j]) := by
  rw [List.mem_iff_getElem]
  constructor
  · rintro ⟨i, hi, rfl⟩
    rw [length_cyclicPairs] at hi
    have hj : (i + 1) % l.length < l.length := Nat.mod_lt _ (by omega)
    refine ⟨i, _, hi, hj, rfl, ?_⟩
    simp [cyclicPairs, List.getElem_zip, getElem_successors l (by simpa using hi) hj rfl]
  · rintro ⟨i, j, hi, hj, hij, rfl⟩
    refine ⟨i, by simpa using hi, ?_⟩
    simp [cyclicPairs, List.getElem_zip, getElem_successors l (by simpa using hi) hj hij]

/-- Both parts of a pair are elements of the list. -/
theorem mem_of_mem_cyclicPairs {l : List α} {x : α × α} (hx : x ∈ cyclicPairs l) :
    x.1 ∈ l ∧ x.2 ∈ l := by
  obtain ⟨i, j, hi, hj, -, rfl⟩ := mem_cyclicPairs.1 hx
  exact ⟨List.getElem_mem hi, List.getElem_mem hj⟩

/-- The pairs of a list read backwards are its pairs turned round. -/
theorem mem_cyclicPairs_reverse {l : List α} {x : α × α} :
    x ∈ cyclicPairs l.reverse ↔ x.swap ∈ cyclicPairs l := by
  -- One direction is enough, as a list read backwards twice is the list again.
  have hturn : ∀ {l : List α} {x}, x ∈ cyclicPairs l → x.swap ∈ cyclicPairs l.reverse := by
    intro l x hx
    obtain ⟨i, j, hi, hj, hij, rfl⟩ := mem_cyclicPairs.1 hx
    have hi' : l.length - 1 - i < l.reverse.length := by
      rw [List.length_reverse]
      omega
    have hj' : l.length - 1 - j < l.reverse.length := by
      rw [List.length_reverse]
      omega
    refine mem_cyclicPairs.2 ⟨l.length - 1 - j, l.length - 1 - i, hj', hi', ?_, ?_⟩
    · rw [List.length_reverse]
      rcases Nat.lt_or_ge (i + 1) l.length with hlt | hge
      · rw [Nat.mod_eq_of_lt hlt] at hij
        rw [Nat.mod_eq_of_lt (by omega)]
        omega
      · obtain rfl : j = 0 := by rw [← hij, show i + 1 = l.length by omega, Nat.mod_self]
        rw [show l.length - 1 - 0 + 1 = l.length by omega, Nat.mod_self]
        omega
    · rw [List.getElem_reverse, List.getElem_reverse]
      simp only [Prod.swap_prod_mk, Prod.mk.injEq]
      constructor <;> congr 1 <;> omega
  constructor
  · intro hx
    have hback := hturn hx
    rwa [List.reverse_reverse] at hback
  · exact fun hx => hturn hx

/-- An element of a list without repetitions has one predecessor. -/
theorem pair_ext_right {l : List α} (hl : l.Nodup) {a a' b : α} (h : (a, b) ∈ cyclicPairs l)
    (h' : (a', b) ∈ cyclicPairs l) : a = a' := by
  obtain ⟨i, j, hi, hj, hij, he⟩ := mem_cyclicPairs.1 h
  obtain ⟨i', j', hi', hj', hij', he'⟩ := mem_cyclicPairs.1 h'
  obtain ⟨rfl, hb⟩ := Prod.mk.inj he
  obtain ⟨rfl, hb'⟩ := Prod.mk.inj he'
  have hsame : j = j' := (hl.getElem_inj_iff).1 (hb.symm.trans hb')
  obtain rfl : i = i' := succ_mod_inj hi hi' (by rw [hij, hij', hsame])
  rfl

/-- Every element of a cyclic list has a successor. -/
theorem exists_successor {l : List α} {a : α} (ha : a ∈ l) : ∃ b, (a, b) ∈ cyclicPairs l := by
  obtain ⟨i, hi, rfl⟩ := List.mem_iff_getElem.1 ha
  exact ⟨_, mem_cyclicPairs.2 ⟨i, _, hi, Nat.mod_lt _ (by omega), rfl, rfl⟩⟩

/-- Every element of a cyclic list has a predecessor. -/
theorem exists_predecessor {l : List α} {b : α} (hb : b ∈ l) : ∃ a, (a, b) ∈ cyclicPairs l := by
  obtain ⟨j, hj, rfl⟩ := List.mem_iff_getElem.1 hb
  obtain ⟨i, hi, hij⟩ := exists_succ_mod hj
  exact ⟨_, mem_cyclicPairs.2 ⟨i, j, hi, hj, hij, rfl⟩⟩

/-! ## Sides and corners -/

variable {l : List α} {s : List β}

/-- A side with its ends stands at one place of both lists. -/
theorem mem_sides_iff {x : (α × α) × β} (hs : s.length = l.length) :
    x ∈ (cyclicPairs l).zip s ↔ ∃ (i j : ℕ) (hi : i < l.length) (hj : j < l.length),
      (i + 1) % l.length = j ∧ x = ((l[i], l[j]), s[i]) := by
  rw [List.mem_iff_getElem]
  constructor
  · rintro ⟨i, hi, rfl⟩
    have hi' : i < l.length := by simpa [hs] using hi
    have hj : (i + 1) % l.length < l.length := Nat.mod_lt _ (by omega)
    refine ⟨i, _, hi', hj, rfl, ?_⟩
    simp [cyclicPairs, List.getElem_zip, getElem_successors l (by simpa using hi') hj rfl]
  · rintro ⟨i, j, hi, hj, hij, rfl⟩
    refine ⟨i, by simpa [hs] using hi, ?_⟩
    simp [cyclicPairs, List.getElem_zip, getElem_successors l (by simpa using hi) hj hij]

/-- A corner with its sides stands at one place of both lists. -/
theorem mem_corners_iff {x : α × β × β} (hs : s.length = l.length) :
    x ∈ (successors l).zip (cyclicPairs s) ↔ ∃ (i j : ℕ) (hi : i < l.length) (hj : j < l.length),
      (i + 1) % l.length = j ∧ x = (l[j], s[i], s[j]) := by
  rw [List.mem_iff_getElem]
  constructor
  · rintro ⟨i, hi, rfl⟩
    have hi' : i < l.length := by simpa [hs] using hi
    have hj : (i + 1) % l.length < l.length := Nat.mod_lt _ (by omega)
    have hj' : (i + 1) % l.length < s.length := by rw [hs]; exact hj
    refine ⟨i, _, hi', hj, rfl, ?_⟩
    simp only [cyclicPairs, List.getElem_zip, getElem_successors l (by simpa using hi') hj rfl,
      getElem_successors s (by simpa [hs] using hi') hj' (by rw [hs])]
  · rintro ⟨i, j, hi, hj, hij, rfl⟩
    refine ⟨i, by simpa [hs] using hi, ?_⟩
    simp [cyclicPairs, List.getElem_zip, getElem_successors l (by simpa using hi) hj hij,
      getElem_successors s (by simpa [hs] using hi) (hs ▸ hj) (by rw [hs, hij])]

/-- At a corner one side ends and another one starts. -/
theorem sides_of_corner {v : α} {p n : β} (hs : s.length = l.length)
    (h : (v, p, n) ∈ (successors l).zip (cyclicPairs s)) :
    (∃ u, ((u, v), p) ∈ (cyclicPairs l).zip s) ∧ ∃ w, ((v, w), n) ∈ (cyclicPairs l).zip s := by
  obtain ⟨i, j, hi, hj, hij, he⟩ := (mem_corners_iff hs).1 h
  have hlt : (j + 1) % l.length < l.length := Nat.mod_lt _ (by omega)
  obtain ⟨rfl, rfl, rfl⟩ : v = _ ∧ p = _ ∧ n = _ := by simpa using he
  exact ⟨⟨_, (mem_sides_iff hs).2 ⟨i, j, hi, hj, hij, rfl⟩⟩,
    _, (mem_sides_iff hs).2 ⟨j, _, hj, hlt, rfl, rfl⟩⟩

/-- Where one side follows another one, there is a corner. -/
theorem exists_corner_between {p n : β} (hs : s.length = l.length) (h : (p, n) ∈ cyclicPairs s) :
    ∃ v, (v, p, n) ∈ (successors l).zip (cyclicPairs s) := by
  obtain ⟨i, j, hi, hj, hij, he⟩ := mem_cyclicPairs.1 h
  obtain ⟨rfl, rfl⟩ := Prod.mk.inj he
  rw [hs] at hi hj hij
  exact ⟨_, (mem_corners_iff hs).2 ⟨i, j, hi, hj, hij, rfl⟩⟩

/-- A side ends at a corner. -/
theorem exists_corner_behind {u v : α} {p : β} (hs : s.length = l.length)
    (h : ((u, v), p) ∈ (cyclicPairs l).zip s) :
    ∃ n, (v, p, n) ∈ (successors l).zip (cyclicPairs s) := by
  obtain ⟨i, j, hi, hj, hij, he⟩ := (mem_sides_iff hs).1 h
  obtain ⟨⟨rfl, rfl⟩, rfl⟩ : (u = _ ∧ v = _) ∧ p = _ := by simpa using he
  exact ⟨_, (mem_corners_iff hs).2 ⟨i, j, hi, hj, hij, rfl⟩⟩

/-- A side starts at a corner. -/
theorem exists_corner_before {v w : α} {n : β} (hs : s.length = l.length)
    (h : ((v, w), n) ∈ (cyclicPairs l).zip s) :
    ∃ p, (v, p, n) ∈ (successors l).zip (cyclicPairs s) := by
  obtain ⟨j, k, hj, hk, -, he⟩ := (mem_sides_iff hs).1 h
  obtain ⟨⟨rfl, -⟩, rfl⟩ : (v = _ ∧ w = _) ∧ n = _ := by simpa using he
  obtain ⟨i, hi, hij⟩ := exists_succ_mod hj
  exact ⟨_, (mem_corners_iff hs).2 ⟨i, j, hi, hj, hij, rfl⟩⟩

/-- Every element of the second list is a side. -/
theorem exists_side (hs : s.length = l.length) {b : β} (hb : b ∈ s) :
    ∃ u v, ((u, v), b) ∈ (cyclicPairs l).zip s := by
  obtain ⟨i, hi, rfl⟩ := List.mem_iff_getElem.1 hb
  have hi' : i < l.length := by omega
  have hj : (i + 1) % l.length < l.length := Nat.mod_lt _ (by omega)
  exact ⟨_, _, (mem_sides_iff hs).2 ⟨i, _, hi', hj, rfl, rfl⟩⟩

/-- A side is known by the corner where it starts. -/
theorem side_ext_left (hl : l.Nodup) (hs : s.length = l.length) {x y : (α × α) × β}
    (hx : x ∈ (cyclicPairs l).zip s) (hy : y ∈ (cyclicPairs l).zip s) (h : x.1.1 = y.1.1) : x = y := by
  obtain ⟨i, i', hi, hi', rfl, rfl⟩ := (mem_sides_iff hs).1 hx
  obtain ⟨j, j', hj, hj', rfl, rfl⟩ := (mem_sides_iff hs).1 hy
  obtain rfl : i = j := (hl.getElem_inj_iff).1 h
  rfl

/-- A side is known by the corner where it ends. -/
theorem side_ext_right (hl : l.Nodup) (hs : s.length = l.length) {x y : (α × α) × β}
    (hx : x ∈ (cyclicPairs l).zip s) (hy : y ∈ (cyclicPairs l).zip s) (h : x.1.2 = y.1.2) : x = y := by
  obtain ⟨i, i', hi, hi', rfl, rfl⟩ := (mem_sides_iff hs).1 hx
  obtain ⟨j, j', hj, hj', rfl, rfl⟩ := (mem_sides_iff hs).1 hy
  obtain rfl : i = j := succ_mod_inj hi hj ((hl.getElem_inj_iff).1 h)
  rfl

/-- Consecutive elements have a side. -/
theorem exists_side_between (hs : s.length = l.length) {x : α × α} (hx : x ∈ cyclicPairs l) :
    ∃ b, (x, b) ∈ (cyclicPairs l).zip s := by
  obtain ⟨i, j, hi, hj, hij, rfl⟩ := mem_cyclicPairs.1 hx
  exact ⟨_, (mem_sides_iff hs).2 ⟨i, j, hi, hj, hij, rfl⟩⟩

/-- A side that starts where another one ends follows it. -/
theorem mem_cyclicPairs_of_sides (hl : l.Nodup) (hs : s.length = l.length) {u v w : α} {p n : β}
    (hp : ((u, v), p) ∈ (cyclicPairs l).zip s) (hn : ((v, w), n) ∈ (cyclicPairs l).zip s) :
    (p, n) ∈ cyclicPairs s := by
  obtain ⟨n', hk⟩ := exists_corner_behind hs hp
  obtain ⟨-, w', hn'⟩ := sides_of_corner hs hk
  obtain rfl : n = n' := congrArg Prod.snd (side_ext_left hl hs hn hn' rfl)
  exact (List.of_mem_zip hk).2

/-- A corner is known by its element. -/
theorem corner_ext (hl : l.Nodup) (hs : s.length = l.length) {x y : α × β × β}
    (hx : x ∈ (successors l).zip (cyclicPairs s)) (hy : y ∈ (successors l).zip (cyclicPairs s))
    (h : x.1 = y.1) : x = y := by
  obtain ⟨i, i', hi, hi', rfl, rfl⟩ := (mem_corners_iff hs).1 hx
  obtain ⟨j, j', hj, hj', rfl, rfl⟩ := (mem_corners_iff hs).1 hy
  obtain rfl : i = j := succ_mod_inj hi hj ((hl.getElem_inj_iff).1 h)
  rfl

/-- Every element is a corner. -/
theorem exists_corner (hs : s.length = l.length) {v : α} (hv : v ∈ l) :
    ∃ p n, (v, p, n) ∈ (successors l).zip (cyclicPairs s) := by
  obtain ⟨j, hj, rfl⟩ := List.mem_iff_getElem.1 hv
  obtain ⟨i, hi, hij⟩ := exists_succ_mod hj
  exact ⟨_, _, (mem_corners_iff hs).2 ⟨i, j, hi, hj, hij, rfl⟩⟩

/-- What stands between two consecutive sides is an element of the list. -/
theorem corner_mem (hs : s.length = l.length) {x : α × β × β}
    (hx : x ∈ (successors l).zip (cyclicPairs s)) : x.1 ∈ l := by
  obtain ⟨i, j, hi, hj, -, rfl⟩ := (mem_corners_iff hs).1 hx
  exact List.getElem_mem hj

/-- The ends of a side differ. -/
theorem side_ends_ne (hl : l.Nodup) (h2 : 2 ≤ l.length) {x : α × α} (hx : x ∈ cyclicPairs l) :
    x.1 ≠ x.2 := by
  obtain ⟨i, j, hi, hj, hij, rfl⟩ := mem_cyclicPairs.1 hx
  intro he
  obtain rfl : i = j := (hl.getElem_inj_iff).1 he
  rcases Nat.lt_or_ge (i + 1) l.length with hlt | hge
  · rw [Nat.mod_eq_of_lt hlt] at hij
    omega
  · rw [show i + 1 = l.length by omega, Nat.mod_self] at hij
    omega

/-- From three corners on no side leads back along another one. -/
theorem side_ends_swap (hl : l.Nodup) (h3 : 3 ≤ l.length) {a b : α} (h : (a, b) ∈ cyclicPairs l) :
    (b, a) ∉ cyclicPairs l := by
  intro h'
  obtain ⟨i, i', hi, hi', hii, he⟩ := mem_cyclicPairs.1 h
  obtain ⟨j, j', hj, hj', hjj, he'⟩ := mem_cyclicPairs.1 h'
  obtain ⟨rfl, rfl⟩ : a = _ ∧ b = _ := by simpa using he
  obtain ⟨hb, ha⟩ : l[i'] = _ ∧ l[i] = _ := by simpa using he'
  obtain rfl : i' = j := (hl.getElem_inj_iff).1 hb
  obtain rfl : i = j' := (hl.getElem_inj_iff).1 ha
  -- Two places that follow each other in a circle make a list of two.
  rcases Nat.lt_or_ge (i + 1) l.length with hlt | hge
  · rw [Nat.mod_eq_of_lt hlt] at hii
    rcases Nat.lt_or_ge (i' + 1) l.length with hlt' | hge'
    · rw [Nat.mod_eq_of_lt hlt'] at hjj
      omega
    · rw [show i' + 1 = l.length by omega, Nat.mod_self] at hjj
      omega
  · rw [show i + 1 = l.length by omega, Nat.mod_self] at hii
    rw [Nat.mod_eq_of_lt (by omega)] at hjj
    omega

/-- From three corners on a side does not lead back to where the side before it starts. -/
theorem head_ne_of_sides (hl : l.Nodup) (h3 : 3 ≤ l.length) {u v w : α} (hu : (u, v) ∈ cyclicPairs l)
    (hw : (v, w) ∈ cyclicPairs l) : w ≠ u := by
  rintro rfl
  exact side_ends_swap hl h3 hu hw

end RegionMesh
