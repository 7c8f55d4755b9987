import RegionMesh.Proofs.Mesh.Fitting

/-!
# A strip of cells

Ids run through the rows of a grid one after another, so that the row of `w` samples is a strip that is wound up: the
sample below another one has an id that is greater by `w`. In this order every cell has the corners `id`, `id + 1`,
`id + 1 + w` and `id + w` (`cellIds`). All cells of the strip fit together (`fits_cellIds`), also those that
reach from the end of a row to the start of the next one, so nothing needs to be known of where rows end. A vertex has
four cells around it at most, and their turns go around it clockwise (`clockwise_of_turn`).

Two cells have a side in common if their ids differ by one or by `w` (`shareSide_cellIds`).
-/

namespace RegionMesh

/-! ## Rows of samples -/

/-- A sample in a row of `w` samples is found again from its id. -/
theorem id_inj {w x y x' y' : ℕ} (hx : x < w) (hx' : x' < w) (h : x + y * w = x' + y' * w) : x = x' ∧ y = y' := by
  have hpos : 0 < w := Nat.lt_of_le_of_lt (Nat.zero_le x) hx
  constructor
  · have hmod := congrArg (· % w) h
    simpa [Nat.add_mul_mod_self_right, Nat.mod_eq_of_lt hx, Nat.mod_eq_of_lt hx'] using hmod
  · have hdiv := congrArg (· / w) h
    simpa [Nat.add_mul_div_right _ _ hpos, Nat.div_eq_of_lt hx, Nat.div_eq_of_lt hx'] using hdiv

/-! ## Cells -/

/-- The pairs of vertices in the slots of a list are the pairs of the list. -/
theorem mem_cyclicPairs_mk {l : List ℕ} {x : Vertex × Vertex} :
    x ∈ cyclicPairs (l.map Vertex.mk) ↔ (x.1.slot, x.2.slot) ∈ cyclicPairs l := by
  rw [cyclicPairs_map, List.mem_map]
  constructor
  · rintro ⟨y, hy, rfl⟩
    exact hy
  · exact fun hx => ⟨_, hx, rfl⟩

/-- The ids of the corners of a cell, where the sample below another one has an id that is greater by `w`. -/
def cellIds (w id : ℕ) : List ℕ := [id, id + 1, id + 1 + w, id + w]

section Strip

variable {w : ℕ}

/-- The corners of a cell are different from each other. -/
theorem nodup_cellIds (hw : 2 ≤ w) (id : ℕ) : (cellIds w id).Nodup := by
  simp only [cellIds, List.nodup_cons, List.mem_cons, List.not_mem_nil, or_false, not_or, not_false_eq_true,
    List.nodup_nil, and_true]
  omega

/-- A cell has four sides between samples that are beside or below each other. -/
theorem mem_cyclicPairs_cellIds {id : ℕ} {x : ℕ × ℕ} : x ∈ cyclicPairs (cellIds w id) ↔
    x = (id, id + 1) ∨ x = (id + 1, id + 1 + w) ∨ x = (id + 1 + w, id + w) ∨ x = (id + w, id) := by
  simp [cyclicPairs, successors, cellIds]

/-- Two cells do not have the same side. -/
theorem cellIds_once (hw : 2 ≤ w) {i j : ℕ} {x : ℕ × ℕ} (hi : x ∈ cyclicPairs (cellIds w i))
    (hj : x ∈ cyclicPairs (cellIds w j)) : i = j := by
  obtain ⟨u, v⟩ := x
  rw [mem_cyclicPairs_cellIds] at hi hj
  simp only [Prod.mk.injEq] at hi hj
  rcases hi with hi | hi | hi | hi <;> rcases hj with hj | hj | hj | hj <;> omega

/-- From one of the four samples next to `v` to the next one, clockwise. -/
def Clockwise (w v u u' : ℕ) : Prop :=
  (u = v + w ∧ u' = v + 1) ∨ (u = v + 1 ∧ u' + w = v) ∨ (u + w = v ∧ u' + 1 = v) ∨ (u + 1 = v ∧ u' = v + w)

/-- The turn of a cell at one of its corners goes clockwise. -/
theorem clockwise_of_turn (hw : 2 ≤ w) {id u v u' : ℕ} (hin : (u, v) ∈ cyclicPairs (cellIds w id))
    (hout : (v, u') ∈ cyclicPairs (cellIds w id)) : Clockwise w v u u' := by
  rw [mem_cyclicPairs_cellIds] at hin hout
  simp only [Prod.mk.injEq] at hin hout
  unfold Clockwise
  rcases hin with hin | hin | hin | hin <;> rcases hout with hout | hout | hout | hout <;> omega

/-- Going clockwise again and again, one meets every sample from which one can go on. -/
theorem Clockwise.met_of_closed (hw : 2 ≤ w) {v a : ℕ} {p : ℕ → Prop} (ha : p a)
    (hclosed : ∀ a, p a → ∃ b, p b ∧ Clockwise w v a b) {u u' : ℕ} (hu : Clockwise w v u u') : p u := by
  obtain ⟨b, hb, hab⟩ := hclosed a ha
  obtain ⟨c, hc, hbc⟩ := hclosed b hb
  obtain ⟨d, hd, hcd⟩ := hclosed c hc
  -- Three steps lead to all four neighbours, wherever they start.
  have hone : u = a ∨ u = b ∨ u = c ∨ u = d := by
    unfold Clockwise at hab hbc hcd hu
    rcases hab with hab | hab | hab | hab <;> omega
  rcases hone with rfl | rfl | rfl | rfl <;> assumption

/-- All cells fit together. -/
theorem fits_cellIds (hw : 2 ≤ w) : Fits fun id => some ((cellIds w id).map Vertex.mk) := by
  have hturn : ∀ {v u u'}, Turns (fun id => some ((cellIds w id).map Vertex.mk)) v u u' →
      Clockwise w v.slot u.slot u'.slot := by
    rintro v u u' ⟨id, l, hl, hin, hout⟩
    obtain rfl := Option.some.inj hl
    exact clockwise_of_turn hw (mem_cyclicPairs_mk.1 hin) (mem_cyclicPairs_mk.1 hout)
  constructor
  · rintro i j k l ⟨u, v⟩ hk hl hxk hxl
    obtain rfl := Option.some.inj hk
    obtain rfl := Option.some.inj hl
    exact cellIds_once hw (mem_cyclicPairs_mk.1 hxk) (mem_cyclicPairs_mk.1 hxl)
  · -- A cycle around a vertex is closed under going on clockwise.
    intro v r hr hcycle u u' hu
    obtain ⟨a, ha⟩ := List.exists_mem_of_ne_nil r hr
    refine (hturn hu).met_of_closed hw (a := a.slot) (p := fun n => (⟨n⟩ : Vertex) ∈ r) ha fun n hn => ?_
    obtain ⟨b, hb⟩ := exists_successor hn
    exact ⟨b.slot, (mem_of_mem_cyclicPairs hb).2, hturn (hcycle _ hb)⟩

/-- Cells have a side in common if they lie next to each other in a row, or one below the other. -/
theorem shareSide_cellIds (hw : 2 ≤ w) {i j : ℕ} :
    (∃ x ∈ cyclicPairs (cellIds w i), x.swap ∈ cyclicPairs (cellIds w j)) ↔
      (j = i + 1 ∨ i = j + 1) ∨ j = i + w ∨ i = j + w := by
  simp only [mem_cyclicPairs_cellIds, Prod.exists, Prod.swap_prod_mk, Prod.mk.injEq]
  constructor
  · rintro ⟨a, b, hi, hj⟩
    -- Two sides that are opposite to each other say where the cells lie.
    rcases hi with hi | hi | hi | hi <;> rcases hj with hj | hj | hj | hj <;> omega
  · rintro ((rfl | rfl) | rfl | rfl)
    · exact ⟨i + 1, i + 1 + w, by omega, by omega⟩
    · exact ⟨j + 1 + w, j + 1, by omega, by omega⟩
    · exact ⟨i + 1 + w, i + w, by omega, by omega⟩
    · exact ⟨j + w, j + 1 + w, by omega, by omega⟩

end Strip

end RegionMesh
