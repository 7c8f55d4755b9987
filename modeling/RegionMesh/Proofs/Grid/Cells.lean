import Mathlib.Algebra.BigOperators.Group.Finset.Piecewise
import Mathlib.Algebra.BigOperators.Ring.Finset
import Mathlib.Algebra.Order.Group.Unbundled.Int
import RegionMesh.Grid
import RegionMesh.Proofs.Mesh.Strip
import RegionMesh.Proofs.Sink.Calls

/-!
# The cells of a procedural grid

A grid reports its vertices and its cells row by row, so that what stands in column `j` of row `i` has the place
`i * w + j` (`flatMap_rows`). A cell has the sides of a cell of the strip of all vertices, the one that starts at the
same vertex, turned round (`Grid.swap_mem_cellIds`): seen from behind, a grid is a strip. Therefore its cells fit
together (`Grid.fits_cellAt`), and a side belongs to another cell, turned round, if this cell lies beyond it
(`Grid.swap_mem_sidesAt`). So two cells have a side in common if they lie side by side (`Grid.shareSide_iff`), and one
at most (`Grid.shareSide_unique`).

A side on the edge of the grid belongs to one cell alone (`Grid.swap_notMem_sides`). There are `2 * (w + h)` of them
(`Grid.countP_sides`), counted cell by cell.
-/

namespace RegionMesh

/-! ## Rows -/

/-- The place `i * w + j` is in column `j` of row `i`. -/
theorem place_row {w j : ℕ} (i : ℕ) (hj : j < w) : (i * w + j) / w = i := by
  rw [Nat.add_comm, Nat.add_mul_div_right _ _ (by omega), Nat.div_eq_of_lt hj, Nat.zero_add]

/-- The place of a cell gives its column back. -/
theorem place_column {w j : ℕ} (i : ℕ) (hj : j < w) : (i * w + j) % w = j := by
  rw [Nat.add_comm, Nat.add_mul_mod_self_right, Nat.mod_eq_of_lt hj]

/-- The places in `h` rows of `w` columns. -/
theorem place_lt {w h i j : ℕ} (hi : i < h) (hj : j < w) : i * w + j < h * w := by
  have hrows : (i + 1) * w ≤ h * w := Nat.mul_le_mul_right w hi
  rw [Nat.succ_mul] at hrows
  omega

/-- Every place is in a column of a row. -/
theorem exists_place {w h k : ℕ} (hk : k < h * w) : ∃ i < h, ∃ j < w, k = i * w + j := by
  have hw : 0 < w := Nat.pos_of_mul_pos_left (Nat.lt_of_le_of_lt (Nat.zero_le k) hk)
  exact ⟨k / w, (Nat.div_lt_iff_lt_mul hw).2 hk, k % w, Nat.mod_lt k hw, (Nat.div_add_mod' k w).symm⟩

/-- What is listed row by row is listed by place. -/
theorem flatMap_rows {α : Type} {w : ℕ} (h : ℕ) (f : ℕ → ℕ → α) :
    ((List.range h).flatMap fun i => (List.range w).map fun j => f i j) =
      (List.range (h * w)).map fun k => f (k / w) (k % w) := by
  induction h with
  | zero => simp
  | succ h ih =>
    -- The last row is listed by the places behind those of the rows before.
    have hrow : ((List.range w).map fun j => f h j) =
        ((List.range w).map fun j => h * w + j).map fun k => f (k / w) (k % w) := by
      rw [List.map_map]
      refine List.map_congr_left fun j hj => ?_
      rw [List.mem_range] at hj
      simp only [Function.comp_apply, place_row h hj, place_column h hj]
    rw [List.range_succ, List.flatMap_append, ih, List.flatMap_singleton, hrow, Nat.succ_mul, List.range_add,
      List.map_append]

/-- A sum over all places is summed row by row. -/
theorem sum_rows (w h : ℕ) (f : ℕ → ℕ) :
    ∑ k ∈ Finset.range (h * w), f k = ∑ i ∈ Finset.range h, ∑ j ∈ Finset.range w, f (i * w + j) := by
  induction h with
  | zero => simp
  | succ h ih => rw [Nat.succ_mul, Finset.sum_range_add, ih, Finset.sum_range_succ]

namespace Grid

/-! ## What is reported -/

/-- The vertex in a place, as a sample. -/
def sampleAt (w k : ℕ) : ℕ × Point := (k, ⟨doubleOfCount (k % (w + 1)), doubleOfCount (k / (w + 1)), 0⟩)

/-- The cell in a place, by id. -/
def cellAt (w k : ℕ) : ℕ × List ℕ := (k, (cornersAt w (k / w) (k % w)).toList)

/-- The call that reports the vertex in a place. -/
def vertexCall (w k : ℕ) : SinkCall := .vertex (sampleAt w k).2 k

/-- The call that reports the cell in a place. -/
def cellCall (w k : ℕ) : SinkCall := .cell (cornersAt w (k / w) (k % w)) k

variable {w h i j i' j' : ℕ}

/-- The vertices are reported by place, and their ids are their places. -/
theorem vertexCalls_eq (w h : ℕ) : vertexCalls w h = (List.range ((h + 1) * (w + 1))).map (vertexCall w) := by
  unfold vertexCalls
  rw [flatMap_rows]
  refine List.map_congr_left fun k _ => ?_
  unfold vertexCall vertexAt
  rw [Nat.div_add_mod' k (w + 1)]
  rfl

/-- The cells are reported by place, and their ids are their places. -/
theorem cellCalls_eq (w h : ℕ) : cellCalls w h = (List.range (h * w)).map (cellCall w) := by
  unfold cellCalls
  rw [flatMap_rows (f := fun i j => SinkCall.cell (cornersAt w i j) (i * w + j))]
  refine List.map_congr_left fun k _ => ?_
  rw [Nat.div_add_mod' k w]
  rfl

/-- The cell in column `j` of row `i`. -/
theorem cellAt_place (i : ℕ) (hj : j < w) : cellAt w (i * w + j) = (i * w + j, (cornersAt w i j).toList) := by
  unfold cellAt
  rw [place_row i hj, place_column i hj]

/-- The corners of a cell are vertices of the grid. -/
theorem cornersAt_lt (hi : i < h) (hj : j < w) {c : ℕ} (hc : c ∈ (cornersAt w i j).toList) :
    c < (h + 1) * (w + 1) := by
  simp only [cornersAt, Quad.toList, List.mem_cons, List.not_mem_nil, or_false, vertexAt] at hc
  rcases hc with rfl | rfl | rfl | rfl <;> exact place_lt (by omega) (by omega)

/-! ## Sides -/

/-- The sides of the cell in column `j` of row `i`. -/
def sidesAt (w i j : ℕ) : List (ℕ × ℕ) := cyclicPairs (cornersAt w i j).toList

/-- The sides of a cell, in the order of its corners. -/
inductive Side where
  /-- The side towards the column before. -/
  | left
  /-- The side towards the row behind. -/
  | lower
  /-- The side towards the column behind. -/
  | right
  /-- The side towards the row before. -/
  | upper

namespace Side

/-- The vertices that a side of the cell in column `j` of row `i` joins. -/
def ends (w i j : ℕ) : Side → ℕ × ℕ
  | left => (vertexAt w i j, vertexAt w (i + 1) j)
  | lower => (vertexAt w (i + 1) j, vertexAt w (i + 1) (j + 1))
  | right => (vertexAt w (i + 1) (j + 1), vertexAt w i (j + 1))
  | upper => (vertexAt w i (j + 1), vertexAt w i j)

/-- The cell in column `j'` of row `i'` lies beyond a side of the cell in column `j` of row `i`. -/
def Beyond (i j i' j' : ℕ) : Side → Prop
  | left => i = i' ∧ j = j' + 1
  | lower => i' = i + 1 ∧ j' = j
  | right => i' = i ∧ j' = j + 1
  | upper => i = i' + 1 ∧ j = j'

/-- A side is on the edge of the grid. -/
def Outer (w h i j : ℕ) : Side → Prop
  | left => j = 0
  | lower => i + 1 = h
  | right => j + 1 = w
  | upper => i = 0

/-- A cell lies beyond one side. -/
theorem Beyond.unique {s t : Side} (hs : s.Beyond i j i' j') (ht : t.Beyond i j i' j') : s = t := by
  cases s <;> cases t <;> simp only [Beyond] at hs ht <;> first | rfl | omega

/-- Cells lie beyond a side of each other if they lie side by side. -/
theorem exists_beyond : (∃ s : Side, s.Beyond i j i' j') ↔ |(i : ℤ) - i'| + |(j : ℤ) - j'| = 1 := by
  rw [Int.abs_eq_natAbs, Int.abs_eq_natAbs]
  constructor
  · rintro ⟨s, hs⟩
    cases s <;> simp only [Beyond] at hs <;> omega
  · intro hbeside
    -- A distance of one leaves four places.
    have hwhere : (i = i' ∧ j = j' + 1) ∨ (i' = i + 1 ∧ j' = j) ∨ (i' = i ∧ j' = j + 1) ∨ (i = i' + 1 ∧ j = j') := by
      omega
    rcases hwhere with hs | hs | hs | hs
    · exact ⟨left, hs⟩
    · exact ⟨lower, hs⟩
    · exact ⟨right, hs⟩
    · exact ⟨upper, hs⟩

end Side

/-- A cell has its four sides in the order of its ring. -/
theorem sidesAt_eq (w i j : ℕ) :
    sidesAt w i j = [Side.left, Side.lower, Side.right, Side.upper].map (Side.ends w i j) := rfl

/-- A side of a cell is one of the four. -/
theorem mem_sidesAt {x : ℕ × ℕ} : x ∈ sidesAt w i j ↔ ∃ s : Side, s.ends w i j = x := by
  rw [sidesAt_eq, List.mem_map]
  constructor
  · rintro ⟨s, -, rfl⟩
    exact ⟨s, rfl⟩
  · rintro ⟨s, rfl⟩
    exact ⟨s, by cases s <;> simp, rfl⟩

/-! ## The grid as a strip -/

/-- In the next row a vertex has a place that is greater by the number of vertices in a row. -/
theorem vertexAt_succ_row (w i j : ℕ) : vertexAt w (i + 1) j = vertexAt w i j + (w + 1) := by
  unfold vertexAt
  rw [Nat.succ_mul]
  omega

/-- The next vertex of a row has the next place. -/
theorem vertexAt_succ_column (w i j : ℕ) : vertexAt w i (j + 1) = vertexAt w i j + 1 := rfl

/-- A vertex is in one column of one row. -/
theorem vertexAt_inj (hj : j ≤ w) (hj' : j' ≤ w) (he : vertexAt w i j = vertexAt w i' j') : i = i' ∧ j = j' := by
  unfold vertexAt at he
  rw [Nat.add_comm, Nat.add_comm (i' * _)] at he
  obtain ⟨hcolumn, hrow⟩ := id_inj (Nat.lt_succ_of_le hj) (Nat.lt_succ_of_le hj') he
  exact ⟨hrow, hcolumn⟩

/-- The corners of a cell are different from each other. -/
theorem nodup_cornersAt (hw : 0 < w) (i j : ℕ) : (cornersAt w i j).toList.Nodup := by
  simp only [cornersAt, Quad.toList, vertexAt_succ_row, vertexAt_succ_column, List.nodup_cons, List.mem_cons,
    List.not_mem_nil, or_false, not_or, not_false_eq_true, List.nodup_nil, and_true]
  omega

/-- A cell has the sides of the cell of a strip that starts at the same vertex, turned round. -/
theorem swap_mem_cellIds {x : ℕ × ℕ} :
    x.swap ∈ cyclicPairs (cellIds (w + 1) (vertexAt w i j)) ↔ x ∈ sidesAt w i j := by
  obtain ⟨a, b⟩ := x
  rw [sidesAt_eq, mem_cyclicPairs_cellIds]
  simp only [List.map_cons, List.map_nil, Side.ends, vertexAt_succ_row, vertexAt_succ_column, List.mem_cons,
    List.not_mem_nil, or_false, Prod.swap_prod_mk, Prod.mk.injEq]
  omega

/-- All cells fit together. -/
theorem fits_cellAt (hw : 0 < w) : Fits fun k => some ((cellAt w k).2.map Vertex.mk) := by
  refine (fits_cellIds (w := w + 1) (by omega)).mirror (g := fun k => vertexAt w (k / w) (k % w)) ?_ ?_ ?_
  · intro k l hl
    obtain rfl := Option.some.inj hl
    exact ⟨_, rfl, fun x hx => mem_cyclicPairs_mk.2 (swap_mem_cellIds.2 (mem_cyclicPairs_mk.1 hx))⟩
  · intro k k' _ _ _ _ he
    obtain ⟨hrow, hcolumn⟩ := vertexAt_inj (Nat.le_of_lt (Nat.mod_lt k hw)) (Nat.le_of_lt (Nat.mod_lt k' hw)) he
    rw [← Nat.div_add_mod' k w, ← Nat.div_add_mod' k' w, hrow, hcolumn]
  · intro k l hl
    obtain rfl := Option.some.inj hl
    exact (nodup_cornersAt hw _ _).map fun a b he => Vertex.mk.inj he

/-! ## Common sides -/

/-- The next vertex in the same row starts the cell to the right. -/
theorem vertexAt_eq_succ_iff (hj : j < w) (hj' : j' < w) :
    vertexAt w i' j' = vertexAt w i j + 1 ↔ i' = i ∧ j' = j + 1 := by
  rw [← vertexAt_succ_column]
  constructor
  · exact vertexAt_inj (Nat.le_of_lt hj') hj
  · rintro ⟨rfl, rfl⟩
    rfl

/-- The vertex a row further starts the cell below. -/
theorem vertexAt_eq_add_iff (hj : j < w) (hj' : j' < w) :
    vertexAt w i' j' = vertexAt w i j + (w + 1) ↔ i' = i + 1 ∧ j' = j := by
  rw [← vertexAt_succ_row]
  constructor
  · exact vertexAt_inj (Nat.le_of_lt hj') (Nat.le_of_lt hj)
  · rintro ⟨rfl, rfl⟩
    rfl

/-- A side of a cell is a side of another cell, turned round, if this cell lies beyond it. -/
theorem swap_mem_sidesAt (hj : j < w) (hj' : j' < w) (s : Side) :
    (s.ends w i j).swap ∈ sidesAt w i' j' ↔ s.Beyond i j i' j' := by
  rw [← swap_mem_cellIds, Prod.swap_swap, mem_cyclicPairs_cellIds]
  -- In the strip the two cells differ by one or by the length of a row.
  cases s with
  | left =>
    refine Iff.trans ?_ (vertexAt_eq_succ_iff hj' hj)
    simp only [Side.ends, vertexAt_succ_row, Prod.mk.injEq]
    omega
  | lower =>
    refine Iff.trans ?_ (vertexAt_eq_add_iff hj hj')
    simp only [Side.ends, vertexAt_succ_row, vertexAt_succ_column, Prod.mk.injEq]
    omega
  | right =>
    refine Iff.trans ?_ (vertexAt_eq_succ_iff hj hj')
    simp only [Side.ends, vertexAt_succ_row, vertexAt_succ_column, Prod.mk.injEq]
    omega
  | upper =>
    refine Iff.trans ?_ (vertexAt_eq_add_iff hj' hj)
    simp only [Side.ends, vertexAt_succ_column, Prod.mk.injEq]
    omega

/-- Cells have a side in common if they lie side by side. -/
theorem shareSide_iff (hj : j < w) (hj' : j' < w) :
    (∃ x ∈ sidesAt w i j, x.swap ∈ sidesAt w i' j') ↔ |(i : ℤ) - i'| + |(j : ℤ) - j'| = 1 := by
  rw [← Side.exists_beyond]
  constructor
  · rintro ⟨x, hx, hx'⟩
    obtain ⟨s, rfl⟩ := mem_sidesAt.1 hx
    exact ⟨s, (swap_mem_sidesAt hj hj' s).1 hx'⟩
  · rintro ⟨s, hs⟩
    exact ⟨s.ends w i j, mem_sidesAt.2 ⟨s, rfl⟩, (swap_mem_sidesAt hj hj' s).2 hs⟩

/-- Cells have one side in common at most. -/
theorem shareSide_unique (hj : j < w) (hj' : j' < w) {x y : ℕ × ℕ} (hx : x ∈ sidesAt w i j)
    (hx' : x.swap ∈ sidesAt w i' j') (hy : y ∈ sidesAt w i j) (hy' : y.swap ∈ sidesAt w i' j') : x = y := by
  obtain ⟨s, rfl⟩ := mem_sidesAt.1 hx
  obtain ⟨t, rfl⟩ := mem_sidesAt.1 hy
  rw [((swap_mem_sidesAt hj hj' s).1 hx').unique ((swap_mem_sidesAt hj hj' t).1 hy')]

/-! ## The edge of the grid -/

/-- The sides of all cells. -/
def sides (w h : ℕ) : List (ℕ × ℕ) := (List.range (h * w)).flatMap fun k => cyclicPairs (cellAt w k).2

/-- The sides of a grid are those of its cells. -/
theorem mem_sides {x : ℕ × ℕ} : x ∈ sides w h ↔ ∃ i < h, ∃ j < w, x ∈ sidesAt w i j := by
  unfold sides
  simp only [List.mem_flatMap, List.mem_range]
  constructor
  · rintro ⟨k, hk, hx⟩
    obtain ⟨i, hi, j, hj, rfl⟩ := exists_place hk
    rw [cellAt_place i hj] at hx
    exact ⟨i, hi, j, hj, hx⟩
  · rintro ⟨i, hi, j, hj, hx⟩
    refine ⟨i * w + j, place_lt hi hj, ?_⟩
    rwa [cellAt_place i hj]

/-- A side of a cell is a side of another cell, turned round, unless it is on the edge of the grid. -/
theorem swap_notMem_sides (hi : i < h) (hj : j < w) (s : Side) :
    (s.ends w i j).swap ∉ sides w h ↔ s.Outer w h i j := by
  have hbeyond : (s.ends w i j).swap ∈ sides w h ↔ ∃ i' < h, ∃ j' < w, s.Beyond i j i' j' := by
    rw [mem_sides]
    refine exists_congr fun i' => and_congr_right fun _ => exists_congr fun j' => and_congr_right fun hj' => ?_
    exact swap_mem_sidesAt hj hj' s
  rw [hbeyond]
  constructor
  · -- Otherwise there is a cell beyond it.
    intro hnone
    by_contra hin
    refine hnone ?_
    cases s with
    | left =>
      have hcell : j = j - 1 + 1 := (Nat.succ_pred hin).symm
      exact ⟨i, hi, j - 1, by omega, rfl, hcell⟩
    | lower =>
      have hcell : i + 1 < h := Nat.lt_of_le_of_ne hi hin
      exact ⟨i + 1, hcell, j, hj, rfl, rfl⟩
    | right =>
      have hcell : j + 1 < w := Nat.lt_of_le_of_ne hj hin
      exact ⟨i, hi, j + 1, hcell, rfl, rfl⟩
    | upper =>
      have hcell : i = i - 1 + 1 := (Nat.succ_pred hin).symm
      exact ⟨i - 1, by omega, j, hj, hcell, rfl⟩
  · rintro hout ⟨i', hi', j', hj', hs⟩
    cases s <;> simp only [Side.Outer, Side.Beyond] at hout hs <;> omega

/-- A cell has a side on the edge of the grid for each end of its row and of its column that it lies at. -/
theorem countP_sidesAt (hi : i < h) (hj : j < w) : (sidesAt w i j).countP (fun x => x.swap ∉ sides w h) =
    (if j = 0 then 1 else 0) + (if i + 1 = h then 1 else 0) + (if j + 1 = w then 1 else 0) +
      (if i = 0 then 1 else 0) := by
  have hout := swap_notMem_sides hi hj
  simp only [sidesAt_eq, List.map_cons, List.map_nil, List.countP_cons, List.countP_nil, hout, Side.Outer,
    decide_eq_true_eq]
  omega

/-- One of several places in a row is the first one, and one is the last one. -/
theorem sum_first {n : ℕ} (hn : 0 < n) : ∑ i ∈ Finset.range n, (if i = 0 then 1 else 0) = 1 := by
  rw [Finset.sum_ite_eq', if_pos (Finset.mem_range.2 hn)]

/-- One row is the last one. -/
theorem sum_last {n : ℕ} (hn : 0 < n) : ∑ i ∈ Finset.range n, (if i + 1 = n then 1 else 0) = 1 := by
  obtain ⟨n, rfl⟩ : ∃ k, n = k + 1 := ⟨n - 1, by omega⟩
  simp only [Nat.add_right_cancel_iff]
  rw [Finset.sum_ite_eq', if_pos (Finset.mem_range.2 (Nat.lt_succ_self n))]

/-- There are as many sides on the edge of the grid as there are cells along it. -/
theorem countP_sides (hw : 0 < w) (hh : 0 < h) : (sides w h).countP (fun x => x.swap ∉ sides w h) = 2 * (w + h) :=
  calc (sides w h).countP (fun x => x.swap ∉ sides w h)
      = ∑ k ∈ Finset.range (h * w), (cyclicPairs (cellAt w k).2).countP (fun x => x.swap ∉ sides w h) :=
        List.countP_flatMap
    _ = ∑ i ∈ Finset.range h, ∑ j ∈ Finset.range w, (sidesAt w i j).countP (fun x => x.swap ∉ sides w h) := by
        rw [sum_rows]
        refine Finset.sum_congr rfl fun i _ => Finset.sum_congr rfl fun j hj => ?_
        rw [cellAt_place i (Finset.mem_range.1 hj)]
        rfl
    -- A side of a cell is on the edge of the grid if the cell is the last one in its direction.
    _ = ∑ i ∈ Finset.range h, ∑ j ∈ Finset.range w, ((if j = 0 then 1 else 0) + (if i + 1 = h then 1 else 0) +
          (if j + 1 = w then 1 else 0) + (if i = 0 then 1 else 0)) :=
        Finset.sum_congr rfl fun i hi => Finset.sum_congr rfl fun j hj =>
          countP_sidesAt (Finset.mem_range.1 hi) (Finset.mem_range.1 hj)
    _ = h + w + h + w := by
        simp only [Finset.sum_add_distrib, sum_first hw, sum_last hw, Finset.sum_const, Finset.card_range,
          smul_eq_mul, ← Finset.mul_sum, sum_first hh, sum_last hh, Nat.mul_one]
    _ = 2 * (w + h) := by omega

end Grid

end RegionMesh
