import Mathlib.Algebra.Group.Nat.Defs
import Mathlib.Data.List.Nodup
import Mathlib.Data.List.Pairwise
import RegionMesh.Proofs.Raster.Script
import RegionMesh.Proofs.Sink.Calls

/-!
# What a script reports

A block has samples of its own and reaches one row and one column behind them (`Block.Reaches`), and it has the cells
that start at its own samples (`Block.HasCell`), both as far as the raster goes. This is what is reported for it, as
long as the sums that say where it ends fit in words (`Block.samples_rowCalls`, `Block.cells_cellCalls`).

Where such a sum does not fit, the block ends before it starts, and nothing at all is reported for it, although its
rows may be read (`Block.rowCalls_eq_nil`, `Block.cellCalls_eq_nil`). So the calls of a script are those of its blocks
whose sums fit (`Script.calls_fitting`), and only the samples and the cells of these get to the sink.
-/

namespace RegionMesh

/-- A number that is small enough is kept. -/
theorem asWord_of_lt {n : ℕ} (h : n < 2 ^ 64) : asWord n = n := Nat.mod_eq_of_lt h

/-- The end of a range of words that is too large for a word comes before the start of the range. -/
theorem asWord_le_start {start length : ℕ} (h : 2 ^ 64 ≤ start + length + 1) (hstart : start < 2 ^ 64)
    (hlength : length < 2 ^ 64) : asWord (start + length + 1) ≤ start := by
  unfold asWord UInt64.size
  omega

/-! ## Blocks -/

namespace Block

/-- The numbers of a block are words. -/
structure Bounded (b : Block) : Prop where
  /-- The first column is a word. -/
  x : b.x < 2 ^ 64
  /-- The first row is a word. -/
  y : b.y < 2 ^ 64
  /-- The number of columns is a word. -/
  width : b.width < 2 ^ 64
  /-- The number of rows is a word. -/
  height : b.height < 2 ^ 64

/-- The sums that say where the reading of a block ends fit in words. -/
def SumsFit (b : Block) : Prop := b.x + b.width + 1 < 2 ^ 64 ∧ b.y + b.height + 1 < 2 ^ 64

instance (b : Block) : Decidable b.SumsFit := inferInstanceAs (Decidable (_ ∧ _))

/-- A sample of a raster of a size is one of a block, or lies in the row or the column behind it. -/
def Reaches (b : Block) (size : ℕ × ℕ) (x y : ℕ) : Prop :=
  (b.x ≤ x ∧ x ≤ b.x + b.width ∧ x < size.1) ∧ b.y ≤ y ∧ y ≤ b.y + b.height ∧ y < size.2

/-- A cell of a raster of a size starts in a block. It needs a column and a row behind its own. -/
def HasCell (b : Block) (size : ℕ × ℕ) (x y : ℕ) : Prop :=
  (b.x ≤ x ∧ x < b.x + b.width ∧ x + 1 < size.1) ∧ b.y ≤ y ∧ y < b.y + b.height ∧ y + 1 < size.2

/-- The numbers of a block whose sums fit are words. -/
theorem SumsFit.bounded {b : Block} (h : b.SumsFit) : b.Bounded := by
  obtain ⟨hx, hy⟩ := h
  exact ⟨by omega, by omega, by omega, by omega⟩

/-- Inside a raster with fewer columns and rows than the largest word, the sums of every block fit. -/
theorem sumsFit_of_inside {b : Block} (size : ℕ × ℕ) (hx : b.x + b.width ≤ size.1) (hy : b.y + b.height ≤ size.2)
    (hwidth : size.1 + 1 < 2 ^ 64) (hheight : size.2 + 1 < 2 ^ 64) : b.SumsFit := by
  unfold SumsFit
  omega

variable (b : Block) (size : ℕ × ℕ)

/-- The rows of a block and the one behind it, as far as the raster has them. -/
def reachedRows : List ℕ := List.range' b.y (min (b.y + b.height + 1) size.2 - b.y)

/-- The columns of a block and the one behind it, as far as the raster has them. -/
def reachedColumns : List ℕ := List.range' b.x (min (b.x + b.width + 1) size.1 - b.x)

/-- The samples in the rows of a block, by id. -/
def samples (rows : List (List Point)) : List (ℕ × Point) :=
  ((b.reachedRows size).zip rows).flatMap fun (y, row) =>
    ((b.reachedColumns size).zip row).map fun (x, p) => (x + y * size.1, p)

/-- The cells that start in a block, by column and row. A cell needs a column and a row behind its own. -/
def cells : List (ℕ × ℕ) :=
  (List.range' b.y (min (b.y + b.height) (size.2 - 1) - b.y)).flatMap fun y =>
    (List.range' b.x (min (b.x + b.width) (size.1 - 1) - b.x)).map fun x => (x, y)

/-- A cell by its id, with the ids of its corners. -/
def cellEntry (w : ℕ) (cell : ℕ × ℕ) : ℕ × List ℕ :=
  (cell.1 + cell.2 * w, (cellCorners w cell.1 cell.2).toList)

variable {b size}

/-- A block reaches the samples in the rows and the columns that it reaches. -/
theorem reaches_iff {x y : ℕ} : b.Reaches size x y ↔ x ∈ b.reachedColumns size ∧ y ∈ b.reachedRows size := by
  rw [Reaches, reachedColumns, reachedRows, List.mem_range'_1, List.mem_range'_1]
  omega

/-- The cells of a block are listed. -/
theorem mem_cells {x y : ℕ} : (x, y) ∈ b.cells size ↔ b.HasCell size x y := by
  simp only [cells, HasCell, List.mem_flatMap, List.mem_map, List.mem_range'_1, Prod.mk.injEq]
  constructor
  · rintro ⟨_, hy, _, hx, rfl, rfl⟩
    omega
  · rintro ⟨hx, hy⟩
    exact ⟨y, by omega, x, by omega, rfl, rfl⟩

variable (b size) in
/-- A block has every cell once. -/
theorem nodup_cells : (b.cells size).Nodup := by
  unfold cells
  refine List.nodup_flatMap.2 ⟨fun y _ => ?_, ?_⟩
  · exact (List.nodup_range' ..).map fun x x' he => (Prod.mk.inj he).1
  · refine (List.nodup_range' ..).imp fun {y y'} hne => ?_
    rintro cell hcell hcell'
    obtain ⟨_, -, rfl⟩ := List.mem_map.1 hcell
    obtain ⟨_, -, he⟩ := List.mem_map.1 hcell'
    exact hne (Prod.mk.inj he).2.symm

/-- Whether its sums fit or not, no row is read for a block that the raster does not have. -/
theorem lt_of_mem_rows {y : ℕ} (hy : y ∈ b.rows size) : y < size.2 := by
  rw [rows, List.mem_range'_1, rowEnd] at hy
  omega

/-! ### Sums that fit -/

/-- The end of the columns is where it is expected, if its sum fits. -/
theorem columnEnd_eq (h : b.SumsFit) : b.columnEnd size = min (b.x + b.width + 1) size.1 := by
  rw [columnEnd, asWord_of_lt h.1]

/-- The end of the rows is where it is expected, if its sum fits. -/
theorem rowEnd_eq (h : b.SumsFit) : b.rowEnd size = min (b.y + b.height + 1) size.2 := by
  rw [rowEnd, asWord_of_lt h.2]

/-- The columns that are read are those that the block reaches. -/
theorem columns_eq (h : b.SumsFit) : b.columns size = b.reachedColumns size := by
  rw [columns, columnEnd_eq h, reachedColumns]

/-- The rows that are read are those that the block reaches. -/
theorem rows_eq (h : b.SumsFit) : b.rows size = b.reachedRows size := by
  rw [rows, rowEnd_eq h, reachedRows]

/-- A block's cells are reported in order. -/
theorem cellCalls_eq (h : b.SumsFit) : b.cellCalls size =
    (b.cells size).map fun cell => .cell (cellCorners size.1 cell.1 cell.2) (cell.1 + cell.2 * size.1) := by
  have hx := h.1
  have hy := h.2
  -- A cell needs the column and the row behind it, so the last ones of the raster start none.
  have hrows : min (b.y + b.height) (min (b.y + b.height + 1) size.2 - 1) = min (b.y + b.height) (size.2 - 1) := by
    omega
  have hcolumns : min (b.x + b.width) (min (b.x + b.width + 1) size.1 - 1) = min (b.x + b.width) (size.1 - 1) := by
    omega
  unfold cellCalls cells
  rw [rowEnd_eq h, columnEnd_eq h, asWord_of_lt (by omega), asWord_of_lt (by omega), hrows, hcolumns,
    List.map_flatMap]
  simp only [List.map_map, Function.comp_def]

/-- The samples of the rows are reported first. -/
theorem samples_rowCalls (h : b.SumsFit) (rows : List (List Point)) :
    (b.rowCalls size rows).filterMap SinkCall.sample? = b.samples size rows := by
  unfold rowCalls samples
  rw [List.filterMap_flatMap, rows_eq h]
  refine List.flatMap_congr fun y _ => ?_
  unfold vertexCalls
  rw [List.filterMap_map, columns_eq h]
  exact congrFun (List.filterMap_eq_map (f := fun x : ℕ × Point => (x.1 + y.1 * size.1, x.2))) _

/-- No cell is reported among the samples. -/
theorem cells_rowCalls (rows : List (List Point)) : (b.rowCalls size rows).filterMap SinkCall.cell? = [] := by
  unfold rowCalls
  rw [List.filterMap_flatMap, List.flatMap_eq_nil_iff]
  intro y _
  unfold vertexCalls
  rw [List.filterMap_map]
  exact List.filterMap_eq_nil_iff.2 fun _ _ => rfl

/-- The cells are reported last. -/
theorem cells_cellCalls (h : b.SumsFit) :
    (b.cellCalls size).filterMap SinkCall.cell? = (b.cells size).map (cellEntry size.1) := by
  rw [cellCalls_eq h, List.filterMap_map]
  exact congrFun (List.filterMap_eq_map (f := cellEntry size.1)) _

/-- No sample is reported among the cells. -/
theorem samples_cellCalls (h : b.SumsFit) : (b.cellCalls size).filterMap SinkCall.sample? = [] := by
  rw [cellCalls_eq h, List.filterMap_map]
  exact List.filterMap_eq_nil_iff.2 fun _ _ => rfl

/-! ### Sums that do not fit -/

/-- If a sum does not fit, no column or no row is left to read. -/
theorem end_le_start (size : ℕ × ℕ) (hb : b.Bounded) (h : ¬ b.SumsFit) :
    b.columnEnd size ≤ b.x ∨ b.rowEnd size ≤ b.y := by
  unfold columnEnd rowEnd
  rcases not_and_or.1 h with hx | hy
  · exact Or.inl (Nat.le_trans (Nat.min_le_left ..) (asWord_le_start (Nat.not_lt.1 hx) hb.x hb.width))
  · exact Or.inr (Nat.le_trans (Nat.min_le_left ..) (asWord_le_start (Nat.not_lt.1 hy) hb.y hb.height))

/-- A block of which a sum does not fit reports no sample. -/
theorem rowCalls_eq_nil (hb : b.Bounded) (h : ¬ b.SumsFit) (rows : List (List Point)) : b.rowCalls size rows = [] := by
  unfold rowCalls
  -- Either no column is read of any row, or no row is read at all.
  rcases end_le_start size hb h with hx | hy
  · have hcolumns : b.columns size = [] := by
      rw [columns, Nat.sub_eq_zero_of_le hx]
      rfl
    rw [List.flatMap_eq_nil_iff]
    intro x _
    rw [vertexCalls, hcolumns]
    rfl
  · have hrows : b.rows size = [] := by
      rw [Block.rows, Nat.sub_eq_zero_of_le hy]
      rfl
    rw [hrows]
    rfl

/-- A block of which a sum does not fit reports no cell. -/
theorem cellCalls_eq_nil (hb : b.Bounded) (h : ¬ b.SumsFit) : b.cellCalls size = [] := by
  unfold cellCalls
  rcases end_le_start size hb h with hx | hy
  · have hnone : min (asWord (b.x + b.width)) (b.columnEnd size - 1) - b.x = 0 := by omega
    rw [hnone, List.flatMap_eq_nil_iff]
    exact fun y _ => rfl
  · have hnone : min (asWord (b.y + b.height)) (b.rowEnd size - 1) - b.y = 0 := by omega
    rw [hnone]
    rfl

end Block

/-! ## Scripts -/

namespace Script

variable (size : ℕ × ℕ) (script : Script)

/-- The samples of a script, by id. -/
def samples : List (ℕ × Point) := script.flatMap fun x => x.1.samples size x.2

/-- The cells of a script, by id. -/
def cells : List (ℕ × List ℕ) := (script.flatMap fun x => x.1.cells size).map (Block.cellEntry size.1)

/-- The blocks of a script whose sums fit, with their rows. -/
def fitting : Script := script.filter fun x => x.1.SumsFit

variable {size script}

/-- The sums of the blocks that are kept fit. -/
theorem sumsFit_of_mem_fitting {x : Block × List (List Point)} (hx : x ∈ script.fitting) : x.1.SumsFit :=
  of_decide_eq_true (List.mem_filter.1 hx).2

/-- The vertices among the calls are the samples. -/
theorem samples_calls (h : ∀ x ∈ script, x.1.SumsFit) :
    (calls size script).filterMap SinkCall.sample? = samples size script := by
  unfold calls samples
  rw [List.filterMap_flatMap]
  refine List.flatMap_congr fun x hx => ?_
  rw [List.filterMap_append, Block.samples_rowCalls (h x hx), Block.samples_cellCalls (h x hx), List.append_nil]

/-- The other calls are the cells. -/
theorem cells_calls (h : ∀ x ∈ script, x.1.SumsFit) :
    (calls size script).filterMap SinkCall.cell? = cells size script := by
  unfold calls cells
  rw [List.filterMap_flatMap, List.map_flatMap]
  refine List.flatMap_congr fun x hx => ?_
  rw [List.filterMap_append, Block.cells_rowCalls, Block.cells_cellCalls (h x hx), List.nil_append]

/-- Blocks whose sums do not fit are left out of the calls without a trace. -/
theorem calls_fitting (h : ∀ x ∈ script, x.1.Bounded) : calls size script.fitting = calls size script := by
  induction script with
  | nil => rfl
  | cons x rest ih =>
    obtain ⟨hx, hrest⟩ := List.forall_mem_cons.1 h
    have hcons : calls size (x :: rest) = (x.1.rowCalls size x.2 ++ x.1.cellCalls size) ++ calls size rest :=
      List.flatMap_cons ..
    -- A block whose sums do not fit is left out, and it had no calls.
    by_cases hfit : x.1.SumsFit
    · have hkept : fitting (x :: rest) = x :: fitting rest := List.filter_cons_of_pos (decide_eq_true hfit)
      rw [hkept, hcons, ← ih hrest]
      exact List.flatMap_cons ..
    · have hleft : fitting (x :: rest) = fitting rest := List.filter_cons_of_neg (by simpa using hfit)
      rw [hleft, ih hrest, hcons, Block.rowCalls_eq_nil hx hfit, Block.cellCalls_eq_nil hx hfit]
      rfl

end Script

end RegionMesh
