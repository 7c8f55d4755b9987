import RegionMesh.Proofs.Raster.Reported
import RegionMesh.Proofs.Sink.Recorded
import RegionMesh.Raster.Memory

/-!
# The calls of a block

A block that is read is reported in a fixed order (`Block.Schedule`): its samples row by row, the closing row and column
included as far as the raster has them, and then its cells row by row. A sink that accepts all these calls has got the
block. Otherwise the reading is cut short (`BlockReader.CutShort`) by the reader, by a row that is too short or by the
sink, and the sink has accepted the calls up to there and no others (`BlockReader.readBlock_calls`).

The rows that the reader gives are named by their numbers here, so that what is said of a sample names its column and
row. As no row is asked for twice, there always is such a naming (`BlockReader.ReadsRows.exists_row`).
-/

namespace RegionMesh

/-- Places are listed row by row, and column by column within a row. -/
def RowMajor (l : List (ℕ × ℕ)) : Prop := l.Pairwise fun p q => p.2 < q.2 ∨ p.2 = q.2 ∧ p.1 < q.1

/-- Places that are listed by rows and by columns are in order. -/
theorem rowMajor_flatMap {ys xs : List ℕ} (hys : ys.Pairwise (· < ·)) (hxs : xs.Pairwise (· < ·)) :
    RowMajor (ys.flatMap fun y => xs.map fun x => (x, y)) := by
  refine List.pairwise_flatMap.2 ⟨fun y _ => ?_, hys.imp fun {y y'} hlt => ?_⟩
  · exact List.pairwise_map.2 (hxs.imp fun hlt => Or.inr ⟨rfl, hlt⟩)
  · intro p hp q hq
    obtain ⟨_, -, rfl⟩ := List.mem_map.1 hp
    obtain ⟨_, -, rfl⟩ := List.mem_map.1 hq
    exact Or.inl hlt

namespace Block

variable (b : Block) (size : ℕ × ℕ)

/-- The call that reports the sample at a place, if its row is as given. -/
def sampleCall (w : ℕ) (row : ℕ → List Point) (p : ℕ × ℕ) : SinkCall :=
  .vertex ((row p.2).getD (p.1 - b.x) default) (p.1 + p.2 * w)

/-- The call that reports the cell that starts at a place. -/
def cellCall (w : ℕ) (p : ℕ × ℕ) : SinkCall :=
  .cell ⟨p.1 + p.2 * w, p.1 + 1 + p.2 * w, p.1 + 1 + (p.2 + 1) * w, p.1 + (p.2 + 1) * w⟩ (p.1 + p.2 * w)

/-- The places whose samples and cells are reported for a block. -/
structure Schedule (samples cells : List (ℕ × ℕ)) : Prop where
  /-- The samples are those of the block and of the row and the column behind it, as far as the raster has them. -/
  mem_samples : ∀ x y, (x, y) ∈ samples ↔
    (b.x ≤ x ∧ x < min (b.x + b.width + 1) size.1) ∧ b.y ≤ y ∧ y < min (b.y + b.height + 1) size.2
  /-- They are reported row by row, each of them once. -/
  samples_sorted : RowMajor samples
  /-- The cells are those of the block that have a sample to the right of them and one below. -/
  mem_cells : ∀ x y, (x, y) ∈ cells ↔
    (b.x ≤ x ∧ x < min (b.x + b.width) (size.1 - 1)) ∧ b.y ≤ y ∧ y < min (b.y + b.height) (size.2 - 1)
  /-- They are reported row by row, each of them once. -/
  cells_sorted : RowMajor cells
  /-- The corners of a cell are among the samples. -/
  corners : ∀ p ∈ cells, ∀ q id, cellCall size.1 p = .cell q id →
    ∀ i ∈ q.toList, ∃ s ∈ samples, s.1 + s.2 * size.1 = i

/-- The places of the samples that are read for a block. -/
def places : List (ℕ × ℕ) := (b.rows size).flatMap fun y => (b.columns size).map fun x => (x, y)

/-- The calls that report the samples of some rows. -/
def reportRows (row : ℕ → List Point) (ys : List ℕ) : List SinkCall :=
  ys.flatMap fun y => b.vertexCalls size y (row y)

/-- As many columns are read as there are from the first one up to the end. -/
theorem length_columns : (b.columns size).length = b.columnEnd size - b.x := by
  rw [columns, List.length_range']

variable {b size}

/-- If the sums of a block fit, the places that are read are those of the schedule. -/
theorem schedule_places (hfit : b.SumsFit) : b.Schedule size (b.places size) (b.cells size) := by
  have hmem : ∀ x y, (x, y) ∈ b.places size ↔ b.Reaches size x y := by
    intro x y
    rw [reaches_iff, ← columns_eq hfit, ← rows_eq hfit]
    simp [places, and_comm]
  constructor
  case mem_samples =>
    intro x y
    rw [hmem, Reaches]
    omega
  case samples_sorted => exact rowMajor_flatMap List.pairwise_lt_range' List.pairwise_lt_range'
  case mem_cells =>
    intro x y
    rw [Block.mem_cells, HasCell]
    omega
  case cells_sorted => exact rowMajor_flatMap List.pairwise_lt_range' List.pairwise_lt_range'
  case corners =>
    rintro ⟨x, y⟩ hp q id hq i hi
    obtain ⟨rfl, -⟩ := SinkCall.cell.inj hq
    rw [Block.mem_cells, HasCell] at hp
    -- The corners of a cell lie in its own column and row or in the next ones, which are read with the block.
    have hplace : ∀ x' y', (x' = x ∨ x' = x + 1) → (y' = y ∨ y' = y + 1) → (x', y') ∈ b.places size := by
      intro x' y' hx hy
      rw [hmem, Reaches]
      omega
    simp only [Quad.toList, List.mem_cons, List.not_mem_nil, or_false] at hi
    rcases hi with rfl | rfl | rfl | rfl
    · exact ⟨(x, y), hplace _ _ (.inl rfl) (.inl rfl), rfl⟩
    · exact ⟨(x + 1, y), hplace _ _ (.inr rfl) (.inl rfl), rfl⟩
    · exact ⟨(x + 1, y + 1), hplace _ _ (.inr rfl) (.inr rfl), rfl⟩
    · exact ⟨(x, y + 1), hplace _ _ (.inl rfl) (.inr rfl), rfl⟩

/-- The cells are reported as scheduled. -/
theorem cellCalls_eq_map (hfit : b.SumsFit) : b.cellCalls size = (b.cells size).map (cellCall size.1) :=
  cellCalls_eq hfit

/-- A row that is long enough is reported sample by sample. -/
theorem vertexCalls_eq_map {row : ℕ → List Point} {y : ℕ} (h : b.columnEnd size - b.x ≤ (row y).length) :
    b.vertexCalls size y (row y) = (b.columns size).map fun x => b.sampleCall size.1 row (x, y) := by
  unfold vertexCalls
  refine List.ext_getElem ?_ fun i hi hi' => ?_
  · rw [List.length_map, List.length_map, List.length_zip, length_columns]
    omega
  · rw [List.length_map, length_columns] at hi'
    have hrow : i < (row y).length := by omega
    simp [columns, sampleCall, hrow]

/-- Rows that are all long enough are reported as scheduled. -/
theorem reportRows_eq_map {row : ℕ → List Point} {ys : List ℕ}
    (h : ∀ y ∈ ys, b.columnEnd size - b.x ≤ (row y).length) : b.reportRows size row ys =
      (ys.flatMap fun y => (b.columns size).map fun x => (x, y)).map (b.sampleCall size.1 row) := by
  unfold reportRows
  rw [List.map_flatMap]
  refine List.flatMap_congr fun y hy => ?_
  rw [vertexCalls_eq_map (h y hy), List.map_map]
  rfl

end Block

/-- A raster of four columns and three rows that is read in squares of four samples. -/
def Raster.inSquares : Raster where
  width := 4
  height := 3
  tiling := ⟨2, 2, by decide, by decide⟩
  order := [(0, 0), (1, 0), (0, 1), (1, 1)]

namespace BlockReader

variable {ρ σ : Type} [RasterReader ρ]

/-! ## Rows by number -/

/-- None of the rows that are given is too short. -/
theorem ReadsRows.le_length {columns : ℕ} {r r' : ρ} {ys : List ℕ} {row : ℕ → List Point}
    (h : ReadsRows columns r ys (ys.map row) r') : ∀ y ∈ ys, columns ≤ (row y).length := by
  induction ys generalizing r with
  | nil => simp
  | cons y ys ih =>
    cases h with
    | cons hrow hlength hrest => exact List.forall_mem_cons.2 ⟨hlength, ih hrest⟩

/-- Rows with different numbers can be named by them. -/
theorem ReadsRows.exists_row {columns : ℕ} {r r' : ρ} {ys : List ℕ} {rows : List (List Point)}
    (h : ReadsRows columns r ys rows r') (hn : ys.Nodup) (other : ℕ → List Point) :
    ∃ row, rows = ys.map row ∧ ∀ y ∉ ys, row y = other y := by
  induction h with
  | nil r => exact ⟨other, rfl, fun _ _ => rfl⟩
  | @cons r r₁ r' y ys samples rows hrow hlength hrest ih =>
    obtain ⟨hy, hn⟩ := List.nodup_cons.1 hn
    obtain ⟨row, rfl, hother⟩ := ih hn
    -- The first row has a number of its own, so that it changes none of the others.
    refine ⟨Function.update row y samples, ?_, fun z hz => ?_⟩
    · have hkept : ys.map (Function.update row y samples) = ys.map row :=
        List.map_congr_left fun z hz => Function.update_of_ne (ne_of_mem_of_not_mem hz hy) _ _
      rw [List.map_cons, Function.update_self, hkept]
    · obtain ⟨hzy, hz⟩ := not_or.1 (mt List.mem_cons.2 hz)
      rw [Function.update_of_ne hzy, hother z hz]

/-- Rows that are named by their numbers are reported by number. -/
theorem rowCalls_map (b : Block) (size : ℕ × ℕ) (row : ℕ → List Point) (ys : List ℕ) :
    ((ys.zip (ys.map row)).flatMap fun x => b.vertexCalls size x.1 x.2) = b.reportRows size row ys := by
  unfold Block.reportRows
  induction ys with
  | nil => rfl
  | cons y ys ih => rw [List.map_cons, List.zip_cons_cons, List.flatMap_cons, List.flatMap_cons, ih]

/-! ## Reading that is cut short -/

section Reading

variable [CellSink σ]

/-- The reading of a block ends early with a failure. The rows that the reader has given are named by their numbers, and
the last argument lists the calls that the sink has accepted. -/
inductive CutShort (size : ℕ × ℕ) (b : Block) (row : ℕ → List Point) (r : ρ) (s : σ) :
    Failure → ρ → σ → List SinkCall → Prop
  /-- The reader fails at a row. -/
  | reader {before after : List ℕ} {y : ℕ} {r₁ r' : ρ} {s' : σ} {e : Failure}
      (hrows : b.rows size = before ++ y :: after)
      (hread : ReadsRows (b.columnEnd size - b.x) r before (before.map row) r₁)
      (htake : CellSink.acceptAll (b.reportRows size row before) s = (.ok (), s'))
      (hfail : BlockReader.row y r₁ = (.error e, r')) :
    CutShort size b row r s e r' s' (b.reportRows size row before)
  /-- A row is shorter than the columns that are read for the block. -/
  | short {before after : List ℕ} {y : ℕ} {r₁ r' : ρ} {s' : σ}
      (hrows : b.rows size = before ++ y :: after)
      (hread : ReadsRows (b.columnEnd size - b.x) r before (before.map row) r₁)
      (htake : CellSink.acceptAll (b.reportRows size row before) s = (.ok (), s'))
      (hgive : BlockReader.row y r₁ = (.ok (row y), r'))
      (hshort : (row y).length < b.columnEnd size - b.x) :
    CutShort size b row r s (.raster (.shortRow y (b.columnEnd size - b.x) (row y).length)) r' s'
      (b.reportRows size row before)
  /-- The sink refuses a sample. -/
  | sample {before after : List ℕ} {y : ℕ} {done left : List SinkCall} {call : SinkCall} {r₁ r' : ρ} {s₁ s' : σ}
      {e : Failure} (hrows : b.rows size = before ++ y :: after)
      (hread : ReadsRows (b.columnEnd size - b.x) r before (before.map row) r₁)
      (hgive : BlockReader.row y r₁ = (.ok (row y), r'))
      (hlength : b.columnEnd size - b.x ≤ (row y).length)
      (hcalls : b.vertexCalls size y (row y) = done ++ call :: left)
      (htake : CellSink.acceptAll (b.reportRows size row before ++ done) s = (.ok (), s₁))
      (hrefuse : CellSink.accept call s₁ = (.error e, s')) :
    CutShort size b row r s e r' s' (b.reportRows size row before ++ done)
  /-- The sink refuses a cell. -/
  | cell {done left : List SinkCall} {call : SinkCall} {r' : ρ} {s₁ s' : σ} {e : Failure}
      (hread : ReadsRows (b.columnEnd size - b.x) r (b.rows size) ((b.rows size).map row) r')
      (hcalls : b.cellCalls size = done ++ call :: left)
      (htake : CellSink.acceptAll (b.reportRows size row (b.rows size) ++ done) s = (.ok (), s₁))
      (hrefuse : CellSink.accept call s₁ = (.error e, s')) :
    CutShort size b row r s e r' s' (b.reportRows size row (b.rows size) ++ done)

variable {size : ℕ × ℕ} {b : Block} {r r₁ r' : ρ} {s s' : σ} {e : Failure}

/-- A row is not read into a sink if the reader fails, if it is too short, or if the sink refuses one of its samples. -/
theorem readRow_eq_error {y : ℕ} : readRow size b y (r, s) = (.error e, r', s') ↔
    row y r = (.error e, r') ∧ s' = s ∨ ∃ samples, row y r = (.ok samples, r') ∧
      (samples.length < (b.columns size).length ∧ s' = s ∧
          e = .raster (.shortRow y (b.columns size).length samples.length) ∨
        (b.columns size).length ≤ samples.length ∧
          CellSink.acceptAll (b.vertexCalls size y samples) s = (.error e, s')) := by
  unfold readRow
  rw [Action.bind_eq_error]
  constructor
  · rintro (hfail | ⟨samples, ⟨r₁, s₁⟩, hfirst, hrest⟩)
    · exact Or.inl (Action.onFirst_eq_error.1 hfail)
    · obtain ⟨hrow, rfl⟩ := Action.onFirst_eq_ok.1 hfirst
      -- The length of the row is looked at when the reader has given it, and before the sink gets a sample.
      by_cases hshort : samples.length < (b.columns size).length
      · rw [if_pos hshort] at hrest
        obtain ⟨he, hstate⟩ := Prod.mk.inj hrest
        obtain ⟨rfl, rfl⟩ := Prod.mk.inj hstate
        exact Or.inr ⟨samples, hrow, Or.inl ⟨hshort, rfl, (Except.error.inj he).symm⟩⟩
      · rw [if_neg hshort] at hrest
        obtain ⟨rfl, htake⟩ := Action.onSecond_eq_error.1 hrest
        exact Or.inr ⟨samples, hrow, Or.inr ⟨Nat.not_lt.1 hshort, htake⟩⟩
  · rintro (hfail | ⟨samples, hrow, ⟨hshort, rfl, rfl⟩ | ⟨hlength, htake⟩⟩)
    · exact Or.inl (Action.onFirst_eq_error.2 hfail)
    · refine Or.inr ⟨samples, (r', s'), Action.onFirst_eq_ok.2 ⟨hrow, rfl⟩, ?_⟩
      rw [if_pos hshort]
      rfl
    · refine Or.inr ⟨samples, (r', s), Action.onFirst_eq_ok.2 ⟨hrow, rfl⟩, ?_⟩
      rw [if_neg (Nat.not_lt.2 hlength)]
      exact Action.onSecond_eq_error.2 ⟨rfl, htake⟩

/-- A block with columns is read row by row, and then its cells are reported. -/
theorem readBlock_apply (hblock : nextBlock r = (.ok (some b), r₁)) (hwidth : 0 < b.width) :
    readBlock size (r, s) = ((b.rows size).forM (readRow size b) >>= fun _ =>
      (CellSink.acceptAll (b.cellCalls size)).onSecond >>= fun _ => pure true) (r₁, s) := by
  unfold readBlock
  have hfirst : (nextBlock : Action Failure ρ _).onFirst (r, s) = (.ok (some b), r₁, s) :=
    Action.onFirst_eq_ok.2 ⟨hblock, rfl⟩
  rw [Action.bind_apply_of_ok hfirst]
  simp only [Nat.ne_of_gt hwidth, if_false]

/-- Reading a block with columns succeeds if the reader gives its rows and the sink accepts its calls. -/
theorem readBlock_eq_ok_of_block (hblock : nextBlock r = (.ok (some b), r₁)) (hwidth : 0 < b.width) {more : Bool} :
    readBlock size (r, s) = (.ok more, r', s') ↔ more = true ∧ ∃ row : ℕ → List Point,
      ReadsRows (b.columnEnd size - b.x) r₁ (b.rows size) ((b.rows size).map row) r' ∧
        CellSink.acceptAll (b.reportRows size row (b.rows size) ++ b.cellCalls size) s = (.ok (), s') := by
  rw [readBlock_apply hblock hwidth, Action.bind_eq_ok, ← Block.length_columns]
  constructor
  · rintro ⟨⟨⟩, ⟨r₂, s₂⟩, hrows, hrest⟩
    obtain ⟨⟨⟩, ⟨r₃, s₃⟩, hcells, hend⟩ := Action.bind_eq_ok.1 hrest
    obtain ⟨rows, hread, htake⟩ := readRows_eq_ok.1 hrows
    obtain ⟨rfl, htakeCells⟩ := Action.onSecond_eq_ok.1 hcells
    -- No row is read twice, so the rows that were read are given by a function of their numbers.
    obtain ⟨row, rfl, -⟩ := hread.exists_row (List.nodup_range' ..) fun _ => []
    obtain ⟨he, hstate⟩ := Prod.mk.inj hend
    obtain ⟨rfl, rfl⟩ := Prod.mk.inj hstate
    rw [rowCalls_map] at htake
    refine ⟨(Except.ok.inj he).symm, row, hread, ?_⟩
    rw [CellSink.acceptAll_append]
    exact (Action.bind_apply_of_ok htake _).trans htakeCells
  · rintro ⟨rfl, row, hread, htake⟩
    rw [CellSink.acceptAll_append, Action.bind_eq_ok] at htake
    obtain ⟨⟨⟩, s₂, htake, htakeCells⟩ := htake
    rw [← rowCalls_map] at htake
    refine ⟨(), (r', s₂), readRows_eq_ok.2 ⟨_, hread, htake⟩, ?_⟩
    exact Action.bind_eq_ok.2 ⟨(), (r', s'), Action.onSecond_eq_ok.2 ⟨rfl, htakeCells⟩, rfl⟩

/-- A block whose rows are not all read into a sink is cut short at one of them. -/
theorem exists_cutShort_of_rows (h : (b.rows size).forM (readRow size b) (r, s) = (.error e, r', s')) :
    ∃ row calls, CutShort size b row r s e r' s' calls := by
  obtain ⟨before, y, after, ⟨r₁, s₁⟩, hrows, hbefore, hy⟩ := Action.forM_eq_error.1 h
  obtain ⟨rows, hread, htake⟩ := readRows_eq_ok.1 hbefore
  rw [Block.length_columns] at hread
  have hnodup : (before ++ y :: after).Nodup := hrows ▸ List.nodup_range' ..
  have hnew : y ∉ before := fun hy => (List.nodup_append.1 hnodup).2.2 y hy y (List.mem_cons_self ..) rfl
  rcases readRow_eq_error.1 hy with ⟨hfail, rfl⟩ | ⟨samples, hgive, hrest⟩
  · obtain ⟨row, rfl, -⟩ := hread.exists_row hnodup.of_append_left fun _ => []
    rw [rowCalls_map] at htake
    exact ⟨row, _, .reader hrows hread htake hfail⟩
  · -- The row that was given last is named as well.
    obtain ⟨row, rfl, hrow⟩ := hread.exists_row hnodup.of_append_left fun _ => samples
    obtain rfl : row y = samples := hrow y hnew
    rw [rowCalls_map] at htake
    rw [Block.length_columns] at hrest
    rcases hrest with ⟨hshort, rfl, rfl⟩ | ⟨hlength, herror⟩
    · exact ⟨row, _, .short hrows hread htake hgive hshort⟩
    · obtain ⟨done, call, left, s₂, hcalls, hdone, hrefuse⟩ := Action.forM_eq_error.1 herror
      refine ⟨row, _, .sample hrows hread hgive hlength hcalls ?_ hrefuse⟩
      rw [CellSink.acceptAll_append]
      exact (Action.bind_apply_of_ok htake _).trans hdone

/-- Rows that the reader gives and the sink takes are read. -/
theorem forM_readRow_of_reads {row : ℕ → List Point} {before : List ℕ}
    (hread : ReadsRows (b.columnEnd size - b.x) r before (before.map row) r')
    (htake : CellSink.acceptAll (b.reportRows size row before) s = (.ok (), s')) :
    before.forM (readRow size b) (r, s) = (.ok (), r', s') := by
  rw [← Block.length_columns] at hread
  rw [← rowCalls_map] at htake
  exact readRows_eq_ok.2 ⟨_, hread, htake⟩

/-- A block with columns that is cut short is not read to its end. -/
theorem CutShort.readBlock_eq_error {row : ℕ → List Point} {calls : List SinkCall}
    (hcut : CutShort size b row r₁ s e r' s' calls) (hblock : nextBlock r = (.ok (some b), r₁))
    (hwidth : 0 < b.width) : readBlock size (r, s) = (.error e, r', s') := by
  rw [readBlock_apply hblock hwidth, Action.bind_eq_error]
  -- In the first three cases the rows fail, and in the last one the cells do when all rows are read.
  cases hcut with
  | reader hrows hread htake hfail =>
    refine Or.inl (Action.forM_eq_error.2 ⟨_, _, _, _, hrows, forM_readRow_of_reads hread htake, ?_⟩)
    exact readRow_eq_error.2 (Or.inl ⟨hfail, rfl⟩)
  | short hrows hread htake hgive hshort =>
    refine Or.inl (Action.forM_eq_error.2 ⟨_, _, _, _, hrows, forM_readRow_of_reads hread htake, ?_⟩)
    rw [← Block.length_columns] at hshort ⊢
    exact readRow_eq_error.2 (Or.inr ⟨_, hgive, Or.inl ⟨hshort, rfl, rfl⟩⟩)
  | sample hrows hread hgive hlength hcalls htake hrefuse =>
    rw [CellSink.acceptAll_append, Action.bind_eq_ok] at htake
    obtain ⟨⟨⟩, s₂, htake, hdone⟩ := htake
    refine Or.inl (Action.forM_eq_error.2 ⟨_, _, _, _, hrows, forM_readRow_of_reads hread htake, ?_⟩)
    rw [← Block.length_columns] at hlength
    refine readRow_eq_error.2 (Or.inr ⟨_, hgive, Or.inr ⟨hlength, ?_⟩⟩)
    exact Action.forM_eq_error.2 ⟨_, _, _, _, hcalls, hdone, hrefuse⟩
  | cell hread hcalls htake hrefuse =>
    rw [CellSink.acceptAll_append, Action.bind_eq_ok] at htake
    obtain ⟨⟨⟩, s₂, htake, hdone⟩ := htake
    refine Or.inr ⟨(), _, forM_readRow_of_reads hread htake, Action.bind_eq_error.2 (Or.inl ?_)⟩
    refine Action.onSecond_eq_error.2 ⟨rfl, ?_⟩
    exact Action.forM_eq_error.2 ⟨_, _, _, _, hcalls, hdone, hrefuse⟩

/-- Reading a block with columns fails exactly if it is cut short. -/
theorem readBlock_eq_error (hblock : nextBlock r = (.ok (some b), r₁)) (hwidth : 0 < b.width) :
    readBlock size (r, s) = (.error e, r', s') ↔ ∃ row calls, CutShort size b row r₁ s e r' s' calls := by
  constructor
  · intro h
    rw [readBlock_apply hblock hwidth, Action.bind_eq_error] at h
    rcases h with hrows | ⟨⟨⟩, ⟨r₂, s₂⟩, hrows, hrest⟩
    · exact exists_cutShort_of_rows hrows
    -- All rows were read, so it is the sink that refuses a cell.
    · obtain ⟨rows, hread, htake⟩ := readRows_eq_ok.1 hrows
      obtain ⟨row, rfl, -⟩ := hread.exists_row (List.nodup_range' ..) fun _ => []
      rw [rowCalls_map] at htake
      rw [Block.length_columns] at hread
      rcases Action.bind_eq_error.1 hrest with hcells | ⟨_, _, _, hend⟩
      · obtain ⟨rfl, herror⟩ := Action.onSecond_eq_error.1 hcells
        obtain ⟨done, call, left, s₃, hcalls, hdone, hrefuse⟩ := Action.forM_eq_error.1 herror
        refine ⟨row, _, .cell hread hcalls ?_ hrefuse⟩
        rw [CellSink.acceptAll_append]
        exact (Action.bind_apply_of_ok htake _).trans hdone
      · cases (Prod.mk.inj hend).1
  · rintro ⟨row, calls, hcut⟩
    exact hcut.readBlock_eq_error hblock hwidth

end Reading

/-! ## The accepted calls -/

section Accepted

variable {size : ℕ × ℕ} {b : Block} {r r₁ r' : ρ} {e : Failure} {row : ℕ → List Point} {calls : List SinkCall}

/-- A recorded sink is cut short where the sink is, and its record has got the accepted calls. -/
theorem cutShort_recorded [CellSink σ] {s s' : Recorded σ} : CutShort size b row r s e r' s' calls ↔
    s'.calls = s.calls ++ calls ∧ CutShort size b row r s.sink e r' s'.sink calls := by
  constructor
  · intro h
    -- What the sink accepted before is in its record, and the call that it refuses is not.
    cases h with
    | reader hrows hread htake hfail =>
      obtain ⟨htake, hcalls⟩ := Recorded.acceptAll_eq_ok.1 htake
      exact ⟨hcalls, .reader hrows hread htake hfail⟩
    | short hrows hread htake hgive hshort =>
      obtain ⟨htake, hcalls⟩ := Recorded.acceptAll_eq_ok.1 htake
      exact ⟨hcalls, .short hrows hread htake hgive hshort⟩
    | sample hrows hread hgive hlength hline htake hrefuse =>
      obtain ⟨htake, hcalls⟩ := Recorded.acceptAll_eq_ok.1 htake
      obtain ⟨hrefuse, hkept⟩ := Recorded.accept_eq_error.1 hrefuse
      exact ⟨hkept.trans hcalls, .sample hrows hread hgive hlength hline htake hrefuse⟩
    | cell hread hline htake hrefuse =>
      obtain ⟨htake, hcalls⟩ := Recorded.acceptAll_eq_ok.1 htake
      obtain ⟨hrefuse, hkept⟩ := Recorded.accept_eq_error.1 hrefuse
      exact ⟨hkept.trans hcalls, .cell hread hline htake hrefuse⟩
  · obtain ⟨sink', calls'⟩ := s'
    rintro ⟨rfl, h⟩
    cases h with
    | reader hrows hread htake hfail =>
      exact .reader hrows hread (Recorded.acceptAll_of_ok htake) hfail
    | short hrows hread htake hgive hshort =>
      exact .short hrows hread (Recorded.acceptAll_of_ok htake) hgive hshort
    | sample hrows hread hgive hlength hline htake hrefuse =>
      exact .sample hrows hread hgive hlength hline (Recorded.acceptAll_of_ok htake)
        (Recorded.accept_eq_error.2 ⟨hrefuse, rfl⟩)
    | cell hread hline htake hrefuse =>
      exact .cell hread hline (Recorded.acceptAll_of_ok htake) (Recorded.accept_eq_error.2 ⟨hrefuse, rfl⟩)

/-- Reading that is cut short stops within the samples, or within the cells behind all of them. -/
theorem CutShort.stops [CellSink σ] {s s' : σ} (hfit : b.SumsFit) (h : CutShort size b row r s e r' s' calls) :
    calls <+: (b.places size).map (b.sampleCall size.1 row) ∨
      ∃ done, done <+: (b.cells size).map (Block.cellCall size.1) ∧
        calls = (b.places size).map (b.sampleCall size.1 row) ++ done := by
  have hplaces : ∀ {before after : List ℕ}, b.rows size = before ++ after →
      (b.places size).map (b.sampleCall size.1 row) =
        (before.flatMap fun y => (b.columns size).map fun x => (x, y)).map (b.sampleCall size.1 row) ++
          (after.flatMap fun y => (b.columns size).map fun x => (x, y)).map (b.sampleCall size.1 row) := by
    intro before after hrows
    rw [Block.places, hrows, List.flatMap_append, List.map_append]
  cases h with
  | reader hrows hread | short hrows hread =>
    rw [Block.reportRows_eq_map hread.le_length, hplaces hrows]
    exact Or.inl (List.prefix_append ..)
  | @sample before after y done left call _ _ _ _ _ hrows hread _ hlength hline =>
    -- The row in which the sink has refused a sample is long enough to be reported as scheduled.
    rw [Block.vertexCalls_eq_map hlength] at hline
    rw [Block.reportRows_eq_map hread.le_length, hplaces hrows, List.flatMap_cons, List.map_append, List.map_map]
    refine Or.inl ((List.prefix_append_right_inj _).2 ?_)
    rw [show (b.columns size).map (b.sampleCall size.1 row ∘ fun x => (x, y)) = done ++ call :: left from hline,
      List.append_assoc]
    exact List.prefix_append ..
  | cell hread hline =>
    rw [Block.cellCalls_eq_map hfit] at hline
    refine Or.inr ⟨_, hline ▸ List.prefix_append .., ?_⟩
    rw [Block.reportRows_eq_map hread.le_length]
    rfl

/-- What reading a block has done, if it has ended with an answer and the sink has got a record. The samples and the
cells are those that are to be reported. -/
structure BlockRead [CellSink σ] (size : ℕ × ℕ) (b : Block) (r : ρ) (s : σ) (samples cells : List (ℕ × ℕ))
    (answer : Except Failure Bool) (r' : ρ) (t : Recorded σ) : Prop where
  /-- If reading succeeds, the reader has given all rows, none of them too short, and the sink has accepted all samples
  and then all cells. -/
  ok : ∀ more, answer = .ok more → more = true ∧ ∃ row : ℕ → List Point,
    ReadsRows (b.columnEnd size - b.x) r (b.rows size) ((b.rows size).map row) r' ∧
      t.calls = samples.map (b.sampleCall size.1 row) ++ cells.map (Block.cellCall size.1)
  /-- If it fails, it was cut short. The sink has accepted a part of these calls, from the first one on, and no cell
  unless it has accepted all samples. -/
  error : ∀ e, answer = .error e → ∃ row : ℕ → List Point, CutShort size b row r s e r' t.sink t.calls ∧
    t.calls <+: samples.map (b.sampleCall size.1 row) ++ cells.map (Block.cellCall size.1) ∧
    ∀ q id, .cell q id ∈ t.calls → samples.map (b.sampleCall size.1 row) <+: t.calls
  /-- Where it is cut short, by the reader, by the first row that is too short or by the sink, it fails accordingly. -/
  cut : ∀ row e r'' s'' calls, CutShort size b row r s e r'' s'' calls →
    answer = .error e ∧ r' = r'' ∧ t = ⟨s'', calls⟩

/-- A recorded sink takes a block as it does without the record. -/
theorem readBlock_recorded [CellSink σ] {s : σ} {t : Recorded σ} {answer : Except Failure Bool}
    (hblock : nextBlock r = (.ok (some b), r₁)) (hwidth : 0 < b.width)
    (hread : readBlock size (r, Recorded.start s) = (answer, r', t)) :
    readBlock size (r, s) = (answer, r', t.sink) := by
  cases answer with
  | ok more =>
    obtain ⟨rfl, row, hrows, htake⟩ := (readBlock_eq_ok_of_block hblock hwidth).1 hread
    exact (readBlock_eq_ok_of_block hblock hwidth).2 ⟨rfl, row, hrows, (Recorded.acceptAll_eq_ok.1 htake).1⟩
  | error e =>
    obtain ⟨row, calls, hcut⟩ := (readBlock_eq_error hblock hwidth).1 hread
    exact (readBlock_eq_error hblock hwidth).2 ⟨row, calls, (cutShort_recorded.1 hcut).2⟩

/-- A block with columns whose sums fit in words is read in a fixed order. A sink gets all samples of the block and of
the row and the column behind it, and then all cells of the block, or a part of these calls from the first one on, if
the reader or the sink fails or a row is too short. -/
theorem readBlock_calls [CellSink σ] {s : σ} {t : Recorded σ} {answer : Except Failure Bool}
    (hblock : nextBlock r = (.ok (some b), r₁)) (hwidth : 0 < b.width) (hfit : b.SumsFit)
    (hread : readBlock size (r, Recorded.start s) = (answer, r', t)) :
    (b.columnEnd size = min (b.x + b.width + 1) size.1 ∧ b.rowEnd size = min (b.y + b.height + 1) size.2) ∧
      readBlock size (r, s) = (answer, r', t.sink) ∧
      ∃ samples cells, b.Schedule size samples cells ∧ BlockRead size b r₁ s samples cells answer r' t := by
  refine ⟨⟨Block.columnEnd_eq hfit, Block.rowEnd_eq hfit⟩, readBlock_recorded hblock hwidth hread, _, _,
    Block.schedule_places hfit, ?_⟩
  constructor
  case ok =>
    rintro more rfl
    obtain ⟨hmore, row, hrows, htake⟩ := (readBlock_eq_ok_of_block hblock hwidth).1 hread
    refine ⟨hmore, row, hrows, ?_⟩
    rw [(Recorded.acceptAll_eq_ok.1 htake).2, Block.reportRows_eq_map hrows.le_length, Block.cellCalls_eq_map hfit]
    rfl
  case error =>
    rintro e rfl
    obtain ⟨row, calls, hcut⟩ := (readBlock_eq_error hblock hwidth).1 hread
    obtain ⟨hcalls, hcut⟩ := cutShort_recorded.1 hcut
    obtain rfl : t.calls = calls := hcalls
    refine ⟨row, hcut, ?_⟩
    rcases hcut.stops hfit with hsamples | ⟨done, hdone, hall⟩
    · refine ⟨hsamples.trans (List.prefix_append ..), fun q id hmem => ?_⟩
      -- There is no cell among samples.
      obtain ⟨_, -, he⟩ := List.mem_map.1 (hsamples.subset hmem)
      cases he
    · rw [hall]
      exact ⟨(List.prefix_append_right_inj _).2 hdone, fun _ _ _ => List.prefix_append ..⟩
  case cut =>
    intro row e r'' s'' calls hcut
    have hrun : readBlock size (r, Recorded.start s) = (.error e, r'', ⟨s'', calls⟩) :=
      (readBlock_eq_error hblock hwidth).2 ⟨row, calls, cutShort_recorded.2 ⟨rfl, hcut⟩⟩
    obtain ⟨he, hstate⟩ := Prod.mk.inj (hread.symm.trans hrun)
    exact ⟨he, Prod.mk.inj hstate⟩

/-- Its first square is read with a column to its right and a row below. -/
theorem readBlock_calls_inSquares : ∃ (r₁ r' : Raster) (b : Block) (t : Recorded CallLog),
    nextBlock Raster.inSquares = (.ok (some b), r₁) ∧ 0 < b.width ∧ b.SumsFit ∧
      readBlock (4, 3) (Raster.inSquares, Recorded.start ({} : CallLog)) = (.ok true, r', t) ∧
      readBlock (4, 3) (Raster.inSquares, ({} : CallLog)) = (.ok true, r', t.sink) ∧
      ∃ samples cells, b.Schedule (4, 3) samples cells ∧ BlockRead (4, 3) b r₁ {} samples cells (.ok true) r' t := by
  have hblock : nextBlock Raster.inSquares = (.ok (some ⟨0, 0, 2, 2⟩), _) := rfl
  have hok : (readBlock (4, 3) (Raster.inSquares, Recorded.start ({} : CallLog))).1 = .ok true := by decide +kernel
  rcases hread : readBlock (4, 3) (Raster.inSquares, Recorded.start ({} : CallLog)) with ⟨answer, r', t⟩
  obtain rfl : answer = .ok true := by
    rw [hread] at hok
    exact hok
  have hfit : (⟨0, 0, 2, 2⟩ : Block).SumsFit := by decide
  exact ⟨_, r', ⟨0, 0, 2, 2⟩, t, hblock, by decide, hfit, rfl, (readBlock_calls hblock (by decide) hfit hread).2⟩

end Accepted

end BlockReader

end RegionMesh
