import Mathlib.Data.List.Nodup
import Mathlib.Data.List.Pairwise
import RegionMesh.Proofs.Mesh.Strip
import RegionMesh.Proofs.Raster.Append
import RegionMesh.Proofs.Raster.Blocks

/-!
# What a raster in memory gives

A raster that was put together and read by its own operations (`Raster.Built`) has samples, bands of the right size, and
an order in which every block is in the grid of blocks and none comes twice (`Raster.Valid`). Read from the start, it
gives the blocks of its order with all their samples, and nothing fails (`Raster.Valid.reads`).

Which samples and cells are reported for the blocks whose sums fit is said by column and row
(`Raster.Valid.mem_samples`, `Raster.Valid.mem_cells`). The blocks of a tiling have no cell in common, so no cell comes
twice (`Raster.Valid.nodup_cells`).
-/

namespace RegionMesh

namespace Raster

/-- A raster to which only its own operations were applied, those that change it and those that read it. -/
inductive Built : Raster → Prop
  /-- A raster is made. -/
  | make {width height : ℕ} {r : Raster} (h : Raster.make width height = .ok r) : Built r
  /-- The samples are placed by another map. -/
  | withTransform {r : Raster} (h : Built r) (map : AffineMap) : Built (r.withTransform map)
  /-- The raster is tiled. -/
  | withTiling {r : Raster} (h : Built r) (t : Tiling) : Built (r.withTiling t)
  /-- The order of the blocks is given. -/
  | withOrder {r r' : Raster} (h : Built r) {order : List (ℕ × ℕ)} (h' : r.withOrder order = .ok r') : Built r'
  /-- The samples get elevations. -/
  | withElevation {r r' : Raster} (h : Built r) {band : Array Float} (h' : r.withElevation band = .ok r') : Built r'
  /-- The samples get classes. -/
  | withClasses {r r' : Raster} (h : Built r) {band : Array ℕ} (h' : r.withClasses band = .ok r') : Built r'
  /-- Reading starts again. -/
  | rewind {r : Raster} (h : Built r) : Built r.rewind
  /-- The next block is asked for. -/
  | nextBlock {r : Raster} (h : Built r) : Built (Raster.nextBlock r).2
  /-- A row is asked for. -/
  | row {r : Raster} (h : Built r) (y : ℕ) : Built (Raster.row y r).2

/-- What holds of a raster wherever reading has got to. -/
structure Valid (r : Raster) : Prop where
  /-- There are columns. -/
  width_pos : 0 < r.width
  /-- There are rows. -/
  height_pos : 0 < r.height
  /-- The blocks to be read are in the grid of blocks. -/
  order_lt : ∀ place ∈ r.order, place.1 < r.blockCounts.1 ∧ place.2 < r.blockCounts.2
  /-- No block is to be read twice. -/
  order_nodup : r.order.Nodup
  /-- There is an elevation for every sample, if for any. -/
  elevation_size : ∀ band, r.elevation = some band → band.size = r.width * r.height
  /-- There is a class for every sample, if for any. -/
  classes_size : ∀ band, r.classes = some band → band.size = r.width * r.height

variable {r r' : Raster}

/-- The blocks of an order that passes its check are in the grid of blocks, and different from each other and from those
that were seen. -/
theorem checkOrder_eq_ok {counts : ℕ × ℕ} {seen order : List (ℕ × ℕ)} :
    checkOrder counts seen order = .ok () ↔
      (∀ place ∈ order, (place.1 < counts.1 ∧ place.2 < counts.2) ∧ place ∉ seen) ∧ order.Nodup := by
  induction order generalizing seen with
  | nil => simp [checkOrder]
  | cons place rest ih =>
    unfold checkOrder
    by_cases hrange : counts.1 ≤ place.1 ∨ counts.2 ≤ place.2
    · rw [if_pos hrange]
      simp only [reduceCtorEq, List.forall_mem_cons, false_iff]
      omega
    by_cases hseen : place ∈ seen
    · simp [hrange, hseen]
    rw [if_neg hrange, if_neg (by simpa using hseen), ih, List.forall_mem_cons, List.nodup_cons]
    -- The place is one of those seen when the rest is checked.
    have hplace : place.1 < counts.1 ∧ place.2 < counts.2 := by omega
    constructor
    · rintro ⟨hall, hn⟩
      refine ⟨⟨⟨hplace, hseen⟩, fun p hp => ⟨(hall p hp).1, fun h => (hall p hp).2 (List.mem_cons_of_mem _ h)⟩⟩,
        fun hmem => (hall place hmem).2 List.mem_cons_self, hn⟩
    · rintro ⟨⟨-, hall⟩, hmem, hn⟩
      refine ⟨fun p hp => ⟨(hall p hp).1, fun h => ?_⟩, hn⟩
      rcases List.mem_cons.1 h with rfl | h
      · exact hmem hp
      · exact (hall p hp).2 h

/-- A band has the right size if it passes its check. -/
theorem checkBand_eq_ok {found : ℕ} : r.checkBand found = .ok () ↔ found = r.width * r.height := by
  unfold checkBand
  split <;> simp_all

/-- An order is taken if it passes its check, and the reading starts again. -/
theorem withOrder_eq_ok {order : List (ℕ × ℕ)} : r.withOrder order = .ok r' ↔
    checkOrder r.blockCounts [] order = .ok () ∧ r' = { r with order }.rewind := by
  unfold withOrder
  rw [bind_eq_ok]
  constructor
  · rintro ⟨_, hcheck, he⟩
    exact ⟨hcheck, (Except.ok.inj he).symm⟩
  · rintro ⟨hcheck, rfl⟩
    exact ⟨(), hcheck, rfl⟩

/-- Where reading has got to does not matter. -/
theorem Valid.moved (h : r.Valid) (cursor : ℕ) (current : Option Block) : { r with cursor, current }.Valid :=
  ⟨h.width_pos, h.height_pos, h.order_lt, h.order_nodup, h.elevation_size, h.classes_size⟩

/-- A new raster has rows and columns, and lists its only block. -/
theorem valid_make {width height : ℕ} (h : Raster.make width height = .ok r) : r.Valid := by
  unfold Raster.make Tiling.make at h
  split at h
  · rename_i tiling htiling
    split at htiling
    · rename_i hpos
      obtain rfl := Except.ok.inj htiling
      obtain rfl := Except.ok.inj h
      -- A single part is as long as the whole.
      have hone : ∀ {n : ℕ}, 0 < n → 0 < Tiling.partsToCover n n := fun {n} hn =>
        Nat.div_pos (by omega) hn
      refine ⟨hpos.1, hpos.2, fun place hplace => ?_, List.nodup_singleton _, ?_, ?_⟩
      · obtain rfl := List.mem_singleton.1 hplace
        exact ⟨hone hpos.1, hone hpos.2⟩
      · rintro band ⟨⟩
      · rintro band ⟨⟩
    · cases htiling
  · cases h

/-- Every operation keeps a raster valid. -/
theorem Built.valid (h : r.Built) : r.Valid := by
  induction h with
  | make h => exact valid_make h
  | withTransform h map ih =>
    exact ⟨ih.width_pos, ih.height_pos, ih.order_lt, ih.order_nodup, ih.elevation_size, ih.classes_size⟩
  -- A new tiling comes with the order that lists its blocks row by row.
  | withTiling h t ih =>
    exact ⟨ih.width_pos, ih.height_pos, fun place hplace => Tiling.mem_rowMajor.1 hplace, Tiling.nodup_rowMajor t _,
      ih.elevation_size, ih.classes_size⟩
  | withOrder h h' ih =>
    obtain ⟨hcheck, rfl⟩ := withOrder_eq_ok.1 h'
    obtain ⟨hall, hn⟩ := checkOrder_eq_ok.1 hcheck
    exact ⟨ih.width_pos, ih.height_pos, fun place hplace => (hall place hplace).1, hn, ih.elevation_size,
      ih.classes_size⟩
  | withElevation h h' ih =>
    obtain ⟨_, hcheck, he⟩ := bind_eq_ok.1 h'
    obtain rfl := Except.ok.inj he
    refine ⟨ih.width_pos, ih.height_pos, ih.order_lt, ih.order_nodup, ?_, ih.classes_size⟩
    rintro _ ⟨⟩
    exact checkBand_eq_ok.1 hcheck
  | withClasses h h' ih =>
    obtain ⟨_, hcheck, he⟩ := bind_eq_ok.1 h'
    obtain rfl := Except.ok.inj he
    refine ⟨ih.width_pos, ih.height_pos, ih.order_lt, ih.order_nodup, ih.elevation_size, ?_⟩
    rintro _ ⟨⟩
    exact checkBand_eq_ok.1 hcheck
  | rewind h ih => exact ih.moved 0 none
  -- Reading moves the cursor and the current block, and leaves everything else.
  | nextBlock h ih =>
    unfold Raster.nextBlock
    split
    · exact ih.moved _ _
    · split <;> exact ih.moved _ _
  | row h y ih =>
    unfold Raster.row
    split
    · exact ih
    · split <;> exact ih

/-! ## Reading from the start -/

/-- A block is read if its place is in the order. -/
def Visits (r : Raster) (b : Block) : Prop :=
  ∃ place ∈ r.order, r.tiling.block r.size place.1 place.2 = .ok b

/-- The block at a place in the grid of blocks. -/
def blockAt (r : Raster) (place : ℕ × ℕ) : Block where
  x := place.1 * r.tiling.width
  y := place.2 * r.tiling.height
  width := min r.tiling.width (r.width - place.1 * r.tiling.width)
  height := min r.tiling.height (r.height - place.2 * r.tiling.height)

/-- The samples of the rows that are read for a block. -/
def blockRows (r : Raster) (b : Block) : List (List Point) :=
  (b.rows r.size).map fun y => (b.columns r.size).map fun x => r.sample x y

/-- The blocks of the order with their samples. -/
def script (r : Raster) : Script := r.order.map fun place => (r.blockAt place, r.blockRows (r.blockAt place))

namespace Valid

/-- A block of the order is in the raster. -/
theorem block_eq (h : r.Valid) {place : ℕ × ℕ} (hplace : place ∈ r.order) :
    r.tiling.block r.size place.1 place.2 = .ok (r.blockAt place) := by
  have hlt := h.order_lt place hplace
  unfold Tiling.block
  rw [if_neg]
  · rfl
  · unfold blockCounts at hlt
    omega

/-- A block of the order has columns and rows, which are columns and rows of the raster. -/
theorem blockAt_fits (h : r.Valid) {place : ℕ × ℕ} (hplace : place ∈ r.order) :
    (0 < (r.blockAt place).width ∧ (r.blockAt place).x + (r.blockAt place).width ≤ r.width) ∧
      0 < (r.blockAt place).height ∧ (r.blockAt place).y + (r.blockAt place).height ≤ r.height :=
  Tiling.block_inside (h.block_eq hplace)

/-- The blocks that are read are those of the order. -/
theorem visits_iff (h : r.Valid) {b : Block} : r.Visits b ↔ ∃ place ∈ r.order, r.blockAt place = b := by
  unfold Visits
  refine exists_congr fun place => and_congr_right fun hplace => ?_
  rw [h.block_eq hplace, Except.ok.injEq]

/-- The rows of the current block are given one after another. -/
theorem readsRows {b : Block} (hcurrent : r.current = some b) {ys : List ℕ} (hys : ∀ y ∈ ys, y < r.height) :
    BlockReader.ReadsRows (b.columns r.size).length r ys
      (ys.map fun y => (b.columns r.size).map fun x => r.sample x y) r := by
  induction ys with
  | nil => exact .nil r
  | cons y rest ih =>
    obtain ⟨hy, hrest⟩ := List.forall_mem_cons.1 hys
    -- A row is given without a change, so that the next one is read from the same raster.
    refine .cons ?_ ?_ (ih hrest)
    · change Raster.row y r = _
      unfold Raster.row
      rw [hcurrent]
      simp only [if_neg (Nat.not_le.2 hy)]
      rfl
    · rw [List.length_map]

/-- From any block of the order on, the rest of the order is read. -/
theorem reads_drop (h : r.Valid) (rest : List (ℕ × ℕ)) (cursor : ℕ) (current : Option Block)
    (hrest : r.order.drop cursor = rest) : ∃ r', BlockReader.Reads r.size { r with cursor, current }
      (rest.map fun place => (r.blockAt place, r.blockRows (r.blockAt place))) r' := by
  induction rest generalizing cursor current with
  | nil =>
    have hnone : r.order[cursor]? = none := List.getElem?_eq_none (List.drop_eq_nil_iff.1 hrest)
    have hnext : Raster.nextBlock { r with cursor, current } = (.ok none, { r with cursor, current := none }) := by
      simp only [Raster.nextBlock, hnone]
    exact ⟨_, .done hnext⟩
  | cons place rest ih =>
    have hplace : r.order[cursor]? = some place := by
      rw [← Nat.add_zero cursor, ← List.getElem?_drop, hrest]
      rfl
    have hdrop : r.order.drop (cursor + 1) = rest := by
      rw [← List.tail_drop, hrest]
      rfl
    have hmem := List.mem_of_getElem? hplace
    -- A block without columns would end the reading early.
    have hwidth := (h.blockAt_fits hmem).1.1
    let r₁ : Raster := { r with cursor := cursor + 1, current := some (r.blockAt place) }
    have hnext : Raster.nextBlock { r with cursor, current } = (.ok (some (r.blockAt place)), r₁) := by
      have hblock : r.tiling.block (Raster.size { r with cursor, current }) place.1 place.2 =
          .ok (r.blockAt place) := h.block_eq hmem
      simp only [Raster.nextBlock, hplace, hblock]
      rfl
    have hys : ∀ y ∈ (r.blockAt place).rows r.size, y < r₁.height := fun y hy =>
      Block.lt_of_mem_rows hy
    obtain ⟨r', hreads⟩ := ih (cursor + 1) (some (r.blockAt place)) hdrop
    exact ⟨r', .block hnext (by omega) (readsRows (r := r₁) rfl hys) hreads⟩

/-- The blocks of a raster whose size is given in words are given in words. -/
theorem bounded_of_mem_script (h : r.Valid) (hwidth : r.width < 2 ^ 64) (hheight : r.height < 2 ^ 64)
    {x : Block × List (List Point)} (hx : x ∈ r.script) : x.1.Bounded := by
  obtain ⟨place, hplace, rfl⟩ := List.mem_map.1 hx
  obtain ⟨⟨hpos, hcolumns⟩, hpos', hrows⟩ := h.blockAt_fits hplace
  exact ⟨by dsimp only; omega, by dsimp only; omega, by dsimp only; omega, by dsimp only; omega⟩

/-- Read from the start, a raster gives all blocks of its order. -/
theorem reads (h : r.Valid) (hcursor : r.cursor = 0) : ∃ r', BlockReader.Reads r.size r r.script r' := by
  obtain ⟨r', hreads⟩ := h.reads_drop r.order 0 r.current List.drop_zero
  rw [← hcursor] at hreads
  exact ⟨r', hreads⟩

end Valid

/-! ## Samples and cells by column and row -/

/-- The id of a sample is its place in a band. -/
theorem index_lt {w height x y : ℕ} (hx : x < w) (hy : y < height) : x + y * w < w * height := by
  have hrows : (y + 1) * w ≤ height * w := Nat.mul_le_mul_right w hy
  rw [Nat.succ_mul] at hrows
  rw [Nat.mul_comm w]
  omega

/-- The elevation of a sample is the one that the band lists for it. -/
theorem Valid.elevationAt_eq (h : r.Valid) {band : Array Float} (hband : r.elevation = some band) {x y : ℕ}
    (hx : x < r.width) (hy : y < r.height) : band[x + y * r.width]? = some (r.elevationAt x y) := by
  have hindex : x + y * r.width < band.size := h.elevation_size band hband ▸ index_lt hx hy
  unfold elevationAt
  rw [hband, Array.getElem?_eq_getElem hindex]
  simp [Array.getElem?_eq_getElem hindex]

/-- A sample is reached by one of some blocks. -/
def ReportsSample (r : Raster) (read : Block → Prop) (x y : ℕ) : Prop := ∃ b, read b ∧ b.Reaches r.size x y

/-- A cell is one of some blocks. -/
def ReportsCell (r : Raster) (read : Block → Prop) (x y : ℕ) : Prop := ∃ b, read b ∧ b.HasCell r.size x y

/-- An id says which sample of the raster it belongs to. -/
theorem ReportsSample.eq_of_id_eq {read read' : Block → Prop} {x y x' y' : ℕ} (h : r.ReportsSample read x y)
    (h' : r.ReportsSample read' x' y') (hid : x + y * r.width = x' + y' * r.width) : x = x' ∧ y = y' := by
  obtain ⟨_, _, ⟨-, -, hx⟩, -⟩ := h
  obtain ⟨_, _, ⟨-, -, hx'⟩, -⟩ := h'
  exact id_inj hx hx' hid

/-- An id says which cell of the raster it belongs to, as a cell starts before the last column. -/
theorem ReportsCell.eq_of_id_eq {read read' : Block → Prop} {x y x' y' : ℕ} (h : r.ReportsCell read x y)
    (h' : r.ReportsCell read' x' y') (hid : x + y * r.width = x' + y' * r.width) : x = x' ∧ y = y' := by
  obtain ⟨_, _, ⟨-, -, hx⟩, -⟩ := h
  obtain ⟨_, _, ⟨-, -, hx'⟩, -⟩ := h'
  exact id_inj (Nat.lt_of_succ_lt hx) (Nat.lt_of_succ_lt hx') hid

/-- A block is read, and the sums that say where it ends fit in words. -/
def VisitsFitting (r : Raster) (b : Block) : Prop := r.Visits b ∧ b.SumsFit

/-- The samples of a block are those that it reaches. -/
theorem mem_samples_blockRows {b : Block} (hfit : b.SumsFit) {s : ℕ × Point} :
    s ∈ b.samples r.size (r.blockRows b) ↔
      ∃ x y, b.Reaches r.size x y ∧ s = (x + y * r.width, r.sample x y) := by
  unfold Block.samples blockRows
  rw [Block.rows_eq hfit, Block.columns_eq hfit, ← List.map_prod_left_eq_zip, List.flatMap_map]
  simp only [← List.map_prod_left_eq_zip, List.map_map, List.mem_flatMap, List.mem_map, Function.comp_apply,
    Block.reaches_iff]
  constructor
  · rintro ⟨y, hy, x, hx, rfl⟩
    exact ⟨x, y, ⟨hx, hy⟩, rfl⟩
  · rintro ⟨x, y, ⟨hx, hy⟩, rfl⟩
    exact ⟨y, hy, x, hx, rfl⟩

/-- The block of a cell is found by division. -/
theorem place_eq_of_hasCell {place : ℕ × ℕ} {x y : ℕ} (hcell : (r.blockAt place).HasCell r.size x y) :
    place = (x / r.tiling.width, y / r.tiling.height) := by
  obtain ⟨⟨hx, hx', hwidth⟩, hy, hy', hheight⟩ := hcell
  have hcolumn := (Tiling.mem_part_iff r.tiling.width_pos (Nat.lt_of_succ_lt hwidth)).1 ⟨hx, hx'⟩
  have hrow := (Tiling.mem_part_iff r.tiling.height_pos (Nat.lt_of_succ_lt hheight)).1 ⟨hy, hy'⟩
  exact Prod.ext hcolumn hrow

namespace Valid

variable (h : r.Valid)

include h

/-- The blocks whose sums fit are those of the script that are kept. -/
theorem exists_mem_fitting_iff {p : Block × List (List Point) → Prop} :
    (∃ x ∈ r.script.fitting, p x) ↔ ∃ b, r.VisitsFitting b ∧ p (b, r.blockRows b) := by
  unfold Script.fitting VisitsFitting
  simp only [List.mem_filter, decide_eq_true_eq, script, List.mem_map, h.visits_iff]
  constructor
  · rintro ⟨_, ⟨⟨place, hplace, rfl⟩, hfit⟩, hp⟩
    exact ⟨_, ⟨⟨place, hplace, rfl⟩, hfit⟩, hp⟩
  · rintro ⟨_, ⟨⟨place, hplace, rfl⟩, hfit⟩, hp⟩
    exact ⟨_, ⟨⟨place, hplace, rfl⟩, hfit⟩, hp⟩

/-- The samples that are reported. -/
theorem mem_samples {s : ℕ × Point} : s ∈ r.script.fitting.samples r.size ↔
    ∃ x y, r.ReportsSample r.VisitsFitting x y ∧ s = (x + y * r.width, r.sample x y) := by
  unfold Script.samples
  rw [List.mem_flatMap, h.exists_mem_fitting_iff]
  constructor
  · rintro ⟨b, hb, hs⟩
    obtain ⟨x, y, hreaches, rfl⟩ := (mem_samples_blockRows hb.2).1 hs
    exact ⟨x, y, ⟨b, hb, hreaches⟩, rfl⟩
  · rintro ⟨x, y, ⟨b, hb, hreaches⟩, rfl⟩
    exact ⟨b, hb, (mem_samples_blockRows hb.2).2 ⟨x, y, hreaches, rfl⟩⟩

/-- The first sample with an id is the only one. -/
theorem lookup_samples {id : ℕ} {p : Point} : (r.script.fitting.samples r.size).lookup id = some p ↔
    ∃ x y, r.ReportsSample r.VisitsFitting x y ∧ id = x + y * r.width ∧ p = r.sample x y := by
  have hmem : ∀ {q}, (r.script.fitting.samples r.size).lookup id = some q →
      (id, q) ∈ r.script.fitting.samples r.size := by
    intro q hq
    obtain ⟨before, after, he, -⟩ := List.lookup_eq_some_iff.1 hq
    rw [he]
    exact List.mem_append_right _ List.mem_cons_self
  constructor
  · intro hp
    obtain ⟨x, y, hreports, he⟩ := h.mem_samples.1 (hmem hp)
    obtain ⟨rfl, rfl⟩ := Prod.mk.inj he
    exact ⟨x, y, hreports, rfl, rfl⟩
  · rintro ⟨x, y, hreports, rfl, rfl⟩
    obtain ⟨q, hq⟩ : ∃ q, (r.script.fitting.samples r.size).lookup (x + y * r.width) = some q := by
      rw [← Option.isSome_iff_exists, List.lookup_isSome_iff]
      exact ⟨_, h.mem_samples.2 ⟨x, y, hreports, rfl⟩, beq_self_eq_true _⟩
    -- Blocks share samples, but a sample with this id has this column and row.
    obtain ⟨x', y', hreports', he⟩ := h.mem_samples.1 (hmem hq)
    obtain ⟨hid, rfl⟩ := Prod.mk.inj he
    obtain ⟨rfl, rfl⟩ := hreports.eq_of_id_eq hreports' hid
    exact hq

/-- The cells that are reported. -/
theorem mem_cells {c : ℕ × List ℕ} : c ∈ r.script.fitting.cells r.size ↔
    ∃ x y, r.ReportsCell r.VisitsFitting x y ∧ c = Block.cellEntry r.width (x, y) := by
  unfold Script.cells
  simp only [List.mem_map, List.mem_flatMap, h.exists_mem_fitting_iff, Prod.exists, Block.mem_cells]
  constructor
  · rintro ⟨x, y, ⟨b, hb, hcell⟩, rfl⟩
    exact ⟨x, y, ⟨b, hb, hcell⟩, rfl⟩
  · rintro ⟨x, y, ⟨b, hb, hcell⟩, rfl⟩
    exact ⟨x, y, ⟨b, hb, hcell⟩, rfl⟩

/-- The blocks of a tiling have no cells in common, so none is reported twice. -/
theorem nodup_cells : ((r.script.fitting.cells r.size).map Prod.fst).Nodup := by
  have hcells : (r.script.flatMap fun x => x.1.cells r.size).Nodup := by
    unfold script
    rw [List.flatMap_map]
    refine List.nodup_flatMap.2 ⟨fun place _ => ?_, ?_⟩
    · exact Block.nodup_cells _ _
    · refine h.order_nodup.imp fun {place place'} hne => ?_
      rintro ⟨x, y⟩ hcell hcell'
      exact hne ((place_eq_of_hasCell (Block.mem_cells.1 hcell)).trans
        (place_eq_of_hasCell (Block.mem_cells.1 hcell')).symm)
  have hkept : (r.script.fitting.flatMap fun x => x.1.cells r.size).Nodup :=
    hcells.sublist (List.filter_sublist.flatMap _)
  unfold Script.cells
  rw [List.map_map]
  refine hkept.map_on ?_
  -- A cell starts before the last column, so that its id says which one it is.
  rintro ⟨x, y⟩ hcell ⟨x', y'⟩ hcell' he
  obtain ⟨b, -, hb⟩ := List.mem_flatMap.1 hcell
  obtain ⟨b', -, hb'⟩ := List.mem_flatMap.1 hcell'
  have hx := (Block.mem_cells.1 hb).1.2.2
  have hx' := (Block.mem_cells.1 hb').1.2.2
  obtain ⟨rfl, rfl⟩ := id_inj (Nat.lt_of_succ_lt hx) (Nat.lt_of_succ_lt hx') he
  rfl

end Valid

end Raster

end RegionMesh
