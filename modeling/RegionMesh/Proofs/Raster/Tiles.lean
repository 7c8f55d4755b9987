import RegionMesh.Proofs.Raster.Regions
import RegionMesh.Proofs.Sink.Calls

/-!
# Tiles, cells and classes

A tiling cuts a raster of any size into blocks that are not empty and lie inside it, and every sample is in one of them
(`Tiling.cuts`). Where every block is read once, in whatever order, every cell is reported once, at the seams between
blocks too (`Tiling.ReadOnce.listsCells`), since the cells of a script depend on its blocks alone, and not on their
order (`Script.cells_perm`). The classes of a raster's cells are kept under the same ids, without a look at the tiling
(`Raster.Valid.classesByCell`).
-/

namespace RegionMesh

/-- A sample lies in a block. -/
def Block.Holds (b : Block) (x y : ℕ) : Prop := (b.x ≤ x ∧ x < b.x + b.width) ∧ b.y ≤ y ∧ y < b.y + b.height

/-- The ids of the cells between the samples of a raster of a size, each once. -/
structure ListsCells (size : ℕ × ℕ) (ids : List ℕ) : Prop where
  /-- No id is listed twice. -/
  nodup : ids.Nodup
  /-- The ids are those of the samples before the last column and the last row. -/
  mem : ∀ id, id ∈ ids ↔ ∃ x y, x + 1 < size.1 ∧ y + 1 < size.2 ∧ id = x + y * size.1

/-! ## Blocks -/

namespace Tiling

variable {t : Tiling} {size : ℕ × ℕ} {column row x y : ℕ} {b : Block}

/-- A tiling cuts a raster of a size into blocks. -/
structure Cuts (t : Tiling) (size : ℕ × ℕ) : Prop where
  /-- The blocks are not empty and lie inside the raster. -/
  block : ∀ column row, column < (t.counts size).1 → row < (t.counts size).2 → ∃ b, t.block size column row = .ok b ∧
    (0 < b.width ∧ 0 < b.height) ∧ b.x + b.width ≤ size.1 ∧ b.y + b.height ≤ size.2
  /-- A sample lies in one of the blocks. -/
  sample : ∀ x y, x < size.1 → y < size.2 → ∃! place : ℕ × ℕ, (place.1 < (t.counts size).1 ∧
    place.2 < (t.counts size).2) ∧ ∃ b, t.block size place.1 place.2 = .ok b ∧ b.Holds x y

/-- Every block of a tiling is read once. -/
structure ReadOnce (t : Tiling) (size : ℕ × ℕ) (script : Script) : Prop where
  /-- No block is read twice. -/
  nodup : (script.map Prod.fst).Nodup
  /-- All blocks are read, and nothing else. -/
  mem : ∀ b, b ∈ script.map Prod.fst ↔ ∃ column row, t.block size column row = .ok b

/-- A block that holds a sample is found by division. -/
theorem holds_iff (hx : x < size.1) (hy : y < size.2) (hb : t.block size column row = .ok b) :
    b.Holds x y ↔ column = x / t.width ∧ row = y / t.height := by
  obtain ⟨-, rfl⟩ := block_eq_ok.1 hb
  unfold Block.Holds
  rw [Tiling.mem_part_iff t.width_pos hx, Tiling.mem_part_iff t.height_pos hy]

/-- Every tiling cuts a raster of any size. -/
theorem cuts (t : Tiling) (size : ℕ × ℕ) : t.Cuts size where
  block column row hcolumn hrow := by
    have hblock := block_eq_ok.2 ⟨⟨hcolumn, hrow⟩, rfl⟩
    obtain ⟨⟨hwidth, hcolumns⟩, hheight, hrows⟩ := block_inside hblock
    exact ⟨_, hblock, ⟨hwidth, hheight⟩, hcolumns, hrows⟩
  -- The block of a sample is found by division, in either direction.
  sample x y hx hy := by
    have hcolumn : x / t.width < (t.counts size).1 := div_lt_partsToCover t.width_pos hx
    have hrow : y / t.height < (t.counts size).2 := div_lt_partsToCover t.height_pos hy
    have hblock := block_eq_ok.2 ⟨⟨hcolumn, hrow⟩, rfl⟩
    refine ⟨(x / t.width, y / t.height), ⟨⟨hcolumn, hrow⟩, _, hblock, (holds_iff hx hy hblock).2 ⟨rfl, rfl⟩⟩, ?_⟩
    rintro ⟨column, row⟩ ⟨-, b, hb, hholds⟩
    obtain ⟨rfl, rfl⟩ := (holds_iff hx hy hb).1 hholds
    rfl

end Tiling

/-! ## Cells -/

/-- The cells of a script do not depend on the order of its blocks. -/
theorem Script.cells_perm (size : ℕ × ℕ) {script script' : Script}
    (h : (script.map Prod.fst).Perm (script'.map Prod.fst)) : (cells size script).Perm (cells size script') := by
  have hblocks := (h.flatMap_right fun b => b.cells size).map (Block.cellEntry size.1)
  rwa [List.flatMap_map, List.flatMap_map] at hblocks

/-- Whether a block is kept does not depend on the order either. -/
theorem Script.fitting_perm {script script' : Script} (h : (script.map Prod.fst).Perm (script'.map Prod.fst)) :
    (script.fitting.map Prod.fst).Perm (script'.fitting.map Prod.fst) := by
  have hblocks := h.filter fun b => decide b.SumsFit
  rwa [List.filter_map, List.filter_map] at hblocks

namespace Raster

variable {r : Raster}

/-- A raster whose blocks are all to be read gives each of them once. -/
theorem Valid.readOnce (h : r.Valid) (hall : r.ReadsAll) : r.tiling.ReadOnce r.size r.script := by
  have hblocks : r.script.map Prod.fst = r.order.map r.blockAt := by
    unfold script
    rw [List.map_map]
    rfl
  refine ⟨?_, fun b => ?_⟩
  -- The order names each place once, and different places have different blocks.
  · rw [hblocks]
    refine h.order_nodup.map_on ?_
    intro place hplace place' hplace' he
    obtain ⟨hcolumn, hrow⟩ := Tiling.block_inj (h.block_eq hplace) (he ▸ h.block_eq hplace')
    exact Prod.ext hcolumn hrow
  · rw [hblocks, List.mem_map]
    constructor
    · rintro ⟨place, hplace, rfl⟩
      exact ⟨_, _, h.block_eq hplace⟩
    · rintro ⟨column, row, hb⟩
      obtain ⟨⟨hcolumn, hrow⟩, rfl⟩ := Tiling.block_eq_ok.1 hb
      exact ⟨(column, row), hall _ hcolumn hrow, rfl⟩

/-- The cells that a raster reports when all its blocks are read. -/
theorem Valid.listsCells (h : r.Valid) (hall : r.ReadsAll) (hsize : r.width * r.height < 2 ^ 64) :
    ListsCells r.size ((r.script.fitting.cells r.size).map Prod.fst) := by
  have hreports := fun p => h.reportsCell_iff (p := p) hall hsize
  refine ⟨h.nodup_cells, fun id => ?_⟩
  simp only [List.mem_map, h.mem_cells]
  constructor
  · rintro ⟨c, ⟨x, y, hcell, rfl⟩, rfl⟩
    obtain ⟨hx, hy⟩ := (hreports (x, y)).1 hcell
    exact ⟨x, y, hx, hy, rfl⟩
  · rintro ⟨x, y, hx, hy, rfl⟩
    exact ⟨_, ⟨x, y, (hreports (x, y)).2 ⟨hx, hy⟩, rfl⟩, rfl⟩

end Raster

namespace Tiling.ReadOnce

variable {t : Tiling} {size : ℕ × ℕ} {script : Script} (h : t.ReadOnce size script) (hwidth : 0 < size.1)
  (hheight : 0 < size.2) (hsize : size.1 * size.2 < 2 ^ 64)

include h hwidth hheight hsize

/-- The blocks are given in words, as they lie in a raster whose samples can be counted in a word. -/
theorem bounded : ∀ x ∈ script, x.1.Bounded := by
  intro x hx
  obtain ⟨column, row, hblock⟩ := (h.mem x.1).1 (List.mem_map_of_mem hx)
  obtain ⟨⟨hpos, hcolumns⟩, hpos', hrows⟩ := block_inside hblock
  have hlast := Raster.lt_of_mul_lt_word hheight hsize
  have hlast' := Raster.lt_of_mul_lt_word hwidth (Nat.mul_comm size.1 size.2 ▸ hsize)
  exact ⟨by omega, by omega, by omega, by omega⟩

/-- Where every block is read once, every cell is reported once. -/
theorem listsCells : ListsCells size ((script.fitting.cells size).map Prod.fst) := by
  -- A raster of this size and tiling has the same blocks, and so the same cells.
  let r : Raster := { width := size.1, height := size.2, tiling := t, order := t.rowMajor size }
  have hvalid : r.Valid := ⟨hwidth, hheight, fun place hplace => mem_rowMajor.1 hplace,
    nodup_rowMajor t size, by simp [r], by simp [r]⟩
  have hall : r.ReadsAll := fun place hcolumn hrow => mem_rowMajor.2 ⟨hcolumn, hrow⟩
  have honce := hvalid.readOnce hall
  have hblocks : (script.map Prod.fst).Perm (r.script.map Prod.fst) :=
    (List.perm_ext_iff_of_nodup h.nodup honce.nodup).2 fun b => (h.mem b).trans (honce.mem b).symm
  have hids := (Script.cells_perm size (Script.fitting_perm hblocks)).map Prod.fst
  have hcells := hvalid.listsCells hall hsize
  exact ⟨hids.nodup_iff.2 hcells.nodup, fun id => hids.mem_iff.trans (hcells.mem id)⟩

end Tiling.ReadOnce

/-- Reading into a log writes the calls of the script down. -/
theorem BlockReader.readAll_log {ρ : Type} [BlockReader ρ] {size : ℕ × ℕ} {r r' : ρ} {script : Script}
    (h : Reads size r script r') : readAll size (r, ({} : CallLog)) = (.ok (), r', ⟨script.calls size⟩) :=
  readAll_eq_ok.2 ⟨script, h, CallLog.acceptAll_eq _ _⟩

/-- The cells that are written down are those of the blocks whose sums fit. -/
theorem CallLog.cellIds_calls {size : ℕ × ℕ} {script : Script} (h : ∀ x ∈ script, x.1.Bounded) :
    (⟨script.calls size⟩ : CallLog).cellIds = (script.fitting.cells size).map Prod.fst := by
  unfold cellIds
  rw [← Script.calls_fitting h, Script.cells_calls fun x => Script.sumsFit_of_mem_fitting]

/-! ## Classes -/

/-- The classes of a raster's cells are those of their first samples, under the ids of the cells. -/
structure Raster.ClassesByCell (r : Raster) : Prop where
  /-- A class is found under the id of a cell, and it is that of the cell's first sample. -/
  get?_eq_some : ∀ id c, r.cellClasses.get? id = some c ↔
    ∃ x y, x + 1 < r.width ∧ y + 1 < r.height ∧ id = x + y * r.width ∧ r.class? x y = some c
  /-- With a band of classes, the first sample of every cell has a class. -/
  class?_isSome : r.classes ≠ none → ∀ x y, x + 1 < r.width → y + 1 < r.height → (r.class? x y).isSome = true
  /-- Without one, no class is found. -/
  isEmpty : r.classes = none → r.cellClasses.isEmpty = true

/-- The classes of a raster are listed by the cells that have them. -/
theorem Raster.Valid.classesByCell {r : Raster} (h : r.Valid) : r.ClassesByCell where
  get?_eq_some id c := by
    constructor
    · intro hfound
      obtain ⟨⟨x, y⟩, ⟨hx, hy⟩, rfl, hclass⟩ := mem_classEntries.1 (FacetClasses.mem_of_get?_ofList hfound)
      exact ⟨x, y, hx, hy, rfl, hclass⟩
    · rintro ⟨x, y, hx, hy, rfl, hclass⟩
      exact (get?_cellClasses (p := (x, y)) ⟨hx, hy⟩).trans hclass
  class?_isSome hclasses x y hx hy :=
    Option.isSome_iff_ne_none.2 (h.classOf_ne_none (p := (x, y)) hclasses ⟨hx, hy⟩)
  isEmpty hclasses := by
    -- Without a band of classes no cell has one.
    have hentries : (List.range (r.height - 1)).flatMap (fun y => (List.range (r.width - 1)).filterMap fun x =>
        (r.class? x y).map fun c => (x + y * r.width, c)) = [] := by
      rw [List.eq_nil_iff_forall_not_mem]
      rintro ⟨id, c⟩ hmem
      obtain ⟨p, -, -, hclass⟩ := mem_classEntries.1 hmem
      rw [classOf_of_classes_eq_none hclasses] at hclass
      cases hclass
    unfold cellClasses
    rw [hentries]
    rfl

/-! ## Together -/

/-- A tiling cuts a raster of any size that is not empty into blocks. Where every block is read once, in any order, the
cells are reported that lie between the samples, each once, if a word can count the samples, and the classes of a raster
in memory are kept under the ids of these cells, whatever its tiling. -/
theorem tiles_cells (t : Tiling) (size : ℕ × ℕ) (hwidth : 0 < size.1) (hheight : 0 < size.2)
    (hsize : size.1 * size.2 < 2 ^ 64) :
    t.Cuts size ∧
      (∀ (ρ : Type) [BlockReader ρ] (r r' : ρ) (script : Script), BlockReader.Reads size r script r' →
        t.ReadOnce size script → ∃ log : CallLog,
          BlockReader.readAll size (r, ({} : CallLog)) = (.ok (), r', log) ∧ ListsCells size log.cellIds) ∧
      (∀ r : Raster, r.Built → r.size = size → r.tiling = t → r.cursor = 0 → r.ReadsAll → ∃ r' log,
        BlockReader.readAll size (r, ({} : CallLog)) = (.ok (), r', log) ∧ ListsCells size log.cellIds) ∧
      ∀ r : Raster, r.Built → r.size = size → r.tiling = t → r.ClassesByCell := by
  -- What is said of any reader is said of a raster in memory as well, whose script has every block once.
  have hread : ∀ (ρ : Type) [BlockReader ρ] (r r' : ρ) (script : Script), BlockReader.Reads size r script r' →
      t.ReadOnce size script → ∃ log : CallLog,
        BlockReader.readAll size (r, ({} : CallLog)) = (.ok (), r', log) ∧ ListsCells size log.cellIds := by
    intro ρ _ r r' script hreads honce
    refine ⟨_, BlockReader.readAll_log hreads, ?_⟩
    rw [CallLog.cellIds_calls (honce.bounded hwidth hheight hsize)]
    exact honce.listsCells hwidth hheight hsize
  refine ⟨t.cuts size, hread, ?_, fun r hr _ _ => hr.valid.classesByCell⟩
  rintro r hr rfl rfl hcursor hall
  obtain ⟨r', hreads⟩ := hr.valid.reads hcursor
  obtain ⟨log, hok, hcells⟩ := hread Raster r r' _ hreads (hr.valid.readOnce hall)
  exact ⟨r', log, hok, hcells⟩

/-- A raster of four columns and three rows with classes, read in four blocks of which those at the end are cut off, the
last one first. -/
theorem tiles_cells_reversed : ∃ (t : Tiling) (r : Raster), 0 < r.size.1 ∧ 0 < r.size.2 ∧
    r.size.1 * r.size.2 < 2 ^ 64 ∧ r.Built ∧ r.tiling = t ∧
    r.cursor = 0 ∧ r.ReadsAll ∧ r.order ≠ t.rowMajor r.size ∧ r.classes ≠ none ∧ t.Cuts r.size ∧
      (∃ r' log, BlockReader.readAll r.size (r, ({} : CallLog)) = (.ok (), r', log) ∧
        ListsCells r.size log.cellIds) ∧ r.ClassesByCell := by
  let t : Tiling := ⟨3, 2, by decide, by decide⟩
  let whole : Raster := { width := 4, height := 3, tiling := ⟨4, 3, by decide, by decide⟩, order := [(0, 0)] }
  let band : Array ℕ := #[1, 1, 2, 0, 1, 2, 2, 0, 0, 0, 0, 0]
  let tiled : Raster := Raster.withTiling { whole with classes := some band } t
  let r : Raster := { tiled with order := (t.rowMajor (4, 3)).reverse }.rewind
  have hbuilt : r.Built := by
    have hmake : Raster.make 4 3 = .ok whole := rfl
    have hclasses : whole.withClasses band = .ok { whole with classes := some band } :=
      bind_eq_ok.2 ⟨(), Raster.checkBand_eq_ok.2 (by decide), rfl⟩
    have horder : tiled.withOrder (t.rowMajor (4, 3)).reverse = .ok r :=
      bind_eq_ok.2 ⟨(), Raster.checkOrder_eq_ok.2 (by decide), rfl⟩
    exact (((Raster.Built.make hmake).withClasses hclasses).withTiling t).withOrder horder
  -- The order that is reversed lists the same places.
  have hall : r.ReadsAll := fun place hcolumn hrow =>
    List.mem_reverse.2 (Tiling.mem_rowMajor.2 ⟨hcolumn, hrow⟩)
  have horder : r.order ≠ t.rowMajor r.size := by decide
  obtain ⟨hcuts, -, hread, hclasses⟩ := tiles_cells t r.size (by decide) (by decide) (by decide)
  have hband : r.classes ≠ none := by simp [r, tiled, Raster.rewind, Raster.withTiling]
  have hcells := hread r hbuilt rfl rfl rfl hall
  exact ⟨t, r, by decide, by decide, by decide, hbuilt, rfl, rfl, hall, horder, hband, hcuts, hcells,
    hclasses r hbuilt rfl rfl⟩

end RegionMesh
