import RegionMesh.Proofs.Mesh.Mirror
import RegionMesh.Proofs.Raster.Meshed
import RegionMesh.Proofs.Region.Partition

/-!
# From a raster to its regions

A raster with a band of classes falls into regions: cells that touch along an edge and have the same class are in the
same region (`Raster.IsRegion`). When all its blocks are read, in whatever tiling and order, the regions of its mesh by
class are these (`Mesh.regionsByClass_raster`). No cell is lost on the way, as a raster that has cells and whose samples
can be counted in a word does not end at the last column or row of a word (`Raster.Valid.reportsCell_iff`).

The facets of the mesh stand for the cells (`Raster.StandsFor`). Two of them share an edge if the ids of their cells
differ by one or by the length of a row (`Mesh.Sound.exists_across_iff`, `shareSide_cellIds`), that is, if the cells
touch, and they are alike if the cells have the same class (`Raster.get?_cellClasses`). So paths of alike neighbours
among the facets are paths among the cells (`Raster.StandsFor.connected_iff`).
-/

namespace RegionMesh

/-! ## Classes by id -/

namespace FacetClasses

variable {α : Type} {entries : List (ℕ × α)} {id : ℕ} {c : α}

/-- A facet has the class that it got last. -/
theorem get?_insert (m : FacetClasses α) (facet : ℕ) (c : α) (id : ℕ) :
    (m.insert facet c).get? id = if facet = id then some c else m.get? id := by
  unfold insert get?
  rw [Std.TreeMap.getElem?_insert]
  simp only [Nat.compare_eq_eq]

/-- A class that is found was listed. -/
theorem mem_of_get?_ofList (h : (ofList entries).get? id = some c) : (id, c) ∈ entries := by
  induction entries using List.reverseRecOn with
  | nil => simp [ofList, empty, get?] at h
  | append_singleton entries e ih =>
    unfold ofList at h
    rw [List.foldl_concat, get?_insert] at h
    rw [List.mem_append, List.mem_singleton]
    -- The last entry is found under its own id, and under every other id what was found before.
    split at h
    · rename_i hid
      exact Or.inr (Prod.ext hid.symm (Option.some.inj h).symm)
    · exact Or.inl (ih h)

/-- A class is found under every id that was listed. -/
theorem get?_ofList_ne_none (h : (id, c) ∈ entries) : (ofList entries).get? id ≠ none := by
  induction entries using List.reverseRecOn with
  | nil => simp at h
  | append_singleton entries e ih =>
    unfold ofList
    rw [List.foldl_concat, get?_insert]
    split
    · simp
    · rename_i hid
      rw [List.mem_append, List.mem_singleton] at h
      refine ih (h.resolve_right ?_)
      rintro rfl
      exact hid rfl

/-- Facets are alike if they have the same class. -/
theorem alike_iff [BEq α] [LawfulBEq α] {classes : FacetClasses α} {a b : ℕ} :
    classes.alike a b = true ↔ ∃ c, classes.get? a = some c ∧ classes.get? b = some c := by
  unfold alike
  cases classes.get? a with
  | none => simp
  | some ca =>
    cases classes.get? b with
    | none => simp
    | some cb =>
      simp only [beq_iff_eq, Option.some.injEq, exists_eq_left']
      exact eq_comm

end FacetClasses

/-! ## Cells and facets -/

namespace Raster

variable (r : Raster)

/-- A cell, named by the column and the row that it starts at, needs another column and another row. -/
def IsCell (p : ℕ × ℕ) : Prop := p.1 + 1 < r.width ∧ p.2 + 1 < r.height

/-- The id of a cell. -/
def cellId (p : ℕ × ℕ) : ℕ := p.1 + p.2 * r.width

/-- The class of a cell is that of its first sample. -/
def classOf (p : ℕ × ℕ) : Option ℕ := r.class? p.1 p.2

/-- Cells touch if they have an edge in common. -/
def Touching (p q : ℕ × ℕ) : Prop :=
  (p.2 = q.2 ∧ (q.1 = p.1 + 1 ∨ p.1 = q.1 + 1)) ∨ (p.1 = q.1 ∧ (q.2 = p.2 + 1 ∨ p.2 = q.2 + 1))

/-- Cells touch and have the same class. -/
def Adjoins (p q : ℕ × ℕ) : Prop :=
  r.IsCell p ∧ r.IsCell q ∧ Touching p q ∧ ∃ c, r.classOf p = some c ∧ r.classOf q = some c

/-- The ids of all cells that are joined with one of them by a path of cells of equal class, in increasing order. -/
def IsRegion (l : List ℕ) : Prop :=
  ∃ p, r.IsCell p ∧ l.Pairwise (· < ·) ∧
    ∀ id, id ∈ l ↔ ∃ q, Relation.ReflTransGen r.Adjoins p q ∧ id = r.cellId q

/-- All blocks are to be read. -/
def ReadsAll : Prop := ∀ place : ℕ × ℕ, place.1 < r.blockCounts.1 → place.2 < r.blockCounts.2 → place ∈ r.order

variable {r} {m : Mesh} {p q : ℕ × ℕ} {f g : Facet}

/-- If all blocks are read, every sample lies in one of them. -/
theorem Valid.exists_block (h : r.Valid) (hall : r.ReadsAll) {x y : ℕ} (hx : x < r.width) (hy : y < r.height) :
    ∃ b, r.Visits b ∧ (b.x ≤ x ∧ x < b.x + b.width) ∧ b.y ≤ y ∧ y < b.y + b.height := by
  have hcolumn := Tiling.div_lt_partsToCover r.tiling.width_pos hx
  have hrow := Tiling.div_lt_partsToCover r.tiling.height_pos hy
  have hplace := hall (x / r.tiling.width, y / r.tiling.height) hcolumn hrow
  exact ⟨_, h.visits_iff.2 ⟨_, hplace, rfl⟩, (Tiling.mem_part_iff r.tiling.width_pos hx).2 rfl,
    (Tiling.mem_part_iff r.tiling.height_pos hy).2 rfl⟩

/-- The sums of all blocks fit if a word can count a column and a row more than there are. -/
theorem Valid.sumsFit_of_visits (h : r.Valid) (hwidth : r.width + 1 < 2 ^ 64) (hheight : r.height + 1 < 2 ^ 64)
    {b : Block} (hb : r.Visits b) : b.SumsFit := by
  obtain ⟨place, hplace, rfl⟩ := h.visits_iff.1 hb
  obtain ⟨⟨-, hcolumns⟩, -, hrows⟩ := h.blockAt_fits hplace
  exact Block.sumsFit_of_inside r.size hcolumns hrows hwidth hheight

/-- The length of one side is a word if a word can count the samples. -/
theorem lt_of_mul_lt_word {a b : ℕ} (hb : 0 < b) (h : a * b < 2 ^ 64) : a < 2 ^ 64 :=
  Nat.lt_of_le_of_lt (Nat.le_mul_of_pos_right a hb) h

/-- With two samples in the other direction, a word can count one more than there are in this one. -/
theorem add_one_lt_of_mul_lt_word {a b : ℕ} (hb : 2 ≤ b) (h : a * b < 2 ^ 64) : a + 1 < 2 ^ 64 := by
  have hle : a * 2 ≤ a * b := Nat.mul_le_mul_left a hb
  omega

/-- If all blocks are read, all samples are. -/
theorem Valid.reportsSample_iff (h : r.Valid) (hall : r.ReadsAll) (hwidth : r.width + 1 < 2 ^ 64)
    (hheight : r.height + 1 < 2 ^ 64) {x y : ℕ} :
    r.ReportsSample r.VisitsFitting x y ↔ x < r.width ∧ y < r.height := by
  constructor
  · rintro ⟨b, -, ⟨-, -, hx⟩, -, -, hy⟩
    exact ⟨hx, hy⟩
  · rintro ⟨hx, hy⟩
    obtain ⟨b, hb, ⟨hx₁, hx₂⟩, hy₁, hy₂⟩ := h.exists_block hall hx hy
    exact ⟨b, ⟨hb, h.sumsFit_of_visits hwidth hheight hb⟩, ⟨hx₁, hx₂.le, hx⟩, hy₁, hy₂.le, hy⟩

/-- If all blocks are read, all cells are. A raster that has cells has two rows and two columns, so that no block of it
ends at the last column or row that a word can count. -/
theorem Valid.reportsCell_iff (h : r.Valid) (hall : r.ReadsAll) (hsize : r.width * r.height < 2 ^ 64) :
    r.ReportsCell r.VisitsFitting p.1 p.2 ↔ r.IsCell p := by
  constructor
  · rintro ⟨b, -, ⟨-, -, hx⟩, -, -, hy⟩
    exact ⟨hx, hy⟩
  · rintro ⟨hx, hy⟩
    obtain ⟨b, hb, ⟨hx₁, hx₂⟩, hy₁, hy₂⟩ := h.exists_block hall (Nat.lt_of_succ_lt hx) (Nat.lt_of_succ_lt hy)
    -- There are two rows and two columns at least, and their product is a word.
    have hwidth : r.width + 1 < 2 ^ 64 := add_one_lt_of_mul_lt_word (by omega) hsize
    have hheight : r.height + 1 < 2 ^ 64 :=
      add_one_lt_of_mul_lt_word (b := r.width) (by omega) (Nat.mul_comm r.width r.height ▸ hsize)
    exact ⟨b, ⟨hb, h.sumsFit_of_visits hwidth hheight hb⟩, ⟨hx₁, hx₂, hx⟩, hy₁, hy₂, hy⟩

/-- A sample has a class if the raster has a band of classes. -/
theorem Valid.classOf_ne_none (h : r.Valid) (hclasses : r.classes ≠ none) (hp : r.IsCell p) :
    r.classOf p ≠ none := by
  obtain ⟨band, hband⟩ := Option.ne_none_iff_exists'.1 hclasses
  have hx := Nat.lt_of_succ_lt hp.1
  have hy := Nat.lt_of_succ_lt hp.2
  have hindex : p.1 + p.2 * r.width < band.size := h.classes_size band hband ▸ index_lt hx hy
  unfold classOf class?
  rw [if_neg (by omega), hband, Option.bind_some, Array.getElem?_eq_getElem hindex]
  exact Option.some_ne_none _

/-- Cells with the same id are the same. -/
theorem cellId_inj (hp : r.IsCell p) (hq : r.IsCell q) (h : r.cellId p = r.cellId q) : p = q := by
  obtain ⟨hx, hy⟩ := id_inj (Nat.lt_of_succ_lt hp.1) (Nat.lt_of_succ_lt hq.1) h
  exact Prod.ext hx hy

/-- The cells that have a class are listed with it. -/
theorem mem_classEntries {id c : ℕ} : (id, c) ∈ (List.range (r.height - 1)).flatMap (fun y =>
      (List.range (r.width - 1)).filterMap fun x => (r.class? x y).map fun c => (x + y * r.width, c)) ↔
    ∃ q, r.IsCell q ∧ id = r.cellId q ∧ r.classOf q = some c := by
  simp only [List.mem_flatMap, List.mem_filterMap, List.mem_range, Option.map_eq_some_iff, Prod.mk.injEq]
  constructor
  · rintro ⟨y, hy, x, hx, _, hc, rfl, rfl⟩
    exact ⟨(x, y), ⟨by simp only; omega, by simp only; omega⟩, rfl, hc⟩
  · rintro ⟨q, ⟨hx, hy⟩, rfl, hc⟩
    exact ⟨q.2, by omega, q.1, by omega, c, hc, rfl, rfl⟩

/-- The classes of the cells are listed by their ids. -/
theorem get?_cellClasses (hp : r.IsCell p) : r.cellClasses.get? (r.cellId p) = r.classOf p := by
  have hfound : ∀ {c}, r.cellClasses.get? (r.cellId p) = some c → r.classOf p = some c := by
    intro c hc
    obtain ⟨q, hq, hid, hqc⟩ := mem_classEntries.1 (FacetClasses.mem_of_get?_ofList hc)
    rwa [cellId_inj hp hq hid]
  cases hclass : r.classOf p with
  | none =>
    rw [Option.eq_none_iff_forall_ne_some]
    intro c hc
    rw [hfound hc] at hclass
    cases hclass
  | some c =>
    -- Something is listed for the cell, and whatever is listed for it is its class.
    have hlisted := FacetClasses.get?_ofList_ne_none (mem_classEntries.2 ⟨p, hp, rfl, hclass⟩)
    obtain ⟨c', hc'⟩ := Option.ne_none_iff_exists'.1 hlisted
    exact hc'.trans ((hfound hc').symm.trans hclass)

/-- A facet stands for a cell if it has its id. -/
structure StandsFor (r : Raster) (m : Mesh) (f : Facet) (p : ℕ × ℕ) : Prop where
  /-- The facet is live. -/
  live : m.links.isLiveFacet f = true
  /-- The cell is one. -/
  isCell : r.IsCell p
  /-- The ids are the same. -/
  facetId : m.facetId f = r.cellId p

/-- The cell with the next id is the next one in the row, as the last sample of a row starts no cell. -/
theorem cellId_eq_succ_iff (hp : r.IsCell p) (hq : r.IsCell q) :
    r.cellId q = r.cellId p + 1 ↔ p.2 = q.2 ∧ q.1 = p.1 + 1 := by
  constructor
  · intro he
    have hid : q.1 + q.2 * r.width = (p.1 + 1) + p.2 * r.width := by
      unfold cellId at he
      omega
    -- The next column is still one of the raster, so the id belongs to no other row.
    obtain ⟨hx, hy⟩ := id_inj (Nat.lt_of_succ_lt hq.1) hp.1 hid
    exact ⟨hy.symm, hx⟩
  · rintro ⟨hy, hx⟩
    unfold cellId
    rw [hy, hx]
    omega

/-- The cell with an id that is greater by the length of a row is the one below. -/
theorem cellId_eq_add_width_iff (hp : r.IsCell p) (hq : r.IsCell q) :
    r.cellId q = r.cellId p + r.width ↔ p.1 = q.1 ∧ q.2 = p.2 + 1 := by
  constructor
  · intro he
    have hid : q.1 + q.2 * r.width = p.1 + (p.2 + 1) * r.width := by
      unfold cellId at he
      rw [Nat.succ_mul]
      omega
    obtain ⟨hx, hy⟩ := id_inj (Nat.lt_of_succ_lt hq.1) (Nat.lt_of_succ_lt hp.1) hid
    exact ⟨hx.symm, hy⟩
  · rintro ⟨hx, hy⟩
    unfold cellId
    rw [hx, hy, Nat.succ_mul]
    omega

/-- Touching cells have ids that differ by one or by the length of a row. -/
theorem touching_iff (hp : r.IsCell p) (hq : r.IsCell q) : Touching p q ↔
    (r.cellId q = r.cellId p + 1 ∨ r.cellId p = r.cellId q + 1) ∨
      r.cellId q = r.cellId p + r.width ∨ r.cellId p = r.cellId q + r.width := by
  rw [cellId_eq_succ_iff hp hq, cellId_eq_succ_iff hq hp, cellId_eq_add_width_iff hp hq,
    cellId_eq_add_width_iff hq hp, @eq_comm _ q.2 p.2, @eq_comm _ q.1 p.1, ← and_or_left, ← and_or_left]
  rfl

/-- The class stays the same along a path. -/
theorem classOf_eq_of_path (h : Relation.ReflTransGen r.Adjoins p q) : r.classOf p = r.classOf q := by
  induction h with
  | refl => rfl
  | tail _ hstep ih =>
    obtain ⟨-, -, -, c, hc, hc'⟩ := hstep
    rw [ih, hc, hc']

section Shown

variable {read : Block → Prop} (hm : r.ShownBy read m) (hcells : ∀ x y, r.ReportsCell read x y ↔ r.IsCell (x, y))

include hm hcells

/-- Every facet stands for a cell. -/
theorem exists_cell (hf : m.links.isLiveFacet f = true) : ∃ p, r.StandsFor m f p := by
  obtain ⟨x, y, hreports, hid, -⟩ := (hm.facets _ _).1 ⟨f, hf, rfl, rfl⟩
  exact ⟨(x, y), hf, (hcells x y).1 hreports, hid⟩

/-- There is a facet for every cell. -/
theorem exists_facet (hp : r.IsCell p) : ∃ f, r.StandsFor m f p := by
  obtain ⟨f, hf, hid, -⟩ := (hm.facets _ _).2 ⟨p.1, p.2, (hcells _ _).2 hp, rfl, rfl⟩
  exact ⟨f, hf, hp, hid⟩

omit hcells in
/-- The sides of a facet are those of its cell. -/
theorem StandsFor.sideIds (h : r.StandsFor m f p) : m.sideIds f = cyclicPairs (cellIds r.width (r.cellId p)) := by
  obtain ⟨x, y, -, hid, hcorners⟩ := (hm.facets _ _).1 ⟨f, h.live, rfl, rfl⟩
  have hentry := congrArg Prod.snd (Block.cellEntry_eq r.width x y)
  unfold Mesh.sideIds
  rw [hcorners, ← h.facetId, hid]
  exact congrArg cyclicPairs hentry

omit hcells in
/-- Facets share an edge if their cells touch. -/
theorem StandsFor.beside_iff (hf : r.StandsFor m f p) (hg : r.StandsFor m g q) :
    m.Beside f g ↔ Touching p q := by
  have hwidth : 2 ≤ r.width := by
    have hx := hf.isCell.1
    omega
  refine (hm.sound.exists_across_iff hf.live hg.live).trans ?_
  rw [hf.sideIds hm, hg.sideIds hm, shareSide_cellIds hwidth, touching_iff hf.isCell hg.isCell]

omit hm hcells in
/-- Facets are alike if their cells have the same class. -/
theorem StandsFor.alike_iff (hf : r.StandsFor m f p) (hg : r.StandsFor m g q) :
    r.cellClasses.alike (m.facetId f) (m.facetId g) = true ↔
      ∃ c, r.classOf p = some c ∧ r.classOf q = some c := by
  rw [FacetClasses.alike_iff, hf.facetId, hg.facetId, get?_cellClasses hf.isCell, get?_cellClasses hg.isCell]

omit hcells in
/-- Facets are alike neighbours if their cells adjoin. -/
theorem StandsFor.alikeBeside_iff (hf : r.StandsFor m f p) (hg : r.StandsFor m g q) :
    m.AlikeBeside r.cellClasses.alike f g ↔ r.Adjoins p q := by
  have hsymm : (∃ c, r.classOf q = some c ∧ r.classOf p = some c) ↔
      ∃ c, r.classOf p = some c ∧ r.classOf q = some c := exists_congr fun c => and_comm
  unfold Mesh.AlikeBeside Adjoins
  rw [hf.beside_iff hm hg, hf.alike_iff hg, hg.alike_iff hf, hsymm, or_self]
  exact ⟨fun h => ⟨hf.isCell, hg.isCell, h⟩, fun h => h.2.2⟩

/-- Facets are connected if a path joins their cells on which the class stays the same. -/
theorem StandsFor.connected_iff (hf : r.StandsFor m f p) (hg : r.StandsFor m g q) :
    m.Connected r.cellClasses.alike f g ↔ Relation.ReflTransGen r.Adjoins p q := by
  constructor
  · intro h
    induction h generalizing q with
    | refl =>
      obtain rfl := cellId_inj hf.isCell hg.isCell (hf.facetId.symm.trans hg.facetId)
      exact .refl
    | @tail g' g hpath hstep ih =>
      -- The last facet but one stands for a cell too.
      obtain ⟨q', hg'⟩ := exists_cell hm hcells (hm.sound.ringed.beside_live hstep.1).1
      exact (ih hg').tail ((hg'.alikeBeside_iff hm hg).1 hstep)
  · intro h
    induction h generalizing g with
    | refl =>
      obtain rfl : f = g := hm.sound.facets.inj hf.live hg.live (hf.facetId.trans hg.facetId.symm)
      exact .refl
    | @tail q' q hpath hstep ih =>
      obtain ⟨g', hg'⟩ := exists_facet hm hcells hstep.1
      exact (ih hg').tail ((hg'.alikeBeside_iff hm hg).2 hstep)

/-- The facets that are connected with a facet stand for the cells that are joined with its cell. -/
theorem StandsFor.exists_connected_iff (hf : r.StandsFor m f p) {id : ℕ} :
    (∃ g, m.links.isLiveFacet g = true ∧ m.facetId g = id ∧ m.Connected r.cellClasses.alike f g) ↔
      ∃ q, Relation.ReflTransGen r.Adjoins p q ∧ id = r.cellId q := by
  constructor
  · rintro ⟨g, hg, rfl, hpath⟩
    obtain ⟨q, hgq⟩ := exists_cell hm hcells hg
    exact ⟨q, (hf.connected_iff hm hcells hgq).1 hpath, hgq.facetId⟩
  · rintro ⟨q, hpath, rfl⟩
    -- The last cell of a path is a cell, as it adjoins the one before, and so it has a facet.
    have hq : r.IsCell q := by
      cases hpath with
      | refl => exact hf.isCell
      | tail _ hstep => exact hstep.2.1
    obtain ⟨g, hg⟩ := exists_facet hm hcells hq
    exact ⟨g, hg.live, hg.facetId, (hf.connected_iff hm hcells hg).2 hpath⟩

/-- The lists of the partition are the regions of the raster. -/
theorem mem_partition_iff {report : RegionReport} {parts : List (Facet × Region)} {visited : Std.TreeSet ℕ}
    (h : RegionReport.Lists m (m.alikeSets r.cellClasses.alike) m.links.liveFacets parts report visited) {l : List ℕ} :
    l ∈ report.partition ↔ r.IsRegion l := by
  rw [h.mem_partition hm.sound.ringed]
  constructor
  · rintro ⟨f, hf, hl, hmem⟩
    obtain ⟨p, hfp⟩ := exists_cell hm hcells hf
    exact ⟨p, hfp.isCell, hl, fun id => (hmem id).trans (hfp.exists_connected_iff hm hcells)⟩
  · rintro ⟨p, hp, hl, hmem⟩
    obtain ⟨f, hfp⟩ := exists_facet hm hcells hp
    exact ⟨f, hfp.live, hl, fun id => (hmem id).trans (hfp.exists_connected_iff hm hcells).symm⟩

/-- The cells of a region have the same class. -/
theorem classOf_eq_of_members {report : RegionReport} {parts : List (Facet × Region)} {visited : Std.TreeSet ℕ}
    (h : RegionReport.Lists m (m.alikeSets r.cellClasses.alike) m.links.liveFacets parts report visited)
    {a : Region} (ha : a ∈ report.regions.toList) (hp : r.IsCell p) (hq : r.IsCell q)
    (hpa : r.cellId p ∈ a.members) (hqa : r.cellId q ∈ a.members) : r.classOf p = r.classOf q := by
  rw [h.regions] at ha
  obtain ⟨part, hpart, rfl⟩ := List.mem_map.1 ha
  obtain ⟨seed, hseed⟩ := exists_cell hm hcells (h.collects part hpart).1
  -- Each cell of the region is joined with the one it was collected from by a path, along which the class stays.
  have hsame : ∀ {p}, r.IsCell p → r.cellId p ∈ part.2.members → r.classOf seed = r.classOf p := by
    intro p hp hmem
    obtain ⟨g, hg, hid, hpath⟩ := (h.mem_members_iff hm.sound.ringed hpart).1 hmem
    exact classOf_eq_of_path ((hseed.connected_iff hm hcells ⟨hg, hp, hid⟩).1 hpath)
  rw [← hsame hp hpa, hsame hq hqa]

end Shown

/-- What a report says of the cells of a raster. -/
structure DividedBy (r : Raster) (report : RegionReport) : Prop where
  /-- The lists of the partition are the regions. -/
  partition : ∀ l, l ∈ report.partition ↔ r.IsRegion l
  /-- No region is listed twice. -/
  nodup : report.partition.Nodup
  /-- With a band of classes, regions that are neighbours have different classes. -/
  neighbors : r.classes ≠ none → ∀ a ∈ report.regions.toList, ∀ b ∈ report.regions.toList, b.root ∈ a.neighbors →
    ∀ p q, r.IsCell p → r.IsCell q → r.cellId p ∈ a.members → r.cellId q ∈ b.members → r.classOf p ≠ r.classOf q
  /-- Without one, every cell is a region. -/
  singletons : r.classes = none → ∀ l, l ∈ report.partition ↔ ∃ p, r.IsCell p ∧ l = [r.cellId p]

/-- A raster without a band of classes has no classes. -/
theorem classOf_of_classes_eq_none (hclasses : r.classes = none) (p : ℕ × ℕ) : r.classOf p = none := by
  unfold classOf class?
  rw [hclasses, Option.bind_none, ite_self]

/-- Without classes every cell is a region of its own. -/
theorem isRegion_iff_of_classes (hclasses : r.classes = none) {l : List ℕ} :
    r.IsRegion l ↔ ∃ p, r.IsCell p ∧ l = [r.cellId p] := by
  -- Cells without a class are alike to none, so no path leads from a cell to another one.
  have hpath : ∀ p q, Relation.ReflTransGen r.Adjoins p q ↔ q = p := by
    intro p q
    refine ⟨fun h => ?_, fun h => h ▸ .refl⟩
    cases h with
    | refl => rfl
    | tail _ hstep =>
      obtain ⟨-, -, -, c, hc, -⟩ := hstep
      rw [classOf_of_classes_eq_none hclasses] at hc
      cases hc
  unfold IsRegion
  refine exists_congr fun p => and_congr_right fun _ => ?_
  simp only [hpath, exists_eq_left]
  constructor
  · rintro ⟨hl, hmem⟩
    exact RegionReport.eq_of_pairwise_lt hl (List.pairwise_singleton _ _) fun id => by
      rw [hmem, List.mem_singleton]
  · rintro rfl
    exact ⟨List.pairwise_singleton _ _, fun id => List.mem_singleton⟩

/-- Read completely from the start, a raster is turned into a mesh whose regions by class are those of the raster. -/
theorem Valid.exists_dividedBy (h : r.Valid) (hcursor : r.cursor = 0) (hall : r.ReadsAll)
    (hsize : r.width * r.height < 2 ^ 64) :
    ∃ m report, Mesh.ofReader r = .ok m ∧ m.regionsByClass r.cellClasses = .ok report ∧ r.DividedBy report := by
  have hwidth := lt_of_mul_lt_word h.height_pos hsize
  have hheight := lt_of_mul_lt_word h.width_pos (Nat.mul_comm r.width r.height ▸ hsize)
  obtain ⟨m, hofReader, happ⟩ := h.exists_appended hwidth hheight hcursor
  have hm := h.shownBy happ
  have hcells : ∀ x y, r.ReportsCell r.VisitsFitting x y ↔ r.IsCell (x, y) :=
    fun x y => h.reportsCell_iff (p := (x, y)) hall hsize
  have hringed := hm.sound.ringed
  obtain ⟨report, parts, visited, hregions, hlists⟩ :=
    hringed.regions hm.sound.checkLinks_eq_ok hm.sound.checkFacetIds_eq_ok r.cellClasses.alike
  have hpartition : ∀ l, l ∈ report.partition ↔ r.IsRegion l := fun l => mem_partition_iff hm hcells hlists
  refine ⟨m, report, hofReader, hregions, hpartition, hlists.nodup_partition hringed, ?_, ?_⟩
  · intro hclasses a ha b hb hroot p q hp hq hpa hqb he
    obtain ⟨f, g, hbeside, hfa, hgb, hunlike⟩ := hlists.exists_unlike_of_neighbor hringed ha hb hroot
    obtain ⟨hf, hg⟩ := hringed.beside_live hbeside
    obtain ⟨p', hfp⟩ := exists_cell hm hcells hf
    obtain ⟨q', hgq⟩ := exists_cell hm hcells hg
    -- The class of each region is that of its facet at the common edge.
    have hpclass := classOf_eq_of_members hm hcells hlists ha hp hfp.isCell hpa (hfp.facetId ▸ hfa)
    have hqclass := classOf_eq_of_members hm hcells hlists hb hq hgq.isCell hqb (hgq.facetId ▸ hgb)
    obtain ⟨c, hc⟩ := Option.ne_none_iff_exists'.1 (h.classOf_ne_none hclasses hp)
    have halike := (hfp.alike_iff hgq).2 ⟨c, hpclass.symm.trans hc, hqclass.symm.trans (he.symm.trans hc)⟩
    rw [hunlike] at halike
    cases halike
  · exact fun hclasses l => (hpartition l).trans (isRegion_iff_of_classes hclasses)

/-- What the regions are depends on the size of the raster and its classes alone. -/
theorem isRegion_congr {r' : Raster} (hwidth : r'.width = r.width) (hheight : r'.height = r.height)
    (hclasses : r'.classes = r.classes) {l : List ℕ} : r'.IsRegion l ↔ r.IsRegion l := by
  -- Cells, their ids and their classes are all that the regions are made of.
  have hcell : r'.IsCell = r.IsCell := by
    funext p
    unfold IsCell
    rw [hwidth, hheight]
  have hid : r'.cellId = r.cellId := by
    funext p
    unfold cellId
    rw [hwidth]
  have hclass : r'.classOf = r.classOf := by
    funext p
    unfold classOf class?
    rw [hwidth, hheight, hclasses]
  have hadjoins : r'.Adjoins = r.Adjoins := by
    funext p q
    unfold Adjoins
    rw [hcell, hclass]
  unfold IsRegion
  rw [hcell, hid, hadjoins]

end Raster

/-- A raster of which all blocks are read is turned into a mesh without a failure, and the regions of the mesh by class
are found without a failure, if the ids of its samples fit in words. They are the connected regions of cells of equal
class, so that neither the tiling nor the order of the blocks shows in the partition. -/
theorem Mesh.regionsByClass_raster {r : Raster} (h : r.Built) (hcursor : r.cursor = 0) (hall : r.ReadsAll)
    (hsize : r.width * r.height < 2 ^ 64) :
    ∃ m report, Mesh.ofReader r = .ok m ∧ m.regionsByClass r.cellClasses = .ok report ∧ r.DividedBy report ∧
      ∀ r' m' report', Raster.Built r' → r'.cursor = 0 → r'.ReadsAll → r'.width = r.width → r'.height = r.height →
        r'.classes = r.classes → Mesh.ofReader r' = .ok m' → m'.regionsByClass r'.cellClasses = .ok report' →
          report'.partition = report.partition := by
  obtain ⟨m, report, hm, hreport, hdivided⟩ := h.valid.exists_dividedBy hcursor hall hsize
  refine ⟨m, report, hm, hreport, hdivided, ?_⟩
  intro r' m' report' h' hcursor' hall' hwidth hheight hclasses hm' hreport'
  -- The other raster is divided in the same way by itself, and a region of the one is a region of the other.
  obtain ⟨m'', report'', hm'', hreport'', hdivided'⟩ :=
    h'.valid.exists_dividedBy hcursor' hall' (by rwa [hwidth, hheight])
  obtain rfl : m' = m'' := Except.ok.inj (hm'.symm.trans hm'')
  obtain rfl : report' = report'' := Except.ok.inj (hreport'.symm.trans hreport'')
  refine RegionReport.partition_eq hdivided'.nodup hdivided.nodup fun l => ?_
  rw [hdivided'.partition, hdivided.partition, Raster.isRegion_congr hwidth hheight hclasses]

/-- A raster of four columns and three rows with three classes is divided in the same way when it is read as a single
block and when it is read in four blocks, the last one first. -/
theorem Mesh.regionsByClass_tiled : ∃ r r' : Raster, (r.Built ∧ r.cursor = 0 ∧ r.ReadsAll) ∧
    (r'.Built ∧ r'.cursor = 0 ∧ r'.ReadsAll) ∧ r.width * r.height < 2 ^ 64 ∧ r.tiling ≠ r'.tiling ∧ r.classes ≠ none ∧
      ∃ m m' report report', Mesh.ofReader r = .ok m ∧ m.regionsByClass r.cellClasses = .ok report ∧
        Mesh.ofReader r' = .ok m' ∧ m'.regionsByClass r'.cellClasses = .ok report' ∧
          r.DividedBy report ∧ report'.partition = report.partition := by
  let tiling : Tiling := ⟨2, 2, by decide, by decide⟩
  let whole : Raster := { width := 4, height := 3, tiling := ⟨4, 3, by decide, by decide⟩, order := [(0, 0)] }
  let band : Array ℕ := #[1, 1, 2, 0, 1, 2, 2, 0, 0, 0, 0, 0]
  let r : Raster := { whole with classes := some band }
  let r' : Raster := { r.withTiling tiling with order := (tiling.rowMajor (4, 3)).reverse }.rewind
  have hbuilt : r.Built := by
    have hmake : Raster.make 4 3 = .ok whole := rfl
    have hclasses : whole.withClasses band = .ok r :=
      bind_eq_ok.2 ⟨(), Raster.checkBand_eq_ok.2 (by decide), rfl⟩
    exact (Raster.Built.make hmake).withClasses hclasses
  have hbuilt' : r'.Built := by
    have horder : (r.withTiling tiling).withOrder (tiling.rowMajor (4, 3)).reverse = .ok r' :=
      bind_eq_ok.2 ⟨(), Raster.checkOrder_eq_ok.2 (by decide), rfl⟩
    exact (hbuilt.withTiling tiling).withOrder horder
  -- The single block of the first raster is all there is to read.
  have hall : r.ReadsAll := by
    have hlist : r.order = r.tiling.rowMajor r.size := by decide
    intro place hcolumn hrow
    rw [hlist]
    exact Tiling.mem_rowMajor.2 ⟨hcolumn, hrow⟩
  have hall' : r'.ReadsAll := fun place hcolumn hrow =>
    List.mem_reverse.2 (Tiling.mem_rowMajor.2 ⟨hcolumn, hrow⟩)
  obtain ⟨m, report, hm, hreport, hdivided, hsame⟩ := regionsByClass_raster hbuilt rfl hall (by decide)
  obtain ⟨m', report', hm', hreport', -⟩ := regionsByClass_raster hbuilt' rfl hall' (by decide)
  have htiling : r.tiling ≠ r'.tiling := fun he => absurd (congrArg Tiling.width he) (by decide)
  have hpartition := hsame r' m' report' hbuilt' rfl hall' rfl rfl rfl hm' hreport'
  exact ⟨r, r', ⟨hbuilt, rfl, hall⟩, ⟨hbuilt', rfl, hall'⟩, by decide, htiling, by simp [r], m, m', report, report',
    hm, hreport, hm', hreport', hdivided, hpartition⟩

end RegionMesh
