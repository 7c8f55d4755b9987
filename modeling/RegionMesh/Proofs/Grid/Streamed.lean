import RegionMesh.Proofs.Grid.Shape
import RegionMesh.Proofs.Raster.Regions

/-!
# Grids from rasters

A raster with `w + 1` columns and `h + 1` rows of samples has the cells of a grid of `w` columns and `h` rows. When all
its blocks are read, its mesh is that of the grid seen from behind (`Mesh.grid_mirrors_ofReader`), whatever its tiling
and whatever the order of the blocks.

The vertices have the same ids, as both number the samples row by row. The facets do not: a grid numbers its cells
without gaps, and a raster gives a cell the id of its first sample, so the last sample of a row leaves a gap. A facet is
therefore found by the column and the row of its cell (`Grid.counterpart`). Its corners are reported the other way
round, which `Grid.swap_mem_cellIds` says of the cells, and `Mesh.Turned.mirrors` of meshes.
-/

namespace RegionMesh

namespace Grid

/-- The facet that stands for the cell of a facet of a grid, in the mesh of a raster. -/
def counterpart (w : ℕ) (m m' : Mesh) (f : Facet) : Facet :=
  (m'.findFacet? (m.facetId f % w + m.facetId f / w * (w + 1))).getD f

/-- The mesh of a grid and a mesh whose facets have the ids of its cells in a raster have the same shape. -/
structure SameAsStreamed (w h : ℕ) (m m' : Mesh) : Prop where
  /-- There is a facet for every cell in both of them. -/
  facet : ∀ i < h, ∀ j < w, ∃ f, m.links.isLiveFacet f = true ∧ m.facetId f = i * w + j ∧
    m'.facetId (counterpart w m m' f) = j + i * (w + 1)
  /-- There are no other facets. -/
  place : ∀ f, m.links.isLiveFacet f = true → ∃ i < h, ∃ j < w, m.facetId f = i * w + j
  /-- Vertices, edges, corners, neighbours and the border are the same. -/
  mirrors : m.Mirrors m' (counterpart w m m')

variable {w h i j : ℕ} {m m' : Mesh} {r : Raster}

section Placed

variable (hm : ({} : Mesh).Placed (samples w ((h + 1) * (w + 1))) (cells w (h * w)) m)

include hm

/-- A facet has the place of a cell. -/
theorem exists_place_of_facet {f : Facet} (hf : m.links.isLiveFacet f = true) :
    ∃ i < h, ∃ j < w, f = ⟨i * w + j⟩ := by
  have hslot : f.slot < m.facetCount := Connectivity.slot_lt_of_isLiveFacet hf
  rw [facetCount_eq hm] at hslot
  obtain ⟨i, hi, j, hj, hplace⟩ := exists_place hslot
  exact ⟨i, hi, j, hj, congrArg Facet.mk hplace⟩

/-- The vertex ids are the places of the samples. -/
theorem exists_vertex_iff {id : ℕ} :
    (∃ v, m.links.isLiveVertex v = true ∧ m.vertexId v = id) ↔ id < (h + 1) * (w + 1) := by
  constructor
  · rintro ⟨v, hv, rfl⟩
    have hslot : v.slot < m.vertexCount := Connectivity.slot_lt_of_isLiveVertex hv
    rw [vertexCount_eq hm] at hslot
    rwa [(hm.vertex_of_sample (getElem?_samples hslot)).2.1]
  · intro hid
    obtain ⟨hv, hvid, -⟩ := hm.vertex_of_sample (getElem?_samples hid)
    exact ⟨_, hv, hvid⟩

end Placed

section Streamed

variable (hm : ({} : Mesh).Placed (samples w ((h + 1) * (w + 1))) (cells w (h * w)) m)
  (hm' : r.ShownBy r.VisitsFitting m') (hcells : ∀ x y, r.ReportsCell r.VisitsFitting x y ↔ r.IsCell (x, y))
  (hwidth : r.width = w + 1) (hheight : r.height = h + 1)

include hm hm' hcells hwidth hheight

/-- The counterpart of a facet stands for the cell in the same column and row. -/
theorem standsFor_counterpart (hi : i < h) (hj : j < w) :
    r.StandsFor m' (counterpart w m m' ⟨i * w + j⟩) (j, i) := by
  have hcell : r.IsCell (j, i) := ⟨by dsimp only; omega, by dsimp only; omega⟩
  obtain ⟨g, hg⟩ := Raster.exists_facet hm' hcells hcell
  -- The counterpart is looked up by the column and the row of the facet, which division gives back.
  have hid : (i * w + j) % w + (i * w + j) / w * (w + 1) = r.cellId (j, i) := by
    rw [place_column i hj, place_row i hj, ← hwidth]
    rfl
  have hfound : m'.findFacet? (r.cellId (j, i)) = some g := hm'.sound.findFacet?_eq_some.2 ⟨hg.live, hg.facetId⟩
  unfold counterpart
  rwa [(facet_of_place hm hi hj).2.1, hid, hfound]

/-- Every facet has a counterpart that turns the other way. -/
theorem turned_counterpart : m.Turned m' (counterpart w m m') := by
  have hstands := fun {i j} => standsFor_counterpart hm hm' hcells hwidth hheight (i := i) (j := j)
  refine ⟨⟨fun f hf => ?_, fun f hf g hg he => ?_, fun g hg => ?_⟩, fun f hf x => ?_⟩
  · obtain ⟨i, hi, j, hj, rfl⟩ := exists_place_of_facet hm hf
    exact (hstands hi hj).live
  · obtain ⟨i, hi, j, hj, rfl⟩ := exists_place_of_facet hm hf
    obtain ⟨i', hi', j', hj', rfl⟩ := exists_place_of_facet hm hg
    have hf' := hstands hi hj
    have hg' := hstands hi' hj'
    -- Facets with one counterpart are facets of one cell.
    have hcell := Raster.cellId_inj hf'.isCell hg'.isCell (hf'.facetId.symm.trans (he ▸ hg'.facetId))
    obtain ⟨rfl, rfl⟩ := Prod.mk.inj hcell
    rfl
  · obtain ⟨⟨j, i⟩, hp⟩ := Raster.exists_cell hm' hcells hg
    obtain ⟨hj, hi⟩ := hp.isCell
    dsimp only at hi hj
    have hi : i < h := by omega
    have hj : j < w := by omega
    refine ⟨⟨i * w + j⟩, (facet_of_place hm hi hj).1, ?_⟩
    exact hm'.sound.facets.inj (hstands hi hj).live hg ((hstands hi hj).facetId.trans hp.facetId.symm)
  · obtain ⟨i, hi, j, hj, rfl⟩ := exists_place_of_facet hm hf
    have hfirst : r.cellId (j, i) = vertexAt w i j := by
      unfold Raster.cellId vertexAt
      rw [hwidth, Nat.add_comm]
    rw [sideIds_eq hm hi hj, (hstands hi hj).sideIds hm', hwidth, hfirst, swap_mem_cellIds]

/-- Where all samples and cells of a raster are reported, its mesh has the shape of the grid. -/
theorem sameAsStreamed (hsamples : ∀ x y, r.ReportsSample r.VisitsFitting x y ↔ x < r.width ∧ y < r.height) :
    SameAsStreamed w h m m' := by
  -- The streamed mesh has a vertex for each sample, and the samples have the ids of the grid.
  have hvertices : ∀ id, (∃ v, m'.links.isLiveVertex v = true ∧ m'.vertexId v = id) ↔ id < (h + 1) * (w + 1) := by
    intro id
    constructor
    · rintro ⟨v, hv, rfl⟩
      obtain ⟨x, y, hreports, hid, -⟩ := (hm'.vertices _ _).1 ⟨v, hv, rfl, rfl⟩
      obtain ⟨hx, hy⟩ := (hsamples x y).1 hreports
      rw [hwidth] at hx hid
      rw [hheight] at hy
      rw [hid, Nat.add_comm]
      exact place_lt hy hx
    · intro hid
      obtain ⟨y, hy, x, hx, rfl⟩ := exists_place hid
      rw [← hheight] at hy
      rw [← hwidth] at hx
      obtain ⟨v, hv, hvid, -⟩ := (hm'.vertices _ _).2 ⟨x, y, (hsamples x y).2 ⟨hx, hy⟩, rfl, rfl⟩
      exact ⟨v, hv, by rw [hvid, hwidth, Nat.add_comm]⟩
  refine ⟨fun i hi j hj => ?_, fun f hf => ?_, ?_⟩
  · have hstands := standsFor_counterpart hm hm' hcells hwidth hheight hi hj
    obtain ⟨hf, hid, -⟩ := facet_of_place hm hi hj
    exact ⟨_, hf, hid, hwidth ▸ hstands.facetId⟩
  · obtain ⟨i, hi, j, hj, rfl⟩ := exists_place_of_facet hm hf
    exact ⟨i, hi, j, hj, (facet_of_place hm hi hj).2.1⟩
  · exact (turned_counterpart hm hm' hcells hwidth hheight).mirrors hm.sound hm'.sound fun id =>
      (exists_vertex_iff hm).trans (hvertices id).symm

end Streamed

end Grid

/-- A grid is built, and a raster with its samples is turned into a mesh, without a failure, if a word can count the
samples, each of which is a vertex with a handle of its own. Where all blocks of the raster are read, in whatever tiling
and order, the two meshes have the same vertex ids, edges, corners, neighbours and borders. -/
theorem Mesh.grid_mirrors_ofReader {w h : ℕ} (hw : 1 ≤ w) (hh : 1 ≤ h) {r : Raster} (hr : r.Built)
    (hcursor : r.cursor = 0) (hsize : r.size = (w + 1, h + 1)) (hwords : (w + 1) * (h + 1) < 2 ^ 64)
    (hall : r.ReadsAll) :
    ∃ m m', Mesh.grid w h = .ok m ∧ Mesh.ofReader r = .ok m' ∧ Grid.SameAsStreamed w h m m' := by
  obtain ⟨m, hgrid, hm⟩ := Grid.exists_placed hw hh
  obtain ⟨hwidth, hheight⟩ := Prod.mk.inj hsize
  -- There are two samples in each direction, so that no sum is too large.
  have hcolumns : r.width + 1 < 2 ^ 64 := hwidth ▸ Raster.add_one_lt_of_mul_lt_word (by omega) hwords
  have hrows : r.height + 1 < 2 ^ 64 :=
    hheight ▸ Raster.add_one_lt_of_mul_lt_word (b := w + 1) (by omega) (Nat.mul_comm (w + 1) (h + 1) ▸ hwords)
  obtain ⟨m', hstream, happ⟩ := hr.valid.exists_appended (by omega) (by omega) hcursor
  have hcells : ∀ x y, r.ReportsCell r.VisitsFitting x y ↔ r.IsCell (x, y) :=
    fun x y => hr.valid.reportsCell_iff (p := (x, y)) hall (hwidth ▸ hheight ▸ hwords)
  exact ⟨m, m', hgrid, hstream, Grid.sameAsStreamed hm (hr.valid.shownBy happ) hcells hwidth hheight fun x y =>
    hr.valid.reportsSample_iff hall hcolumns hrows⟩

/-- A grid of three columns and two rows, and a raster that is read in four blocks, the last one first. -/
theorem Mesh.grid_mirrors_ofReader_tiled : ∃ r : Raster, 1 ≤ 3 ∧ 1 ≤ 2 ∧ r.Built ∧ r.cursor = 0 ∧ r.size = (4, 3) ∧
    4 * 3 < 2 ^ 64 ∧ r.ReadsAll ∧ r.order ≠ r.tiling.rowMajor r.size ∧
      ∃ m m', Mesh.grid 3 2 = .ok m ∧ Mesh.ofReader r = .ok m' ∧ Grid.SameAsStreamed 3 2 m m' := by
  let whole : Raster := { width := 4, height := 3, tiling := ⟨4, 3, by decide, by decide⟩, order := [(0, 0)] }
  let tiled := whole.withTiling ⟨3, 2, by decide, by decide⟩
  let r : Raster := { tiled with order := (tiled.tiling.rowMajor (4, 3)).reverse }.rewind
  have hmake : Raster.make 4 3 = .ok whole := rfl
  have horder : tiled.withOrder (tiled.tiling.rowMajor (4, 3)).reverse = .ok r :=
    bind_eq_ok.2 ⟨(), Raster.checkOrder_eq_ok.2 (by decide), rfl⟩
  have hbuilt : r.Built := ((Raster.Built.make hmake).withTiling _).withOrder horder
  have hall : r.ReadsAll := fun place hcolumn hrow => List.mem_reverse.2 (Tiling.mem_rowMajor.2 ⟨hcolumn, hrow⟩)
  exact ⟨r, by decide, by decide, hbuilt, rfl, rfl, by decide, hall, by decide,
    Mesh.grid_mirrors_ofReader (by decide) (by decide) hbuilt rfl rfl (by decide) hall⟩

end RegionMesh
