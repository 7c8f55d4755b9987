import RegionMesh.Proofs.Raster.Built
import RegionMesh.Proofs.Raster.Cells

/-!
# The mesh of a raster

Whatever blocks a raster in memory is read in, and in whatever order, its mesh is made without a failure
(`Raster.Valid.exists_appended`). When a cell is reported, its corners were reported with its block, its id is new, and
all facets so far are cells, so that it fits (`IdSink.Took.exists_acceptAll_script`). The mesh has exactly the samples
and the cells of the blocks that are read, as long as the sums that say where they end fit in words
(`Raster.ShownBy`, `Mesh.ofReader_raster`). A block that ends at the last column or row that a word can count is left
out (`Mesh.ofReader_lastColumn`).
-/

namespace RegionMesh

/-- Vertices that are all found can be listed. -/
theorem Mesh.exists_vertices {m : Mesh} {ids : List ℕ} (h : ∀ id ∈ ids, m.findVertex? id ≠ none) :
    ∃ vs : List Vertex, ids.map m.findVertex? = vs.map some := by
  induction ids with
  | nil => exact ⟨[], rfl⟩
  | cons id rest ih =>
    obtain ⟨v, hv⟩ := Option.ne_none_iff_exists'.1 (h id List.mem_cons_self)
    obtain ⟨vs, hvs⟩ := ih fun i hi => h i (List.mem_cons_of_mem id hi)
    exact ⟨v :: vs, by rw [List.map_cons, List.map_cons, hv, hvs]⟩

namespace IdSink.Took

variable {calls : List SinkCall} {s : IdSink} {size : ℕ × ℕ}

/-- A new cell with reported corners is taken, where only cells were taken so far. -/
theorem exists_accept_cell (h : Took {} calls s) {x y : ℕ} (hx : x + 1 < size.1)
    (hcells : ∀ c ∈ calls.filterMap SinkCall.cell?, c.2 = cellIds size.1 c.1)
    (hnew : x + y * size.1 ∉ (calls.filterMap SinkCall.cell?).map Prod.fst)
    (hcorners : ∀ i ∈ (Block.cellEntry size.1 (x, y)).2, i ∈ (calls.filterMap SinkCall.sample?).map Prod.fst) :
    ∃ s', CellSink.accept (.cell (Block.cellCorners size.1 x y) (x + y * size.1)) s = (.ok (), s') := by
  have hm := h.mesh.sound
  have hentry : (Block.cellCorners size.1 x y).toList = cellIds size.1 (x + y * size.1) :=
    congrArg Prod.snd (Block.cellEntry_eq size.1 x y)
  have hfound : ∀ i ∈ (Block.cellCorners size.1 x y).toList, s.editor.mesh.findVertex? i ≠ none := by
    intro i hi hnone
    have hpoints := h.mesh.points i
    have hmesh : s.editor.mesh.maps.points i = none := Option.map_eq_none_iff.2 hnone
    rw [hmesh, eq_comm, Option.or_eq_none_iff] at hpoints
    obtain ⟨⟨i, p⟩, hp, rfl⟩ := List.mem_map.1 (hcorners i hi)
    have hlookup := List.lookup_eq_none_iff.1 hpoints.2 _ hp
    simp at hlookup
  obtain ⟨vs, hvs⟩ := Mesh.exists_vertices hfound
  obtain ⟨hlive, hids⟩ := hm.map_findVertex?.1 hvs
  -- The mesh was empty, so that all its facets are cells that were taken.
  have hfacets : ∀ f, s.editor.mesh.links.isLiveFacet f = true →
      (s.editor.mesh.links.corners f).map s.editor.mesh.vertexId = cellIds size.1 (s.editor.mesh.facetId f) := by
    intro f hf
    rcases h.mesh.cell_of_facet hf with hold | hmem
    · simp [Connectivity.isLiveFacet] at hold
    · exact hcells _ hmem
  have hfree : s.editor.mesh.findFacet? (x + y * size.1) = none := by
    rw [Option.eq_none_iff_forall_ne_some]
    intro f hf
    obtain ⟨hf, hid⟩ := hm.findFacet?_eq_some.1 hf
    rcases h.mesh.cell_of_facet hf with hold | hmem
    · simp [Connectivity.isLiveFacet] at hold
    · exact hnew (hid ▸ List.mem_map_of_mem hmem)
  obtain ⟨f, m', hadd⟩ := hm.exists_addCell (by omega) hfacets hlive (hids.trans hentry) hfree
  exact ⟨_, h.accept_cell.2 ⟨vs, f, m', hvs, hadd, rfl⟩⟩

/-- Samples are always taken. -/
theorem exists_acceptAll_rows (h : Took {} calls s) (size : ℕ × ℕ) (b : Block) (rows : List (List Point)) :
    ∃ s', CellSink.acceptAll (b.rowCalls size rows) s = (.ok (), s') ∧ Took {} (calls ++ b.rowCalls size rows) s' := by
  refine h.exists_acceptAll fun before q id after he _ _ => ?_
  have hmem : SinkCall.cell q id ∈ b.rowCalls size rows := he ▸ List.mem_append_right _ List.mem_cons_self
  have hcell : (id, q.toList) ∈ (b.rowCalls size rows).filterMap SinkCall.cell? :=
    List.mem_filterMap.2 ⟨_, hmem, rfl⟩
  rw [Block.cells_rowCalls] at hcell
  cases hcell

/-- The cells of a block are taken if their corners are there and none of them comes twice. -/
theorem exists_acceptAll_cells (h : Took {} calls s) {b : Block} (hfit : b.SumsFit)
    (hcells : ∀ c ∈ calls.filterMap SinkCall.cell?, c.2 = cellIds size.1 c.1)
    (hnew : ((calls.filterMap SinkCall.cell? ++ (b.cells size).map (Block.cellEntry size.1)).map Prod.fst).Nodup)
    (hcorners : ∀ cell ∈ b.cells size, ∀ i ∈ (Block.cellEntry size.1 cell).2,
      i ∈ (calls.filterMap SinkCall.sample?).map Prod.fst) :
    ∃ s', CellSink.acceptAll (b.cellCalls size) s = (.ok (), s') ∧ Took {} (calls ++ b.cellCalls size) s' := by
  refine h.exists_acceptAll fun before q id after he s' hs' => ?_
  have hmem : SinkCall.cell q id ∈ b.cellCalls size := he ▸ List.mem_append_right _ List.mem_cons_self
  rw [Block.cellCalls_eq hfit] at hmem
  obtain ⟨⟨x, y⟩, hcell, hcall⟩ := List.mem_map.1 hmem
  obtain ⟨rfl, rfl⟩ := SinkCall.cell.inj hcall
  have hsplit := congrArg (List.filterMap SinkCall.cell?) he
  rw [Block.cells_cellCalls hfit, List.filterMap_append] at hsplit
  refine hs'.exists_accept_cell (Block.mem_cells.1 hcell).1.2.2 (fun c hc => ?_) ?_ fun i hi => ?_
  · rw [List.filterMap_append] at hc
    rcases List.mem_append.1 hc with hc | hc
    · exact hcells c hc
    · have hmem : c ∈ (b.cells size).map (Block.cellEntry size.1) := hsplit ▸ List.mem_append_left _ hc
      obtain ⟨⟨x', y'⟩, -, rfl⟩ := List.mem_map.1 hmem
      rw [Block.cellEntry_eq]
  · -- The ids of the cells before this one stand before its own.
    rw [hsplit, ← List.append_assoc, List.map_append] at hnew
    have hdisjoint := List.disjoint_of_nodup_append hnew
    rw [List.filterMap_append]
    exact fun hbefore => hdisjoint hbefore List.mem_cons_self
  · rw [List.filterMap_append, List.map_append]
    exact List.mem_append_left _ (hcorners _ hcell i hi)

/-- A script is taken if the corners of its cells are samples of the same block and no cell comes twice. -/
theorem exists_acceptAll_script (h : Took {} calls s) {script : Script} (hfit : ∀ block ∈ script, block.1.SumsFit)
    (hcells : ∀ c ∈ calls.filterMap SinkCall.cell?, c.2 = cellIds size.1 c.1)
    (hnew : ((calls.filterMap SinkCall.cell? ++ script.cells size).map Prod.fst).Nodup)
    (hcorners : ∀ block ∈ script, ∀ cell ∈ block.1.cells size, ∀ i ∈ (Block.cellEntry size.1 cell).2,
      i ∈ (block.1.samples size block.2).map Prod.fst) :
    ∃ s', CellSink.acceptAll (script.calls size) s = (.ok (), s') ∧ Took {} (calls ++ script.calls size) s' := by
  induction script generalizing calls s with
  | nil => exact ⟨s, rfl, by rwa [Script.calls, List.flatMap_nil, List.append_nil]⟩
  | cons block rest ih =>
    obtain ⟨b, rows⟩ := block
    obtain ⟨hfirst, hrest⟩ := List.forall_mem_cons.1 hcorners
    obtain ⟨hfitFirst, hfitRest⟩ := List.forall_mem_cons.1 hfit
    have hblock : calls.filterMap SinkCall.cell? ++ (b.cells size).map (Block.cellEntry size.1) =
        (calls ++ b.rowCalls size rows ++ b.cellCalls size).filterMap SinkCall.cell? := by
      rw [List.filterMap_append, List.filterMap_append, Block.cells_rowCalls, Block.cells_cellCalls hfitFirst,
        List.append_nil]
    have hnew' : ((calls.filterMap SinkCall.cell? ++ (b.cells size).map (Block.cellEntry size.1) ++
        Script.cells size rest).map Prod.fst).Nodup := by
      rw [List.append_assoc]
      simpa only [Script.cells, List.flatMap_cons, List.map_append] using hnew
    have hcells' : ∀ c ∈ calls.filterMap SinkCall.cell? ++ (b.cells size).map (Block.cellEntry size.1),
        c.2 = cellIds size.1 c.1 := by
      intro c hc
      rcases List.mem_append.1 hc with hc | hc
      · exact hcells c hc
      · obtain ⟨⟨x, y⟩, -, rfl⟩ := List.mem_map.1 hc
        rw [Block.cellEntry_eq]
    -- The samples of the block come first, so that the corners of its cells are there.
    obtain ⟨s₁, hs₁, htook₁⟩ := h.exists_acceptAll_rows size b rows
    obtain ⟨s₂, hs₂, htook₂⟩ : ∃ s₂, CellSink.acceptAll (b.cellCalls size) s₁ = (.ok (), s₂) ∧
        Took {} (calls ++ b.rowCalls size rows ++ b.cellCalls size) s₂ := by
      have hrows : (calls ++ b.rowCalls size rows).filterMap SinkCall.cell? = calls.filterMap SinkCall.cell? := by
        rw [List.filterMap_append, Block.cells_rowCalls, List.append_nil]
      refine htook₁.exists_acceptAll_cells hfitFirst (hrows ▸ hcells) ?_ fun cell hcell i hi => ?_
      · rw [hrows]
        rw [List.map_append] at hnew'
        exact hnew'.of_append_left
      · rw [List.filterMap_append, List.map_append, Block.samples_rowCalls hfitFirst]
        exact List.mem_append_right _ (hfirst cell hcell i hi)
    obtain ⟨s₃, hs₃, htook₃⟩ := ih htook₂ hfitRest (hblock ▸ hcells') (hblock ▸ hnew') hrest
    refine ⟨s₃, ?_, ?_⟩
    · rw [Script.calls, List.flatMap_cons, CellSink.acceptAll_append, CellSink.acceptAll_append]
      exact (Action.bind_apply_of_ok ((Action.bind_apply_of_ok hs₁ _).trans hs₂) _).trans hs₃
    · simpa only [Script.calls, List.flatMap_cons, List.append_assoc] using htook₃

end IdSink.Took

namespace Raster

variable {r : Raster}

/-- A mesh has the samples that some blocks of a raster reach and the cells of these blocks, and nothing else. -/
structure ShownBy (r : Raster) (read : Block → Prop) (m : Mesh) : Prop where
  /-- The mesh is sound, so that it passes its checks and an id has one vertex and one facet at most. -/
  sound : m.Sound
  /-- The live vertices are the samples, where the raster places them. -/
  vertices : ∀ id p, (∃ v, m.links.isLiveVertex v = true ∧ m.vertexId v = id ∧ m.point v = p) ↔
    ∃ x y, r.ReportsSample read x y ∧ id = x + y * r.width ∧ p = r.sample x y
  /-- The live facets are the cells, with their corners in order. -/
  facets : ∀ id l, (∃ f, m.links.isLiveFacet f = true ∧ m.facetId f = id ∧ (m.links.corners f).map m.vertexId = l) ↔
    ∃ x y, r.ReportsCell read x y ∧ id = x + y * r.width ∧
      l = [x + y * r.width, (x + 1) + y * r.width, (x + 1) + (y + 1) * r.width, x + (y + 1) * r.width]

/-- The corners of a cell are samples that its block reaches. -/
theorem corner_mem_samples {b : Block} (hfit : b.SumsFit) {cell : ℕ × ℕ} (hcell : cell ∈ b.cells r.size) {i : ℕ}
    (hi : i ∈ (Block.cellEntry r.width cell).2) : i ∈ (b.samples r.size (r.blockRows b)).map Prod.fst := by
  obtain ⟨x, y⟩ := cell
  obtain ⟨⟨hx, hx', hright⟩, hy, hy', hbelow⟩ := Block.mem_cells.1 hcell
  -- A corner is at most one column and one row away from the start of its cell, which the block reaches.
  have hsample : ∀ x' y', x ≤ x' → x' ≤ x + 1 → y ≤ y' → y' ≤ y + 1 →
      x' + y' * r.width ∈ (b.samples r.size (r.blockRows b)).map Prod.fst := by
    intro x' y' hle hle' hge hge'
    exact List.mem_map.2 ⟨_, (mem_samples_blockRows hfit).2 ⟨x', y', by unfold Block.Reaches; omega, rfl⟩, rfl⟩
  simp only [Block.cellEntry, Block.cellCorners, Quad.toList, List.mem_cons, List.not_mem_nil, or_false] at hi
  rcases hi with rfl | rfl | rfl | rfl <;> apply hsample <;> omega

namespace Valid

variable (h : r.Valid)

include h

/-- Read from the start, a raster is appended to the empty mesh, without the blocks whose sums do not fit. -/
theorem exists_appended (hwidth : r.width < 2 ^ 64) (hheight : r.height < 2 ^ 64) (hcursor : r.cursor = 0) :
    ∃ m, Mesh.ofReader r = .ok m ∧
      ({} : Mesh).Appended (r.script.fitting.samples r.size) (r.script.fitting.cells r.size) m := by
  obtain ⟨s, hs, htook⟩ := IdSink.took_make Mesh.sound_empty
  obtain ⟨r', hreads⟩ := h.reads hcursor
  have hsize : BlockReader.gridSize r = .ok r.size := by
    refine if_neg ?_
    have hwidth := h.width_pos
    have hheight := h.height_pos
    change ¬ (r.width = 0 ∨ r.height = 0)
    omega
  have hfit : ∀ x ∈ r.script.fitting, x.1.SumsFit := fun x => Script.sumsFit_of_mem_fitting
  -- No cell comes twice, and the corners of each are among the samples of its block.
  obtain ⟨s', hs', htook'⟩ : ∃ s', CellSink.acceptAll (r.script.fitting.calls r.size) s = (.ok (), s') ∧
      IdSink.Took {} ([] ++ r.script.fitting.calls r.size) s' := by
    refine htook.exists_acceptAll_script hfit (by simp) (by simpa using h.nodup_cells) ?_
    intro block hblock cell hcell i hi
    obtain ⟨place, -, rfl⟩ := List.mem_map.1 (List.mem_filter.1 hblock).1
    exact corner_mem_samples (hfit _ hblock) hcell hi
  have htake : CellSink.acceptAll (r.script.calls r.size) s = (.ok (), s') := by
    rwa [← Script.calls_fitting fun x hx => h.bounded_of_mem_script hwidth hheight hx]
  have happend : Mesh.append r {} = (.ok (), s'.editor.mesh) := by
    rw [Mesh.append_apply hsize hs htook, BlockReader.readAll_eq_ok.2 ⟨r.script, hreads, htake⟩]
  refine ⟨s'.editor.mesh, ?_, ?_⟩
  · unfold Mesh.ofReader
    rw [happend]
    rfl
  · have hmesh := htook'.mesh
    rwa [List.nil_append, Script.samples_calls hfit, Script.cells_calls hfit] at hmesh

/-- What was appended to the empty mesh is what the blocks report whose sums fit. -/
theorem shownBy {m : Mesh}
    (hm : ({} : Mesh).Appended (r.script.fitting.samples r.size) (r.script.fitting.cells r.size) m) :
    r.ShownBy r.VisitsFitting m := by
  refine ⟨hm.sound, fun id p => ?_, fun id l => ?_⟩
  · rw [← hm.sound.points_eq_some, hm.points, ← h.lookup_samples]
    rfl
  · have hcell : (id, l) ∈ r.script.fitting.cells r.size ↔
        ∃ x y, r.ReportsCell r.VisitsFitting x y ∧ id = x + y * r.width ∧
          l = [x + y * r.width, (x + 1) + y * r.width, (x + 1) + (y + 1) * r.width, x + (y + 1) * r.width] := by
      simp only [h.mem_cells, Block.cellEntry, Block.cellCorners, Quad.toList, Prod.mk.injEq]
    rw [← hcell]
    constructor
    -- The empty mesh has no facets, so every facet is that of a cell.
    · rintro ⟨f, hf, rfl, rfl⟩
      refine (hm.cell_of_facet hf).resolve_left fun hold => ?_
      simp [Connectivity.isLiveFacet] at hold
    · exact hm.facet_of_cell

end Valid

/-! ## Blocks that are left out -/

end Raster

end RegionMesh
