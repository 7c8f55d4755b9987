import RegionMesh.Proofs.Grid.Cells
import RegionMesh.Proofs.Sink.ByPosition

/-!
# The mesh of a procedural grid

A grid is built without a failure (`Grid.exists_placed`). The vertices come first, and the id of each is free, as it is
the number of those before it (`Grid.took_vertices`). When a cell is reported, all facets so far are cells before it,
so that it fits (`Grid.took_cells`), whatever edges it finds.
-/

namespace RegionMesh

namespace Grid

/-- The first `n` vertices of a grid, as samples. -/
def samples (w n : ℕ) : List (ℕ × Point) := (List.range n).map (sampleAt w)

/-- The first `n` cells of a grid, by id. -/
def cells (w n : ℕ) : List (ℕ × List ℕ) := (List.range n).map (cellAt w)

/-- As many samples are listed as are asked for. -/
@[simp]
theorem length_samples (w n : ℕ) : (samples w n).length = n := by
  simp [samples]

/-- As many cells are listed as are asked for. -/
@[simp]
theorem length_cells (w n : ℕ) : (cells w n).length = n := by
  simp [cells]

/-- The samples are listed by their places. -/
theorem getElem?_samples {w n k : ℕ} (hk : k < n) : (samples w n)[k]? = some (sampleAt w k) := by
  simp [samples, hk]

/-- The cells are listed by their places. -/
theorem getElem?_cells {w n k : ℕ} (hk : k < n) : (cells w n)[k]? = some (cellAt w k) := by
  simp [cells, hk]

/-- The calls up to the `k`-th cell report `n` samples and `k` cells. -/
theorem samples_calls (w n k : ℕ) :
    ((List.range n).map (vertexCall w) ++ (List.range k).map (cellCall w)).filterMap SinkCall.sample? = samples w n ∧
      ((List.range n).map (vertexCall w) ++ (List.range k).map (cellCall w)).filterMap SinkCall.cell? =
        cells w k := by
  rw [List.filterMap_append, List.filterMap_append, List.filterMap_map, List.filterMap_map, List.filterMap_map,
    List.filterMap_map]
  -- The calls for samples report all samples and no cells, and those for cells the other way round.
  have hsamples : (List.range n).filterMap (SinkCall.sample? ∘ vertexCall w) = samples w n :=
    congrFun (List.filterMap_eq_map (f := sampleAt w)) _
  have hnone : (List.range k).filterMap (SinkCall.sample? ∘ cellCall w) = [] :=
    List.filterMap_eq_nil_iff.2 fun _ _ => rfl
  have hnone' : (List.range n).filterMap (SinkCall.cell? ∘ vertexCall w) = [] :=
    List.filterMap_eq_nil_iff.2 fun _ _ => rfl
  have hcells : (List.range k).filterMap (SinkCall.cell? ∘ cellCall w) = cells w k :=
    congrFun (List.filterMap_eq_map (f := cellAt w)) _
  rw [hsamples, hnone, hnone', hcells, List.append_nil, List.nil_append]
  exact ⟨rfl, rfl⟩

variable {w h : ℕ} {s₀ : PositionSink}

/-- The vertices are taken one after another. -/
theorem took_vertices (hs₀ : PositionSink.Took {} [] s₀) (n : ℕ) :
    ∃ s, CellSink.acceptAll ((List.range n).map (vertexCall w)) s₀ = (.ok (), s) ∧
      PositionSink.Took {} ((List.range n).map (vertexCall w)) s := by
  induction n with
  | zero => exact ⟨s₀, rfl, hs₀⟩
  | succ n ih =>
    obtain ⟨s, hs, htook⟩ := ih
    have hmesh := htook.mesh
    have hsamples := (samples_calls w n 0).1
    rw [List.range_zero, List.map_nil, List.append_nil] at hsamples
    rw [hsamples] at hmesh
    -- The ids so far are smaller.
    have hfree : s.editor.mesh.findVertex? n = none := by
      refine hmesh.findVertex?_eq_none Mesh.sound_empty (by simp [Mesh.findVertex?]) fun x hx => ?_
      obtain ⟨k, hk, rfl⟩ := List.mem_map.1 hx
      exact Nat.ne_of_lt (List.mem_range.1 hk)
    obtain ⟨s', hs', htook'⟩ := htook.accept_vertex (sampleAt w n).2 hfree
    rw [List.range_succ, List.map_append]
    exact ⟨s', CellSink.acceptAll_concat hs hs', htook'⟩

/-- A mesh with the first cells takes the next one. -/
theorem exists_addCell (hw : 0 < w) {m : Mesh} {n : ℕ}
    (hm : ({} : Mesh).Placed (samples w ((h + 1) * (w + 1))) (cells w n) m) (hn : n < h * w) :
    ∃ f m', Mesh.addFacet ((cellAt w n).2.map Vertex.mk) n m = (.ok f, m') := by
  have hlive : ∀ v ∈ (cellAt w n).2.map Vertex.mk, m.links.isLiveVertex v = true := by
    intro v hv
    obtain ⟨c, hc, rfl⟩ := List.mem_map.1 hv
    obtain ⟨i, hi, j, hj, rfl⟩ := exists_place hn
    rw [cellAt_place i hj] at hc
    exact (hm.vertex_of_sample (getElem?_samples (cornersAt_lt hi hj hc))).1
  have hnodup : ((cellAt w n).2.map Vertex.mk).Nodup :=
    (nodup_cornersAt hw _ _).map fun a b he => Vertex.mk.inj he
  have hcells : ∀ {id l}, m.facetCorners id = some l → id < n ∧ l = (cellAt w id).2.map Vertex.mk := by
    intro id l hl
    obtain ⟨c, hc, rfl, rfl⟩ := hm.cell_of_facetCorners hl
    obtain ⟨k, hk, rfl⟩ := List.mem_map.1 hc
    exact ⟨List.mem_range.1 hk, rfl⟩
  have hid : m.facetCorners n = none := by
    rw [Option.eq_none_iff_forall_ne_some]
    exact fun l hl => Nat.lt_irrefl n (hcells hl).1
  -- The facets and the cell are some of all cells, and these fit together.
  have hfits : Fits (Function.update m.facetCorners n (some ((cellAt w n).2.map Vertex.mk))) := by
    refine (fits_cellAt hw).mono fun id l hl => ?_
    rw [Function.update_apply] at hl
    split at hl
    · rename_i hid
      rw [hid]
      exact hl
    · rw [(hcells hl).2]
  exact hm.sound.exists_addFacet hlive hnodup (by simp [cellAt, Quad.toList]) hid hfits

/-- The cells are taken one after another. -/
theorem took_cells (hw : 0 < w) (hs₀ : PositionSink.Took {} [] s₀) {n : ℕ} (hn : n ≤ h * w) :
    ∃ s, CellSink.acceptAll
        ((List.range ((h + 1) * (w + 1))).map (vertexCall w) ++ (List.range n).map (cellCall w)) s₀ = (.ok (), s) ∧
      PositionSink.Took {}
        ((List.range ((h + 1) * (w + 1))).map (vertexCall w) ++ (List.range n).map (cellCall w)) s := by
  induction n with
  | zero =>
    rw [List.range_zero, List.map_nil, List.append_nil]
    exact took_vertices hs₀ _
  | succ n ih =>
    obtain ⟨s, hs, htook⟩ := ih (Nat.le_of_succ_le hn)
    obtain ⟨hsamples, hcells⟩ := samples_calls w ((h + 1) * (w + 1)) n
    have hmesh := htook.mesh
    rw [hsamples, hcells] at hmesh
    -- The facets of the mesh so far are the cells before this one, and it fits beside them.
    obtain ⟨f, m', hadd⟩ := exists_addCell hw hmesh hn
    have hcorners : ∀ c ∈ (cornersAt w (n / w) (n % w)).toList, c < (samples w ((h + 1) * (w + 1))).length := by
      intro c hc
      rw [length_samples]
      exact cornersAt_lt ((Nat.div_lt_iff_lt_mul hw).2 hn) (Nat.mod_lt n hw) hc
    have hbase : (fun i => (⟨({} : Mesh).vertexCount + i⟩ : Vertex)) = Vertex.mk :=
      funext fun i => congrArg Vertex.mk (Nat.zero_add i)
    rw [← hsamples] at hcorners
    obtain ⟨s', hs', htook'⟩ := htook.accept_cell hcorners ⟨f, m', by rw [hbase]; exact hadd⟩
    rw [List.range_succ, List.map_append, ← List.append_assoc]
    exact ⟨s', CellSink.acceptAll_concat hs hs', htook'⟩

/-- A grid with cells is built, and has its vertices and cells in order. -/
theorem exists_placed (hw : 0 < w) (hh : 0 < h) : ∃ m, Mesh.grid w h = .ok m ∧
    ({} : Mesh).Placed (samples w ((h + 1) * (w + 1))) (cells w (h * w)) m := by
  -- The sink is made on an empty mesh, takes all calls, and leaves the surface ready to be ended.
  obtain ⟨s₀, hmake, hs₀⟩ := PositionSink.took_make Mesh.sound_empty
  obtain ⟨s, hs, htook⟩ := took_cells hw hs₀ (Nat.le_refl (h * w))
  have hmesh := htook.mesh
  rw [(samples_calls w ((h + 1) * (w + 1)) (h * w)).1, (samples_calls w ((h + 1) * (w + 1)) (h * w)).2] at hmesh
  rw [← vertexCalls_eq, ← cellCalls_eq] at hs
  have hfeed : feed w h s₀ = (.ok (), s) := by
    unfold feed
    rw [if_neg (by omega)]
    exact hs
  have hrun : PositionSink.run (feed w h) (Editor.opened .relative {}) = (.ok (), s.editor) := by
    simp only [PositionSink.run, hmake, hfeed]
  refine ⟨s.editor.mesh, ?_, hmesh⟩
  unfold Mesh.grid
  rw [Editor.inSurface_of_ok hrun htook.surface rfl rfl]
  rfl

end Grid

end RegionMesh
