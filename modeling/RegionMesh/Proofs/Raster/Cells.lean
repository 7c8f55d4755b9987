import Mathlib.Tactic.Ring
import RegionMesh.Proofs.Mesh.Strip
import RegionMesh.Proofs.Raster.Append

/-!
# The cells of a raster fit together

The cells of a raster are those of a strip as wide as a row of samples (`Block.cellEntry_eq`), and all of them fit
together. In a mesh whose vertices and facets have the ids of samples and cells, another cell is therefore accepted
(`Mesh.Sound.exists_addCell`).
-/

namespace RegionMesh

/-- The corners of a cell follow from its id. -/
theorem Block.cellEntry_eq (w x y : ℕ) : Block.cellEntry w (x, y) = (x + y * w, cellIds w (x + y * w)) := by
  have hthird : x + 1 + (y + 1) * w = x + y * w + 1 + w := by ring
  have hsecond : x + 1 + y * w = x + y * w + 1 := by ring
  have hfourth : x + (y + 1) * w = x + y * w + w := by ring
  simp only [cellEntry, cellCorners, Quad.toList, cellIds, hsecond, hthird, hfourth]

/-- Where all facets are cells, another cell is accepted. -/
theorem Mesh.Sound.exists_addCell {m : Mesh} {w : ℕ} (hm : m.Sound) (hw : 2 ≤ w)
    (hcells : ∀ f, m.links.isLiveFacet f = true → (m.links.corners f).map m.vertexId = cellIds w (m.facetId f))
    {vs : List Vertex} {id : ℕ} (hlive : ∀ v ∈ vs, m.links.isLiveVertex v = true)
    (hvs : vs.map m.vertexId = cellIds w id) (hid : m.findFacet? id = none) :
    ∃ f m', Mesh.addFacet vs id m = (.ok f, m') := by
  have hn : vs.Nodup := List.Nodup.of_map m.vertexId (hvs ▸ nodup_cellIds hw id)
  have hlength : vs.length = 4 := by rw [← List.length_map m.vertexId, hvs]; rfl
  have hnone : m.facetCorners id = none := Option.map_eq_none_iff.2 hid
  have hcorners : ∀ i l, Function.update m.facetCorners id (some vs) i = some l →
      l.map m.vertexId = cellIds w i ∧ ∀ v ∈ l, m.links.isLiveVertex v = true := by
    intro i l hl
    rw [Function.update_apply] at hl
    split at hl
    · rename_i hi
      obtain rfl := Option.some.inj hl
      exact ⟨by rw [hvs, hi], hlive⟩
    · obtain ⟨f, hf, rfl, rfl⟩ := hm.facetCorners_eq_some.1 hl
      exact ⟨hcells f hf, fun v hv => hm.corner_live hf hv⟩
  -- With the new one all facets are cells, so they fit together as cells do.
  have hfits : Fits (Function.update m.facetCorners id (some vs)) := by
    refine (fits_cellIds hw).of_map (f := fun v => ⟨m.vertexId v⟩) (fun i l hl => ?_) ?_
    · rw [← (hcorners i l hl).1, List.map_map]
      rfl
    · intro i j k l u v hk hl hu hv he
      exact hm.vertices.inj ((hcorners i k hk).2 u hu) ((hcorners j l hl).2 v hv) (Vertex.mk.inj he)
  exact hm.exists_addFacet hlive hn (by omega) hnone hfits

end RegionMesh
