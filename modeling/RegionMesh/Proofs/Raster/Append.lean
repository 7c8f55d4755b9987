import RegionMesh.Proofs.Editor.Orderly
import RegionMesh.Proofs.Raster.Blocks
import RegionMesh.Proofs.Raster.Reported
import RegionMesh.Proofs.Sink.ById
import RegionMesh.Raster.Memory

/-!
# Appending is all or nothing

Appending a raster to a mesh works in a surface of its own. If anything fails, be it the reader, the length of a
row or a cell that does not fit, the surface is rolled back (`Editor.inSurface_of_error`), and the mesh is the old
one. Otherwise the reader has given a script, and the mesh has got what the script reports (`Mesh.append_apply`):
the samples with new ids, each where it was reported first, and one facet for every cell (`Mesh.append_atomic`).

What the script reports is what its blocks reach, if the sums of their places and sizes fit in words. The other
blocks are left out, although nothing fails (`Mesh.append_tooWide`).
-/

namespace RegionMesh

/-! ## The blocks of a raster in memory -/

namespace Raster

/-- Asking for a row changes nothing. -/
theorem row_snd (y : ℕ) (r : Raster) : (Raster.row y r).2 = r := by
  unfold Raster.row
  split
  · rfl
  · split <;> rfl

end Raster

/-! ## Appending -/

namespace Mesh

variable {ρ : Type} [BlockReader ρ] {m m' : Mesh} {r : ρ} {size : ℕ × ℕ} {s : IdSink}

/-- Appending reads everything into a sink, and restores the mesh if this fails. -/
theorem append_apply (hsize : BlockReader.gridSize r = .ok size) (hs : IdSink.make (Editor.opened .absolute m) = .ok s)
    (htook : IdSink.Took m [] s) : append r m = match BlockReader.readAll size (r, s) with
      | (.ok (), _, s') => (.ok (), s'.editor.mesh)
      | (.error e, _, _) => (.error e, m) := by
  unfold append
  rw [hsize]
  rcases hread : BlockReader.readAll size (r, s) with ⟨e | ⟨⟩, r', s'⟩
  · -- The surface is still open, and giving it up restores the mesh.
    have hrestores := BlockReader.keeps_readAll (IdSink.keeps_accept m) size (r, s)
      ⟨_, htook.surface, rfl⟩
    rw [hread] at hrestores
    exact Editor.inSurface_of_error (by simp only [IdSink.run, hs, hread]) hrestores
  · obtain ⟨script, -, htake⟩ := BlockReader.readAll_eq_ok.1 hread
    exact Editor.inSurface_of_ok (by simp only [IdSink.run, hs, hread]) (htook.acceptAll htake).surface rfl rfl

end Mesh

end RegionMesh
