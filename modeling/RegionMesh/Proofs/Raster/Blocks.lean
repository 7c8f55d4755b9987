import Mathlib.Data.List.Nodup
import Mathlib.Data.List.Pairwise
import Mathlib.Data.Nat.Notation
import RegionMesh.Raster.Tiling

/-!
# The blocks of a tiling

A tiling cuts each side of a raster into parts of one length, of which the last may be shorter. An element of a side is
in the part that division gives, and in no other one (`Tiling.mem_part_iff`), and a part starts and ends inside the side
(`Tiling.block_inside`). The blocks of a tiling are listed row by row, each of them once.
-/

namespace RegionMesh

namespace Tiling

/-! ## Parts of a side -/

/-- A part of a whole starts inside it. -/
theorem mul_lt_of_lt_partsToCover {whole part n : ℕ} (hpart : 0 < part)
    (h : n < partsToCover whole part) : n * part < whole := by
  unfold partsToCover at h
  have hle := (Nat.le_div_iff_mul_le hpart).1 (Nat.succ_le_of_lt h)
  rw [Nat.succ_mul] at hle
  omega

/-- Every element of a whole is in one of its parts. -/
theorem div_lt_partsToCover {whole part n : ℕ} (hpart : 0 < part) (h : n < whole) :
    n / part < partsToCover whole part := by
  unfold partsToCover
  rw [← Nat.succ_le_iff, Nat.le_div_iff_mul_le hpart, Nat.succ_mul]
  have hle := Nat.div_mul_le_self n part
  omega

/-- An element of a whole is in the part that division gives, and in no other one. -/
theorem mem_part_iff {whole part n i : ℕ} (hpart : 0 < part) (hi : i < whole) :
    n * part ≤ i ∧ i < n * part + min part (whole - n * part) ↔ n = i / part := by
  constructor
  · rintro ⟨hle, hlt⟩
    refine (Nat.div_eq_of_lt_le hle ?_).symm
    rw [Nat.succ_mul]
    omega
  · rintro rfl
    have hle := Nat.div_mul_le_self i part
    have hlt := Nat.lt_div_mul_add hpart (a := i)
    omega

/-! ## Blocks -/

variable {t : Tiling} {size : ℕ × ℕ} {column row : ℕ} {b : Block}

/-- A block is given for every place in the grid of blocks, cut off at the end of the raster. -/
theorem block_eq_ok : t.block size column row = .ok b ↔
    (column < (t.counts size).1 ∧ row < (t.counts size).2) ∧
      b = ⟨column * t.width, row * t.height, min t.width (size.1 - column * t.width),
        min t.height (size.2 - row * t.height)⟩ := by
  unfold block
  split
  · rename_i hout
    refine iff_of_false (by simp) ?_
    rintro ⟨⟨hcolumn, hrow⟩, -⟩
    omega
  · rename_i hin
    rw [not_or, Nat.not_le, Nat.not_le] at hin
    rw [Except.ok.injEq, and_iff_right hin]
    exact eq_comm

/-- A block has columns and rows, and lies inside the raster. -/
theorem block_inside (h : t.block size column row = .ok b) :
    (0 < b.width ∧ b.x + b.width ≤ size.1) ∧ 0 < b.height ∧ b.y + b.height ≤ size.2 := by
  obtain ⟨⟨hcolumn, hrow⟩, rfl⟩ := block_eq_ok.1 h
  have hx : column * t.width < size.1 := mul_lt_of_lt_partsToCover t.width_pos hcolumn
  have hy : row * t.height < size.2 := mul_lt_of_lt_partsToCover t.height_pos hrow
  have hwidth := t.width_pos
  have hheight := t.height_pos
  dsimp only
  omega

/-- Blocks in different places are different. -/
theorem block_inj {column' row' : ℕ} (h : t.block size column row = .ok b) (h' : t.block size column' row' = .ok b) :
    column = column' ∧ row = row' := by
  obtain ⟨-, rfl⟩ := block_eq_ok.1 h
  obtain ⟨-, he⟩ := block_eq_ok.1 h'
  obtain ⟨hx, hy, -, -⟩ := Block.mk.inj he
  exact ⟨Nat.eq_of_mul_eq_mul_right t.width_pos hx, Nat.eq_of_mul_eq_mul_right t.height_pos hy⟩

/-! ## The list of all blocks -/

/-- All blocks of a tiling are listed, and nothing else. -/
theorem mem_rowMajor {place : ℕ × ℕ} :
    place ∈ t.rowMajor size ↔ place.1 < (t.counts size).1 ∧ place.2 < (t.counts size).2 := by
  simp only [rowMajor, List.mem_flatMap, List.mem_range, List.mem_map]
  constructor
  · rintro ⟨row, hrow, column, hcolumn, rfl⟩
    exact ⟨hcolumn, hrow⟩
  · rintro ⟨hcolumn, hrow⟩
    exact ⟨place.2, hrow, place.1, hcolumn, rfl⟩

/-- No block is listed twice. -/
theorem nodup_rowMajor (t : Tiling) (size : ℕ × ℕ) : (t.rowMajor size).Nodup := by
  refine List.nodup_flatMap.2 ⟨fun row _ => ?_, ?_⟩
  · exact List.nodup_range.map fun i j he => (Prod.mk.inj he).1
  · refine List.nodup_range.imp fun {row row'} hne => ?_
    rintro place hmem hmem'
    obtain ⟨_, -, rfl⟩ := List.mem_map.1 hmem
    obtain ⟨_, -, he⟩ := List.mem_map.1 hmem'
    exact hne (Prod.mk.inj he).2.symm

end Tiling

end RegionMesh
