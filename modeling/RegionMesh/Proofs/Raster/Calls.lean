import RegionMesh.Proofs.Raster.Built

/-!
# Rasters under any calls

A raster takes calls in any order: it is tiled and given an order and bands while it is being read. None of this leaves
an order or a current block of an older tiling behind (`Raster.Consistent`), so that the next block and the rows are
always given. Only the end of a row may be wrong: where the current block ends at the last column that a word can count,
the row is given without samples (`Raster.AnswersRow`, `Call.row_lastColumn`).

How far reading has got is a number, that of the blocks asked for since reading last started (`Raster.ReadTo`). What
one call can do to it is said once (`Call.Effect`): a call for the next block raises it by one and answers with the
block at this place of the order (`ReadTo.nextBlock`), a call that starts reading anew sets it back, and no other call
changes it. So the answers between two starts are the blocks of the order, one after another, and then none
(`ReadTo.answers`).
-/

namespace RegionMesh

namespace Raster

variable {r r' : Raster} {n : ℕ}

/-! ## Calls -/

/-- The raster that a change gives, or the raster as it is if the change is refused. -/
def changed (r : Raster) : Except RasterError Raster → Raster
  | .ok r' => r'
  | .error _ => r

/-- What holds of a raster, and of what a change gives if it is not refused, holds of it afterwards. -/
theorem changed_of {P : Raster → Prop} {answer : Except RasterError Raster} (hkept : P r)
    (hchanged : ∀ r', answer = .ok r' → P r') : P (r.changed answer) := by
  cases answer with
  | error e => exact hkept
  | ok r' => exact hchanged r' rfl

/-- A call on a raster. -/
inductive Call where
  /-- Place the samples by another map. -/
  | withTransform (map : AffineMap)
  /-- Tile the raster. -/
  | withTiling (t : Tiling)
  /-- Give the order of the blocks. -/
  | withOrder (order : List (ℕ × ℕ))
  /-- Give the samples elevations. -/
  | withElevation (band : Array Float)
  /-- Give the samples classes. -/
  | withClasses (band : Array ℕ)
  /-- Start reading anew. -/
  | rewind
  /-- Ask for the next block. -/
  | nextBlock
  /-- Ask for a row. -/
  | row (y : ℕ)

namespace Call

/-- The raster after a call. -/
def perform (call : Call) (r : Raster) : Raster :=
  match call with
  | withTransform map => r.withTransform map
  | withTiling t => r.withTiling t
  | withOrder order => r.changed (r.withOrder order)
  | withElevation band => r.changed (r.withElevation band)
  | withClasses band => r.changed (r.withClasses band)
  | rewind => r.rewind
  | nextBlock => (Raster.nextBlock r).2
  | row y => (Raster.row y r).2

/-- The raster after a list of calls. -/
def run (calls : List Call) (r : Raster) : Raster := calls.foldl (fun r call => call.perform r) r

/-- Whether a call starts the reading anew. An order that is refused does not. -/
def Restarts (call : Call) (r : Raster) : Prop :=
  match call with
  | withTiling _ | rewind => True
  | withOrder order => ∃ r', r.withOrder order = .ok r'
  | _ => False

/-- None of some calls starts the reading anew. -/
def Undisturbed : List Call → Raster → Prop
  | [], _ => True
  | call :: rest, r => ¬ call.Restarts r ∧ Undisturbed rest (call.perform r)

/-- The answers to those of some calls that ask for the next block. -/
def answers : List Call → Raster → List (Except Failure (Option Block))
  | [], _ => []
  | nextBlock :: rest, r => (Raster.nextBlock r).1 :: answers rest (nextBlock.perform r)
  | call :: rest, r => answers rest (call.perform r)

variable {call : Call} {calls rest : List Call}

/-- Only a call for the next block adds an answer. -/
theorem answers_cons (hcall : call ≠ nextBlock) : answers (call :: rest) r = answers rest (call.perform r) := by
  cases call with
  | nextBlock => exact absurd rfl hcall
  | _ => rfl

/-- The last call of a run is made on what the others leave. -/
theorem run_concat (calls : List Call) (call : Call) (r : Raster) :
    run (calls ++ [call]) r = call.perform (run calls r) := by
  simp [run]

end Call

open Call (Restarts)

variable {call : Call}

/-- A call is an operation of the raster, or changes nothing. -/
theorem Built.perform (h : r.Built) (call : Call) : (call.perform r).Built := by
  cases call with
  | withTransform map => exact h.withTransform map
  | withTiling t => exact h.withTiling t
  | withOrder order => exact changed_of h fun _ => h.withOrder
  | withElevation band => exact changed_of h fun _ => h.withElevation
  | withClasses band => exact changed_of h fun _ => h.withClasses
  | rewind => exact h.rewind
  | nextBlock => exact h.nextBlock
  | row y => exact h.row y

/-! ## What a call does to the reading -/

/-- Two rasters are read alike, and reading has got to the same place: at most the samples differ. -/
structure SameReading (r r' : Raster) : Prop where
  /-- The sizes agree. -/
  size : r'.size = r.size
  /-- The tilings agree. -/
  tiling : r'.tiling = r.tiling
  /-- The same blocks are to be read. -/
  order : r'.order = r.order
  /-- As many blocks have been read. -/
  cursor : r'.cursor = r.cursor
  /-- The current block is the same. -/
  current : r'.current = r.current

/-- A raster is read as itself. -/
theorem SameReading.refl (r : Raster) : SameReading r r := ⟨rfl, rfl, rfl, rfl, rfl⟩

/-- What a call does to the reading of a raster. -/
inductive Call.Effect (r : Raster) : Call → Raster → Prop
  /-- The next block is asked for. -/
  | next : Effect r .nextBlock (Raster.nextBlock r).2
  /-- Reading starts anew, in a raster of the same size. -/
  | restart {call : Call} {r' : Raster} (hcall : call.Restarts r) (hsize : r'.size = r.size) (hcursor : r'.cursor = 0)
      (hcurrent : r'.current = none) : Effect r call r'
  /-- Reading goes on as if there had been no call. -/
  | keep {call : Call} {r' : Raster} (hnext : call ≠ .nextBlock) (hcall : ¬ call.Restarts r)
      (hsame : SameReading r r') : Effect r call r'

/-- Behind the check of a band a change may touch the samples only. -/
theorem sameReading_of_checkBand {found : ℕ} (h : SameReading r r') :
    SameReading r (r.changed (do r.checkBand found; return r')) := by
  refine changed_of (.refl r) fun r'' hchange => ?_
  obtain ⟨_, -, he⟩ := bind_eq_ok.1 hchange
  obtain rfl := Except.ok.inj he
  exact h

/-- Every call has one of the effects. -/
theorem effect_perform (call : Call) (r : Raster) : call.Effect r (call.perform r) := by
  cases call with
  | withTransform map => exact .keep (by simp) id ⟨rfl, rfl, rfl, rfl, rfl⟩
  | withTiling t => exact .restart trivial rfl rfl rfl
  | withOrder order =>
    change Call.Effect r _ (r.changed (r.withOrder order))
    -- An order that is refused leaves the raster as it was, and one that is taken starts the reading again.
    cases hanswer : r.withOrder order with
    | error e => exact .keep (by simp) (fun ⟨_, hr'⟩ => by simp [hanswer] at hr') (.refl r)
    | ok r' =>
      obtain ⟨-, rfl⟩ := withOrder_eq_ok.1 hanswer
      exact .restart ⟨_, hanswer⟩ rfl rfl rfl
  | withElevation band => exact .keep (by simp) id (sameReading_of_checkBand ⟨rfl, rfl, rfl, rfl, rfl⟩)
  | withClasses band => exact .keep (by simp) id (sameReading_of_checkBand ⟨rfl, rfl, rfl, rfl, rfl⟩)
  | rewind => exact .restart trivial rfl rfl rfl
  | nextBlock => exact .next
  | row y =>
    refine .keep (by simp) id ?_
    change SameReading r (Raster.row y r).2
    rw [row_snd]
    exact .refl r

/-! ## How far reading has got -/

/-- The blocks of the order. -/
def blocks (r : Raster) : List Block := r.order.map r.blockAt

/-- Rasters that are read alike have the same blocks. -/
theorem SameReading.blocks (h : SameReading r r') : r'.blocks = r.blocks := by
  obtain ⟨hwidth, hheight⟩ := Prod.mk.inj h.size
  unfold Raster.blocks
  rw [h.order]
  refine List.map_congr_left fun place _ => ?_
  simp only [blockAt, h.tiling, hwidth, hheight]

/-- Since reading last started, so many blocks were asked for. -/
structure ReadTo (r : Raster) (n : ℕ) : Prop where
  /-- The cursor is at that place of the order, or behind the last one. -/
  cursor : r.cursor = min n r.order.length
  /-- The current block is the one that was asked for last, if there was one. -/
  current : r.current = if n = 0 then none else r.blocks[n - 1]?

/-- Rasters that are read alike have been read equally far. -/
theorem SameReading.readTo (h : SameReading r r') (hr : r.ReadTo n) : r'.ReadTo n := by
  constructor
  · rw [h.cursor, h.order, hr.cursor]
  · rw [h.current, h.blocks, hr.current]

/-- The current block is one of the order. -/
theorem ReadTo.current_mem (hr : r.ReadTo n) {b : Block} (hb : r.current = some b) : b ∈ r.blocks := by
  rw [hr.current] at hb
  split at hb
  · cases hb
  · exact List.mem_of_getElem? hb

/-- The next block is the one at the place that reading has got to, and behind the last one there is none. -/
theorem ReadTo.nextBlock (hr : r.ReadTo n) (h : r.Valid) :
    (Raster.nextBlock r).1 = .ok r.blocks[n]? ∧ (Raster.nextBlock r).2.blocks = r.blocks ∧
      (Raster.nextBlock r).2.ReadTo (n + 1) := by
  have hblock : r.blocks[n]? = r.order[n]?.map r.blockAt := List.getElem?_map
  -- Behind the last block the cursor stays, and neither place is in the order.
  have hplace : r.order[r.cursor]? = r.order[n]? := by
    rw [hr.cursor]
    rcases Nat.le_total n r.order.length with hn | hn
    · rw [Nat.min_eq_left hn]
    · rw [Nat.min_eq_right hn, List.getElem?_eq_none hn, List.getElem?_eq_none (Nat.le_refl _)]
  unfold Raster.nextBlock
  rw [hplace]
  cases hn : r.order[n]? with
  | none =>
    rw [hn, Option.map_none] at hblock
    have hle : r.order.length ≤ n := List.getElem?_eq_none_iff.1 hn
    refine ⟨by rw [hblock], rfl, ?_, ?_⟩
    · change r.cursor = min (n + 1) r.order.length
      rw [hr.cursor]
      omega
    · exact hblock.symm
  | some place =>
    rw [hn, Option.map_some] at hblock
    have hlt : n < r.order.length := (List.getElem?_eq_some_iff.1 hn).1
    simp only [h.block_eq (List.mem_of_getElem? hn)]
    refine ⟨by rw [hblock], rfl, ?_, ?_⟩
    · change r.cursor + 1 = min (n + 1) r.order.length
      rw [hr.cursor]
      omega
    · exact hblock.symm

/-- Reading that starts anew has got nowhere. -/
theorem readTo_zero (hcursor : r.cursor = 0) (hcurrent : r.current = none) : r.ReadTo 0 :=
  ⟨by rw [hcursor, Nat.zero_min], by rw [hcurrent, if_pos rfl]⟩

/-- After every call reading has got somewhere. -/
theorem ReadTo.perform (hr : r.ReadTo n) (h : r.Valid) (call : Call) : ∃ n', (call.perform r).ReadTo n' := by
  cases effect_perform call r with
  | next => exact ⟨_, (hr.nextBlock h).2.2⟩
  | restart _ _ hcursor hcurrent => exact ⟨0, readTo_zero hcursor hcurrent⟩
  | keep _ _ hsame => exact ⟨n, hsame.readTo hr⟩

/-- As long as reading is not started anew, the answers are the blocks of the order from the place on that it has got
to. -/
theorem ReadTo.answers (hr : r.ReadTo n) (h : r.Built) {calls : List Call} (hcalls : Call.Undisturbed calls r) {i : ℕ}
    {answer : Except Failure (Option Block)} (hi : (Call.answers calls r)[i]? = some answer) :
    answer = .ok r.blocks[n + i]? := by
  induction calls generalizing r n i with
  | nil => simp [Call.answers] at hi
  | cons call rest ih =>
    obtain ⟨hcall, hrest⟩ := hcalls
    have hbuilt := h.perform call
    cases effect_perform call r with
    | next =>
      obtain ⟨hanswer, hblocks, hread⟩ := hr.nextBlock h.valid
      cases i with
      | zero =>
        have he : (Raster.nextBlock r).1 = answer := by simpa [Call.answers] using hi
        rw [← he, hanswer, Nat.add_zero]
      | succ i =>
        have hlater := ih hread hbuilt hrest hi
        rw [hlater, Nat.add_assoc, Nat.add_comm 1 i]
        exact congrArg (fun bs => Except.ok bs[n + (i + 1)]?) hblocks
    -- Starting anew is what the calls do not do.
    | restart hcall' => exact absurd hcall' hcall
    | keep hnext _ hsame =>
      rw [Call.answers_cons hnext] at hi
      rw [ih (hsame.readTo hr) hbuilt hrest hi, hsame.blocks]

/-! ## Consistent rasters -/

/-- What a raster answers when row `y` is asked for. -/
structure AnswersRow (r : Raster) (y : ℕ) : Prop where
  /-- Without a current block the row is refused. -/
  noBlock : r.current = none → Raster.row y r = (.error (.raster .noBlockLoaded), r)
  /-- Below the last row there is none. -/
  outOfRange : ∀ b, r.current = some b → r.height ≤ y →
    Raster.row y r = (.error (.raster (.rowOutOfRange y r.height)), r)
  /-- A row has the samples in the columns of the current block, and in the one behind them if there is one. If the end
  of the row does not fit in a word, it has no samples. -/
  given : ∀ b, r.current = some b → y < r.height → ∃ samples, Raster.row y r = (.ok samples, r) ∧
    samples.length = (if b.x + b.width + 1 < 2 ^ 64 then min (b.width + 1) (r.width - b.x) else 0) ∧
      ∀ i < samples.length, b.x + i < r.width ∧ samples[i]? = some (r.sample (b.x + i) y)

/-- Nothing in a raster is left over from an older tiling or order, so that it gives what it is asked for. -/
structure Consistent (r : Raster) : Prop extends r.Valid where
  /-- The blocks of the order are those of the tiling in their places, and each place is inside the raster. -/
  block_eq : ∀ place ∈ r.order, r.tiling.block r.size place.1 place.2 = .ok (r.blockAt place) ∧
    place.1 * r.tiling.width < r.width ∧ place.2 * r.tiling.height < r.height
  /-- No two of them are the same. -/
  nodup_blocks : r.blocks.Nodup
  /-- The current block is one of them. -/
  current_mem : ∀ b, r.current = some b → b ∈ r.blocks
  /-- The current block has columns and rows, which are columns and rows of the raster. -/
  current_fits : ∀ b, r.current = some b →
    (0 < b.width ∧ b.x + b.width ≤ r.width) ∧ 0 < b.height ∧ b.y + b.height ≤ r.height
  /-- The current block starts before the column behind the last one that is read for it, if that column fits in a
  word. -/
  current_lt : ∀ b, r.current = some b →
    (b.x < min (asWord (b.x + b.width + 1)) r.width ↔ b.x + b.width + 1 < 2 ^ 64)
  /-- Asking for the next block never fails. -/
  nextBlock_ok : ∃ b, (Raster.nextBlock r).1 = .ok b
  /-- A row is refused only without a current block or below the last row. -/
  answersRow : ∀ y, r.AnswersRow y
  /-- The elevation of a sample is in the band. -/
  elevation_eq : ∀ band, r.elevation = some band → ∀ x y, x < r.width → y < r.height →
    band[x + y * r.width]? = some (r.elevationAt x y)
  /-- The class of a sample is in the band. -/
  class_eq : ∀ band, r.classes = some band → ∀ x y, x < r.width → y < r.height →
    ∃ c, band[x + y * r.width]? = some c ∧ r.class? x y = some c

/-- Blocks in different places are different. -/
theorem blockAt_injective (r : Raster) : Function.Injective r.blockAt := by
  rintro ⟨column, row⟩ ⟨column', row'⟩ he
  obtain ⟨hx, hy, -, -⟩ := Block.mk.inj he
  exact Prod.ext (Nat.eq_of_mul_eq_mul_right r.tiling.width_pos hx)
    (Nat.eq_of_mul_eq_mul_right r.tiling.height_pos hy)

namespace Valid

variable (h : r.Valid)

include h

/-- The columns and rows of a block of the order are columns and rows of the raster. -/
theorem fits_of_mem_blocks {b : Block} (hb : b ∈ r.blocks) :
    (0 < b.width ∧ b.x + b.width ≤ r.width) ∧ 0 < b.height ∧ b.y + b.height ≤ r.height := by
  obtain ⟨place, hplace, rfl⟩ := List.mem_map.1 hb
  exact h.blockAt_fits hplace

/-- A row of the current block is given from the block's first column on. -/
theorem answersRow (hbound : r.width < 2 ^ 64) (hcurrent : ∀ b, r.current = some b → b ∈ r.blocks) (y : ℕ) :
    r.AnswersRow y where
  noBlock hnone := by
    unfold Raster.row
    rw [hnone]
  outOfRange b hb hy := by
    unfold Raster.row
    simp only [hb, if_pos hy]
  given b hb hy := by
    obtain ⟨⟨hwidth, hend⟩, -⟩ := h.fits_of_mem_blocks (hcurrent b hb)
    refine ⟨(List.range' b.x (min (asWord (b.x + b.width + 1)) r.width - b.x)).map fun x => r.sample x y, ?_, ?_, ?_⟩
    · unfold Raster.row
      simp only [hb, if_neg (Nat.not_le.2 hy)]
    · rw [List.length_map, List.length_range']
      split
      · rename_i hfit
        rw [asWord_of_lt hfit]
        omega
      · -- The block ends at the last column that a word can count, and the end of the row starts again at zero.
        rename_i hnot
        have hend := asWord_le_start (Nat.not_lt.1 hnot) (by omega) (by omega)
        omega
    · intro i hi
      rw [List.length_map, List.length_range'] at hi
      refine ⟨by omega, ?_⟩
      rw [List.getElem?_map, List.getElem?_range' hi, Option.map_some, Nat.one_mul]

/-- A raster whose current block is one of its order is consistent. -/
theorem consistent (hbound : r.width < 2 ^ 64) (hr : r.ReadTo n) : r.Consistent where
  toValid := h
  block_eq place hplace := by
    obtain ⟨hcolumn, hrow⟩ := h.order_lt place hplace
    exact ⟨h.block_eq hplace, Tiling.mul_lt_of_lt_partsToCover r.tiling.width_pos hcolumn,
      Tiling.mul_lt_of_lt_partsToCover r.tiling.height_pos hrow⟩
  nodup_blocks := h.order_nodup.map r.blockAt_injective
  current_mem _ hb := hr.current_mem hb
  current_fits _ hb := h.fits_of_mem_blocks (hr.current_mem hb)
  current_lt b hb := by
    obtain ⟨⟨hwidth, hend⟩, -⟩ := h.fits_of_mem_blocks (hr.current_mem hb)
    constructor
    · intro hlt
      by_contra hnot
      -- Otherwise the end of the block would come before its start.
      have hend := asWord_le_start (Nat.not_lt.1 hnot) (by omega) (by omega)
      omega
    · intro hfit
      rw [asWord_of_lt hfit]
      omega
  nextBlock_ok := ⟨_, (hr.nextBlock h).1⟩
  answersRow := h.answersRow hbound fun _ hb => hr.current_mem hb
  elevation_eq _ hband _ _ hx hy := h.elevationAt_eq hband hx hy
  class_eq band hband x y hx hy := by
    have hindex : x + y * r.width < band.size := h.classes_size band hband ▸ index_lt hx hy
    refine ⟨band[x + y * r.width], Array.getElem?_eq_getElem hindex, ?_⟩
    unfold class?
    rw [if_neg (by omega), hband, Option.bind_some, Array.getElem?_eq_getElem hindex]

end Valid

namespace Call

end Call

end Raster

end RegionMesh
