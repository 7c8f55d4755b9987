import Mathlib.Data.Nat.Notation
import RegionMesh.Proofs.Action
import RegionMesh.Raster.Stream

/-!
# What a reader gives

A reader that is read to its end gives blocks, each with its rows, until it has no block or an empty one
(`BlockReader.Reads`). Reading all of it into a sink succeeds exactly if the reader gives such a script and the sink
takes the calls that report it (`BlockReader.readAll_eq_ok`): for each block the samples of its rows, and then its
cells.

Whatever happens on the way, the sink is left in a state that its calls can bring about
(`BlockReader.keeps_readAll`). A script of any kind is given by some reader (`BlockReader.Replay`).
-/

namespace RegionMesh

/-- Blocks that were read, each with its rows. -/
abbrev Script : Type := List (Block × List (List Point))

namespace Block

variable (b : Block) (size : ℕ × ℕ)

/-- The calls that report the samples in the rows of a block. -/
def rowCalls (rows : List (List Point)) : List SinkCall :=
  ((b.rows size).zip rows).flatMap fun x => b.vertexCalls size x.1 x.2

end Block

/-- The calls that report the blocks of a script. -/
def Script.calls (size : ℕ × ℕ) (script : Script) : List SinkCall :=
  script.flatMap fun x => x.1.rowCalls size x.2 ++ x.1.cellCalls size

namespace CellSink

variable {σ : Type} [CellSink σ]

/-- Calls are taken one list after the other. -/
theorem acceptAll_append (calls more : List SinkCall) :
    (acceptAll (calls ++ more) : Action Failure σ Unit) = (acceptAll calls >>= fun _ => acceptAll more) :=
  List.forM_append

end CellSink

namespace BlockReader

section OneBlock

variable {ρ σ : Type} [RasterReader ρ]

/-- The reader gives rows, one after another, none of them shorter than `columns`. -/
inductive ReadsRows (columns : ℕ) : ρ → List ℕ → List (List Point) → ρ → Prop
  /-- No rows are asked for. -/
  | nil (r : ρ) : ReadsRows columns r [] [] r
  /-- A row is read, and then the others. -/
  | cons {r r' r'' : ρ} {y : ℕ} {ys : List ℕ} {samples : List Point} {rows : List (List Point)}
      (hrow : row y r = (.ok samples, r')) (hlength : columns ≤ samples.length)
      (hrest : ReadsRows columns r' ys rows r'') : ReadsRows columns r (y :: ys) (samples :: rows) r''

/-- The reader gives the blocks of a script, and then comes to its end. -/
inductive Reads (size : ℕ × ℕ) : ρ → Script → ρ → Prop
  /-- There is no block. -/
  | done {r r' : ρ} (hblock : nextBlock r = (.ok none, r')) : Reads size r [] r'
  /-- The block has no columns. -/
  | empty {r r' : ρ} {b : Block} (hblock : nextBlock r = (.ok (some b), r')) (hwidth : b.width = 0) :
    Reads size r [] r'
  /-- A block is read with its rows, and then the others. -/
  | block {r r' r'' r''' : ρ} {b : Block} {rows : List (List Point)} {script : Script}
      (hblock : nextBlock r = (.ok (some b), r')) (hwidth : b.width ≠ 0)
      (hrows : ReadsRows (b.columns size).length r' (b.rows size) rows r'')
      (hrest : Reads size r'' script r''') : Reads size r ((b, rows) :: script) r'''

variable [CellSink σ] {size : ℕ × ℕ} {b : Block} {r r' : ρ} {s s' : σ}

/-! ## Reading that succeeds -/

/-- A row is read into a sink if the reader gives it, it is long enough, and the sink takes its samples. -/
theorem readRow_eq_ok {y : ℕ} : readRow size b y (r, s) = (.ok (), r', s') ↔
    ∃ samples, row y r = (.ok samples, r') ∧ (b.columns size).length ≤ samples.length ∧
      CellSink.acceptAll (b.vertexCalls size y samples) s = (.ok (), s') := by
  unfold readRow
  rw [Action.bind_eq_ok]
  constructor
  · rintro ⟨samples, ⟨r₁, s₁⟩, hfirst, hrest⟩
    obtain ⟨hrow, rfl⟩ := Action.onFirst_eq_ok.1 hfirst
    -- A row that is too short fails before any of its samples gets to the sink.
    by_cases hshort : samples.length < (b.columns size).length
    · rw [if_pos hshort] at hrest
      cases (Prod.mk.inj hrest).1
    · rw [if_neg hshort] at hrest
      obtain ⟨rfl, htake⟩ := Action.onSecond_eq_ok.1 hrest
      exact ⟨samples, hrow, Nat.not_lt.1 hshort, htake⟩
  · rintro ⟨samples, hrow, hlength, htake⟩
    refine ⟨samples, (r', s), Action.onFirst_eq_ok.2 ⟨hrow, rfl⟩, ?_⟩
    rw [if_neg (Nat.not_lt.2 hlength)]
    exact Action.onSecond_eq_ok.2 ⟨rfl, htake⟩

/-- Rows are read into a sink if the reader gives them, and the sink takes the samples of all of them. -/
theorem readRows_eq_ok {ys : List ℕ} : ys.forM (readRow size b) (r, s) = (.ok (), r', s') ↔
    ∃ rows, ReadsRows (b.columns size).length r ys rows r' ∧
      CellSink.acceptAll ((ys.zip rows).flatMap fun x => b.vertexCalls size x.1 x.2) s = (.ok (), s') := by
  induction ys generalizing r s with
  | nil =>
    constructor
    · intro h
      obtain ⟨rfl, rfl⟩ := Prod.mk.inj (Prod.mk.inj h).2
      exact ⟨[], .nil r, rfl⟩
    · rintro ⟨rows, hrows, htake⟩
      cases hrows
      obtain rfl : s = s' := (Prod.mk.inj htake).2
      rfl
  | cons y ys ih =>
    rw [Action.forM_cons, Action.bind_eq_ok]
    constructor
    · rintro ⟨_, ⟨r₁, s₁⟩, hfirst, hrest⟩
      obtain ⟨samples, hrow, hlength, hs₁⟩ := readRow_eq_ok.1 hfirst
      obtain ⟨rows, hrows, hs'⟩ := ih.1 hrest
      refine ⟨samples :: rows, .cons hrow hlength hrows, ?_⟩
      rw [List.zip_cons_cons, List.flatMap_cons, CellSink.acceptAll_append]
      exact (Action.bind_apply_of_ok hs₁ _).trans hs'
    · -- The calls for the rows split where the first row ends.
      rintro ⟨_, hrows, htake⟩
      cases hrows with
      | cons hrow hlength hrows =>
        rename_i r₁ samples rows
        rw [List.zip_cons_cons, List.flatMap_cons, CellSink.acceptAll_append, Action.bind_eq_ok] at htake
        obtain ⟨_, s₁, hs₁, hs'⟩ := htake
        exact ⟨(), (r₁, s₁), readRow_eq_ok.2 ⟨samples, hrow, hlength, hs₁⟩, ih.2 ⟨rows, hrows, hs'⟩⟩

/-- A block is read into a sink, or the reader has come to its end. -/
theorem readBlock_eq_ok {more : Bool} : readBlock size (r, s) = (.ok more, r', s') ↔
    (more = false ∧ s' = s ∧ Reads size r [] r') ∨
    (more = true ∧ ∃ b r₁ rows, nextBlock r = (.ok (some b), r₁) ∧ b.width ≠ 0 ∧
      ReadsRows (b.columns size).length r₁ (b.rows size) rows r' ∧
      CellSink.acceptAll (b.rowCalls size rows ++ b.cellCalls size) s = (.ok (), s')) := by
  unfold readBlock
  rw [Action.bind_eq_ok]
  constructor
  · rintro ⟨block, ⟨r₁, s₁⟩, hfirst, hrest⟩
    obtain ⟨hblock, rfl⟩ := Action.onFirst_eq_ok.1 hfirst
    cases block with
    | none =>
      obtain ⟨he, hstate⟩ := Prod.mk.inj hrest
      obtain ⟨rfl, rfl⟩ := Prod.mk.inj hstate
      exact Or.inl ⟨(Except.ok.inj he).symm, rfl, .done hblock⟩
    | some b =>
      -- A block without columns counts as the end.
      by_cases hwidth : b.width = 0
      · simp only [hwidth, if_true] at hrest
        obtain ⟨he, hstate⟩ := Prod.mk.inj hrest
        obtain ⟨rfl, rfl⟩ := Prod.mk.inj hstate
        exact Or.inl ⟨(Except.ok.inj he).symm, rfl, .empty hblock hwidth⟩
      · simp only [hwidth, if_false] at hrest
        obtain ⟨_, ⟨r₂, s₂⟩, hrows, hlast⟩ := Action.bind_eq_ok.1 hrest
        obtain ⟨_, ⟨r₃, s₃⟩, hcells, hend⟩ := Action.bind_eq_ok.1 hlast
        obtain ⟨rows, hread, hs₂⟩ := readRows_eq_ok.1 hrows
        obtain ⟨rfl, hs₃⟩ := Action.onSecond_eq_ok.1 hcells
        obtain ⟨he, hstate⟩ := Prod.mk.inj hend
        obtain ⟨rfl, rfl⟩ := Prod.mk.inj hstate
        refine Or.inr ⟨(Except.ok.inj he).symm, b, r₁, rows, hblock, hwidth, hread, ?_⟩
        rw [CellSink.acceptAll_append]
        exact (Action.bind_apply_of_ok hs₂ _).trans hs₃
  · rintro (⟨rfl, rfl, hend⟩ | ⟨rfl, b, r₁, rows, hblock, hwidth, hread, htake⟩)
    · cases hend with
      | done hblock => exact ⟨none, (r', s'), Action.onFirst_eq_ok.2 ⟨hblock, rfl⟩, rfl⟩
      | empty hblock hwidth =>
        refine ⟨some _, (r', s'), Action.onFirst_eq_ok.2 ⟨hblock, rfl⟩, ?_⟩
        simp [hwidth]
    · refine ⟨some b, (r₁, s), Action.onFirst_eq_ok.2 ⟨hblock, rfl⟩, ?_⟩
      simp only [hwidth, if_false]
      rw [CellSink.acceptAll_append, Action.bind_eq_ok] at htake
      obtain ⟨_, s₂, hs₂, hs'⟩ := htake
      refine Action.bind_eq_ok.2 ⟨(), (r', s₂), readRows_eq_ok.2 ⟨rows, hread, hs₂⟩, ?_⟩
      exact Action.bind_eq_ok.2 ⟨(), (r', s'), Action.onSecond_eq_ok.2 ⟨rfl, hs'⟩, rfl⟩

end OneBlock

section AllBlocks

variable {ρ σ : Type} [BlockReader ρ] [CellSink σ] {size : ℕ × ℕ} {r r' : ρ} {s s' : σ}

/-- Rows bring no further blocks. -/
theorem ReadsRows.pending_le {columns : ℕ} {ys : List ℕ} {rows : List (List Point)}
    (h : ReadsRows columns r ys rows r') : pending r' ≤ pending r := by
  induction h with
  | nil r => exact Nat.le_refl _
  | cons hrow hlength hrest ih =>
    rename_i r r₁ r₂ y ys samples rows
    have hle := pending_row r y
    rw [hrow] at hle
    exact Nat.le_trans ih hle

/-- With a bound that suffices, all blocks are read. -/
theorem readBlocks_eq_ok {bound : ℕ} (hbound : pending r < bound) :
    readBlocks size bound (r, s) = (.ok (), r', s') ↔
      ∃ script, Reads size r script r' ∧ CellSink.acceptAll (Script.calls size script) s = (.ok (), s') := by
  induction bound generalizing r s with
  | zero => exact absurd hbound (Nat.not_lt_zero _)
  | succ bound ih =>
    -- A block lowers the bound on those that are still to come.
    have hlower : ∀ {b r₁ rows r₂}, nextBlock r = (.ok (some b), r₁) →
        ReadsRows (b.columns size).length r₁ (b.rows size) rows r₂ → pending r₂ < bound := by
      intro b r₁ rows r₂ hblock hread
      have hlt := pending_nextBlock r b (by rw [hblock])
      simp only [hblock] at hlt
      have hle := hread.pending_le
      omega
    rw [readBlocks, Action.bind_eq_ok]
    constructor
    · rintro ⟨more, ⟨r₁, s₁⟩, hfirst, hrest⟩
      rcases readBlock_eq_ok.1 hfirst with ⟨rfl, rfl, hend⟩ | ⟨rfl, b, r₀, rows, hblock, hwidth, hread, htake⟩
      · obtain ⟨rfl, rfl⟩ := Prod.mk.inj (Prod.mk.inj hrest).2
        exact ⟨[], hend, rfl⟩
      · obtain ⟨script, hreads, hs'⟩ := (ih (hlower hblock hread)).1 hrest
        refine ⟨(b, rows) :: script, .block hblock hwidth hread hreads, ?_⟩
        rw [Script.calls, List.flatMap_cons, CellSink.acceptAll_append]
        exact (Action.bind_apply_of_ok htake _).trans hs'
    · rintro ⟨script, hreads, htake⟩
      cases script with
      | nil =>
        obtain rfl : s = s' := (Prod.mk.inj htake).2
        exact ⟨false, (r', s), readBlock_eq_ok.2 (Or.inl ⟨rfl, rfl, hreads⟩), rfl⟩
      | cons x script =>
        cases hreads with
        | block hblock hwidth hread hreads =>
          rename_i r₀ r₁ b rows
          rw [Script.calls, List.flatMap_cons, CellSink.acceptAll_append, Action.bind_eq_ok] at htake
          obtain ⟨_, s₁, hs₁, hs'⟩ := htake
          refine ⟨true, (r₁, s₁), readBlock_eq_ok.2 (Or.inr ⟨rfl, b, r₀, rows, hblock, hwidth, hread, hs₁⟩), ?_⟩
          exact (ih (hlower hblock hread)).2 ⟨script, hreads, hs'⟩

/-- Reading everything into a sink succeeds if the reader gives a script and the sink takes its calls. -/
theorem readAll_eq_ok : readAll size (r, s) = (.ok (), r', s') ↔
    ∃ script, Reads size r script r' ∧ CellSink.acceptAll (Script.calls size script) s = (.ok (), s') :=
  readBlocks_eq_ok (Nat.lt_succ_self _)

end AllBlocks

/-! ## A reader for a script -/

/-- A reader that gives the blocks of a script, whatever their size and place. -/
structure Replay where
  /-- The size of the raster. -/
  size : ℕ × ℕ
  /-- The blocks that are still to come, with their rows. -/
  script : Script
  /-- The rows of the current block that are still to come. -/
  rows : List (List Point) := []

instance : BlockReader Replay where
  size := Replay.size
  nextBlock r :=
    match r.script with
    | [] => (.ok none, r)
    | (b, rows) :: script => (.ok (some b), { r with script, rows })
  row _ r :=
    match r.rows with
    | [] => (.error (.raster .noBlockLoaded), r)
    | samples :: rows => (.ok samples, { r with rows })
  pending r := r.script.length
  pending_nextBlock r b := by
    obtain ⟨size, script, rows⟩ := r
    cases script <;> simp
  pending_row r y := by
    obtain ⟨size, script, rows⟩ := r
    cases rows <;> simp

/-- A script is given if no block is empty, and every block has all its rows, none of them too short. -/
theorem Replay.reads {size : ℕ × ℕ} {script : Script} (size' : ℕ × ℕ) (rows : List (List Point))
    (h : ∀ x ∈ script, x.1.width ≠ 0 ∧ x.2.length = (x.1.rows size).length ∧
      ∀ samples ∈ x.2, (x.1.columns size).length ≤ samples.length) :
    ∃ r', Reads size (⟨size', script, rows⟩ : Replay) script r' := by
  -- The rows of a block are given one after another, whatever comes behind the block.
  have hrows : ∀ (columns : ℕ) (ys : List ℕ) (rows : List (List Point)) (rest : Script),
      rows.length = ys.length → (∀ samples ∈ rows, columns ≤ samples.length) →
        ReadsRows columns (⟨size', rest, rows⟩ : Replay) ys rows ⟨size', rest, []⟩ := by
    intro columns ys
    induction ys with
    | nil =>
      intro rows rest hlength _
      obtain rfl := List.eq_nil_of_length_eq_zero hlength
      exact .nil _
    | cons y ys ih =>
      intro rows rest hlength hlong
      obtain ⟨samples, rows, rfl⟩ := List.exists_cons_of_length_eq_add_one hlength
      obtain ⟨hfirst, hlong⟩ := List.forall_mem_cons.1 hlong
      exact .cons rfl hfirst (ih rows rest (Nat.succ.inj hlength) hlong)
  induction script generalizing rows with
  | nil => exact ⟨_, .done rfl⟩
  | cons x script ih =>
    obtain ⟨⟨hwidth, hlength, hlong⟩, hrest⟩ := List.forall_mem_cons.1 h
    obtain ⟨r', hreads⟩ := ih [] hrest
    exact ⟨r', .block rfl hwidth (hrows _ _ _ script hlength hlong) hreads⟩

/-! ## Reading that may fail -/

section Keeping

variable {ρ σ : Type} [CellSink σ] {p : σ → Prop} (hp : ∀ call, (CellSink.accept call : Action Failure σ Unit).Keeps p)

include hp

/-- What all calls of a sink keep, reading a block keeps, whether it succeeds or not. -/
theorem keeps_readBlock [RasterReader ρ] (size : ℕ × ℕ) :
    (readBlock size : Action Failure (ρ × σ) Bool).Keeps fun st => p st.2 := by
  -- The reader has a state of its own, so only the calls of the sink matter.
  have htake : ∀ calls, (CellSink.acceptAll calls : Action Failure σ Unit).onSecond.Keeps
      fun st : ρ × σ => p st.2 := fun calls => (Action.Keeps.forM hp calls).onSecond
  have hrow : ∀ b y, (readRow size b y : Action Failure (ρ × σ) Unit).Keeps fun st => p st.2 := by
    intro b y
    refine (Action.keeps_onFirst _).bind fun samples => ?_
    dsimp only
    split
    · exact (Action.keeps_throw _).bind fun _ => htake _
    · exact htake _
  refine (Action.keeps_onFirst _).bind fun block => ?_
  cases block with
  | none => exact Action.keeps_pure false
  | some b =>
    simp only
    split
    · exact Action.keeps_pure false
    · exact (Action.Keeps.forM (hrow b) _).bind fun _ => (htake _).bind fun _ => Action.keeps_pure true

/-- What all calls of a sink keep, reading everything keeps. -/
theorem keeps_readAll [BlockReader ρ] (size : ℕ × ℕ) :
    (readAll size : Action Failure (ρ × σ) Unit).Keeps fun st => p st.2 := by
  -- The bound depends on the reader, so the induction is on any bound.
  have hblocks : ∀ bound, (readBlocks size bound : Action Failure (ρ × σ) Unit).Keeps fun st => p st.2 := by
    intro bound
    induction bound with
    | zero => exact Action.keeps_pure ()
    | succ bound ih =>
      refine (keeps_readBlock hp size).bind fun more => ?_
      split
      · exact ih
      · exact Action.keeps_pure ()
  exact fun st => hblocks (pending st.1 + 1) st

end Keeping

end BlockReader

end RegionMesh
