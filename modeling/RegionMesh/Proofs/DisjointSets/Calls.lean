import Mathlib.Data.Set.Card
import RegionMesh.Proofs.DisjointSets

/-!
# Disjoint sets after any calls

Whatever is called on disjoint sets, from none on, they hold the partition that the calls describe: the tracked ids are
those that were inserted (`Call.Tracked`), and two of them are in the same set if the pairs that were united while both
ids were tracked (`Call.United`) make them equivalent. One call does to the trees what it does to this description
(`Partitions.perform`), and so does a run (`partitions_run`).

What the operations answer on such sets is said by `Represents`, and follows from the partition alone
(`Partitions.represents`).
-/

namespace RegionMesh

namespace DisjointSets

/-- A call that changes disjoint sets. -/
inductive Call where
  /-- Track an id. -/
  | insert (id : ℕ)
  /-- Unite the sets of two ids. -/
  | union (x y : ℕ)
  /-- Shorten the paths from some ids. -/
  | compress (ids : List ℕ)

namespace Call

/-- Carry out a call. -/
def perform (call : Call) (s : DisjointSets) : DisjointSets :=
  match call with
  | insert id => (s.insert id).2
  | union x y => (s.union x y).2
  | compress ids => s.compress ids

/-- The sets after a list of calls. -/
def run (calls : List Call) (s : DisjointSets) : DisjointSets :=
  calls.foldl (fun s call => call.perform s) s

/-- The last call of a run is made on what the others leave. -/
theorem run_concat (calls : List Call) (call : Call) (s : DisjointSets) :
    run (calls ++ [call]) s = call.perform (run calls s) := by
  simp [run]

/-- Whether one of the calls tracks an id. -/
def Tracked (calls : List Call) (id : ℕ) : Prop := .insert id ∈ calls

/-- Whether one of the calls unites two ids that are tracked by then. -/
def United (calls : List Call) (x y : ℕ) : Prop :=
  ∃ before after, calls = before ++ .union x y :: after ∧ Tracked before x ∧ Tracked before y

/-- An id is tracked if it was before the last call, or if this one inserts it. -/
theorem tracked_concat {calls : List Call} {call : Call} {id : ℕ} :
    Tracked (calls ++ [call]) id ↔ Tracked calls id ∨ call = .insert id := by
  unfold Tracked
  rw [List.mem_append, List.mem_singleton, eq_comm (a := Call.insert id)]

/-- The last call unites two ids if it is a union of both, and both were tracked before. -/
theorem united_concat {calls : List Call} {call : Call} {x y : ℕ} : United (calls ++ [call]) x y ↔
    United calls x y ∨ (call = .union x y ∧ Tracked calls x ∧ Tracked calls y) := by
  constructor
  · rintro ⟨before, after, hcalls, hx, hy⟩
    -- The union is the last call of the longer run, or a call of the run before.
    rcases after.eq_nil_or_concat with rfl | ⟨after, last, rfl⟩
    · obtain ⟨rfl, hcall⟩ := List.append_inj' hcalls rfl
      exact Or.inr ⟨List.singleton_inj.1 hcall, hx, hy⟩
    · left
      rw [List.concat_eq_append, ← List.cons_append, ← List.append_assoc] at hcalls
      exact ⟨before, after, (List.append_inj' hcalls rfl).1, hx, hy⟩
  · rintro (⟨before, after, rfl, hx, hy⟩ | ⟨rfl, hx, hy⟩)
    · exact ⟨before, after ++ [call], by simp, hx, hy⟩
    · exact ⟨calls, [], rfl, hx, hy⟩

end Call

variable {s : DisjointSets} {tracked : ℕ → Prop} {united : ℕ → ℕ → Prop}

/-! ## What the operations answer -/

/-- The ids that are equivalent to an id by the pairs that were united. -/
def classOf (united : ℕ → ℕ → Prop) (id : ℕ) : Set ℕ := {b | Relation.EqvGen united id b}

/-- Equivalent ids have the same class. -/
theorem classOf_eq {a b : ℕ} (hab : Relation.EqvGen united a b) : classOf united a = classOf united b := by
  ext c
  exact ⟨(hab.symm _ _).trans _ _ _, hab.trans _ _ _⟩

/-- An id with its root as its parent keeps it through any compressions. -/
theorem Forest.parent?_foldl_compress (h : s.Forest) {id : ℕ} (hid : s.parent? id = s.find? id)
    (later : List (List ℕ)) :
    (later.foldl DisjointSets.compress s).parent? id = (later.foldl DisjointSets.compress s).find? id := by
  induction later generalizing s with
  | nil => exact hid
  | cons ids later ih =>
    obtain ⟨hforest, hfind, hkept, -⟩ := h.compress ids
    exact ih hforest ((hkept id hid).trans (hfind id).symm)

/-- The operations answer as on the partition of the tracked ids that the united pairs generate. -/
structure Represents (s : DisjointSets) (tracked : ℕ → Prop) (united : ℕ → ℕ → Prop) : Prop where
  /-- The way up from a tracked id ends at a root, which is found, is tracked, and is in the same set. -/
  found : ∀ id, tracked id → ∃ r, s.Climbs id r ∧ s.find? id = some r ∧ tracked r ∧ s.parent? r = some r ∧
    Relation.EqvGen united id r
  /-- From an id that is not tracked there is no way up, and nothing is found. -/
  missing : ∀ id, ¬ tracked id → s.parent? id = none ∧ s.find? id = none
  /-- Two tracked ids have the same root if they are equivalent. -/
  find?_eq : ∀ a b, tracked a → tracked b → (s.find? a = s.find? b ↔ Relation.EqvGen united a b)
  /-- A union with an id that is not tracked answers nothing and changes nothing. -/
  union_missing : ∀ x y, ¬ (tracked x ∧ tracked y) → s.union x y = (none, s)
  /-- A union of tracked ids answers what is then found for both. -/
  union_tracked : ∀ x y, tracked x → tracked y → ∃ r, (s.union x y).1 = some r ∧
    (s.union x y).2.find? x = some r ∧ (s.union x y).2.find? y = some r
  /-- Compression changes nothing that is found. -/
  compress_find? : ∀ ids id, (s.compress ids).find? id = s.find? id
  /-- A listed id has its root as its parent, also after more compressions. -/
  compress_parent? : ∀ (ids : List ℕ) (later : List (List ℕ)), ∀ id ∈ ids, tracked id →
    (later.foldl compress (s.compress ids)).parent? id = (later.foldl compress (s.compress ids)).find? id
  /-- The sets are counted by the classes of the tracked ids. -/
  countSets : ∀ ids, s.countSets ids = {C | ∃ id ∈ ids, tracked id ∧ C = classOf united id}.ncard

namespace Partitions

variable (h : s.Partitions tracked united)

include h

/-- The root of a tracked id is in its set. -/
theorem exists_root {id : ℕ} (hid : tracked id) : ∃ r, s.Climbs id r ∧ s.find? id = some r ∧ tracked r ∧
    s.parent? r = some r ∧ Relation.EqvGen united id r := by
  obtain ⟨r, hr⟩ := h.toForest.exists_find? ((h.contains_iff_tracked id).2 hid)
  obtain ⟨hcontains, hparent, hroot⟩ := h.toForest.find?_root hr
  have hr' := (h.contains_iff_tracked r).1 hcontains
  exact ⟨r, h.toForest.find?_eq_some.1 hr, hr, hr', hparent, (h.find?_eq_iff id r hid hr').1 (hr.trans hroot.symm)⟩

/-- An id that is not tracked has no root. -/
theorem find?_eq_none {id : ℕ} (hid : ¬ tracked id) : s.find? id = none := by
  rw [h.toForest.find?_eq_none, Bool.eq_false_iff, ne_eq, h.contains_iff_tracked]
  exact hid

/-- A union with an id that is not tracked does nothing. -/
theorem union_of_not_tracked {x y : ℕ} (hxy : ¬ (tracked x ∧ tracked y)) : s.union x y = (none, s) := by
  unfold DisjointSets.union
  by_cases hx : tracked x
  · rw [h.find?_eq_none fun hy => hxy ⟨hx, hy⟩]
    split
    · rename_i hnone
      cases hnone
    · rfl
  · rw [h.find?_eq_none hx]

/-- A union of tracked ids answers the root that both have afterwards. -/
theorem union_of_tracked {x y : ℕ} (hx : tracked x) (hy : tracked y) : ∃ r, (s.union x y).1 = some r ∧
    (s.union x y).2.find? x = some r ∧ (s.union x y).2.find? y = some r := by
  obtain ⟨p, hp⟩ := h.toForest.exists_find? ((h.contains_iff_tracked x).2 hx)
  obtain ⟨q, hq⟩ := h.toForest.exists_find? ((h.contains_iff_tracked y).2 hy)
  obtain ⟨-, top, hanswer, -, hfind⟩ := h.toForest.union hp hq
  refine ⟨top, hanswer, ?_, ?_⟩
  · rw [hfind, hp, Option.map_some, if_pos (Or.inl rfl)]
  · rw [hfind, hq, Option.map_some, if_pos (Or.inr rfl)]

/-- A root that is found belongs to a tracked id. -/
theorem tracked_of_find? {id r : ℕ} (hr : s.find? id = some r) : tracked id :=
  (h.contains_iff_tracked id).1 (h.toForest.find?_eq_some.1 hr).contains

/-- The number of sets that are counted is the number of the classes of tracked ids. -/
theorem countSets_eq (ids : List ℕ) :
    s.countSets ids = {C | ∃ id ∈ ids, tracked id ∧ C = classOf united id}.ncard := by
  -- The sets are counted by their roots, and their classes are those of the roots.
  let roots : Finset ℕ := (ids.filterMap s.find?).toFinset
  have hmem : ∀ r, r ∈ roots ↔ ∃ id ∈ ids, s.find? id = some r := by
    intro r
    simp [roots]
  have hsize : s.countSets ids = roots.card := by
    have hnodup : (Std.TreeSet.ofList (ids.filterMap s.find?)).toList.Nodup :=
      Std.TreeSet.ordered_toList.imp fun hlt => (Nat.compare_eq_lt.1 hlt).ne
    have hroots : (Std.TreeSet.ofList (ids.filterMap s.find?)).toList.toFinset = roots := by
      ext r
      simp [roots]
    unfold countSets
    rw [← hroots, List.toFinset_card_of_nodup hnodup, Std.TreeSet.length_toList]
  have hclasses : {C | ∃ id ∈ ids, tracked id ∧ C = classOf united id} = classOf united '' roots := by
    ext C
    constructor
    · rintro ⟨id, hid, hidt, rfl⟩
      obtain ⟨r, -, hr, -, -, hsame⟩ := h.exists_root hidt
      exact ⟨r, (hmem r).2 ⟨id, hid, hr⟩, (classOf_eq hsame).symm⟩
    · rintro ⟨r, hroot, rfl⟩
      obtain ⟨id, hid, hr⟩ := (hmem r).1 hroot
      have hidt := h.tracked_of_find? hr
      obtain ⟨q, -, hq, -, -, hsame⟩ := h.exists_root hidt
      obtain rfl : r = q := Option.some.inj (hr.symm.trans hq)
      exact ⟨id, hid, hidt, (classOf_eq hsame).symm⟩
  have hinj : Set.InjOn (classOf united) roots := by
    intro r hr q hq he
    obtain ⟨a, -, ha⟩ := (hmem r).1 hr
    obtain ⟨b, -, hb⟩ := (hmem q).1 hq
    have hsame : q ∈ classOf united r := he ▸ Relation.EqvGen.refl q
    have hfind : some r = some q :=
      calc some r = s.find? r := (h.toForest.find?_root ha).2.2.symm
        _ = s.find? q := h.find?_eq hsame
        _ = some q := (h.toForest.find?_root hb).2.2
    exact Option.some.inj hfind
  rw [hsize, hclasses, hinj.ncard_image, Set.ncard_coe_finset]

/-- The operations answer as on the partition that the sets hold. -/
theorem represents : s.Represents tracked united where
  found _ hid := h.exists_root hid
  missing id hid := by
    refine ⟨?_, h.find?_eq_none hid⟩
    rw [Option.eq_none_iff_forall_ne_some]
    exact fun p hp => hid ((h.contains_iff_tracked id).1 (contains_iff.2 ⟨p, hp⟩))
  find?_eq := h.find?_eq_iff
  union_missing _ _ hxy := h.union_of_not_tracked hxy
  union_tracked _ _ hx hy := h.union_of_tracked hx hy
  compress_find? ids := (h.toForest.compress ids).2.1
  compress_parent? ids later id hid _ := by
    obtain ⟨hforest, hfind, -, hparent⟩ := h.toForest.compress ids
    exact hforest.parent?_foldl_compress ((hparent id hid).trans (hfind id).symm) later
  countSets := h.countSets_eq

/-- A call does to the trees what it does to the partition. -/
theorem perform (call : Call) : (call.perform s).Partitions (fun id => tracked id ∨ call = .insert id)
    (fun a b => united a b ∨ (call = .union a b ∧ tracked a ∧ tracked b)) := by
  cases call with
  | insert id =>
    refine (h.insert id).congr (fun x => ?_) fun a b => ?_
    · simp [eq_comm]
    · simp
  | union x y =>
    by_cases hxy : tracked x ∧ tracked y
    · refine (h.union hxy.1 hxy.2).congr (fun id => by simp) fun a b => or_congr_right ?_
      rw [Call.union.injEq]
      constructor
      · rintro ⟨⟨rfl, rfl⟩, -⟩
        exact ⟨rfl, rfl⟩
      · rintro ⟨rfl, rfl⟩
        exact ⟨⟨rfl, rfl⟩, hxy⟩
    -- A union with an id that is not tracked unites nothing.
    · have hsame : (Call.union x y).perform s = s := by
        change (s.union x y).2 = s
        rw [h.union_of_not_tracked hxy]
      rw [hsame]
      refine h.congr (fun id => by simp) fun a b => or_iff_left ?_
      rintro ⟨hcall, ha, hb⟩
      obtain ⟨rfl, rfl⟩ := Call.union.inj hcall
      exact hxy ⟨ha, hb⟩
  | compress ids => exact (h.compress ids).congr (fun id => by simp) fun a b => by simp

end Partitions

/-- After any calls, from no sets on, the sets hold the partition that the calls describe. -/
theorem partitions_run (calls : List Call) :
    (Call.run calls empty).Partitions (Call.Tracked calls) (Call.United calls) := by
  induction calls using List.reverseRecOn with
  | nil =>
    refine Partitions.empty.congr (fun id => ?_) fun a b => ?_
    · simp [Call.Tracked]
    · simp [Call.United]
  | append_singleton calls call ih =>
    rw [Call.run_concat]
    exact (ih.perform call).congr (fun _ => Call.tracked_concat) fun _ _ => Call.united_concat

/-- After any calls the operations answer as on the partition of the inserted ids that the united pairs generate. -/
theorem represents_run (calls : List Call) :
    (Call.run calls empty).Represents (Call.Tracked calls) (Call.United calls) :=
  (partitions_run calls).represents

end DisjointSets

end RegionMesh
