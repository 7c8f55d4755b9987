import RegionMesh.Proofs.DisjointSets.Calls

/-!
# Ranks keep the trees shallow

The ids below a root are counted by their sets (`DisjointSets.members`) and not by their trees: compression takes ids
away from the parents that they had and leaves the ranks of these parents as they were, so that a rank says nothing of
the ids below an id that is no root. A root of rank `n` has at least `2 ^ n` ids in its set
(`DisjointSets.Weighted`), which every call keeps (`Weighted.perform`): a rank rises only where two sets whose roots
have the same rank become one (`rank_link`).

Ranks also rise along every path, so the steps up to a root are no more than its rank (`Forest.add_rank_le`), and this
is at most the logarithm of the number of ids. `shallow_run` says this after any calls.
-/

namespace RegionMesh

namespace DisjointSets

variable {s : DisjointSets} {id p q r x y : ℕ}

/-! ## The steps of a search -/

/-- From an id the parents lead up to a root in a number of steps. -/
inductive ClimbsIn (s : DisjointSets) : ℕ → ℕ → ℕ → Prop
  /-- At a root there is no step left. -/
  | root {r : ℕ} (h : s.parent? r = some r) : ClimbsIn s 0 r r
  /-- The step from any other id goes to its parent. -/
  | step {steps id p r : ℕ} (h : s.parent? id = some p) (hne : p ≠ id) (hp : ClimbsIn s steps p r) :
    ClimbsIn s (steps + 1) id r

/-- The search finds a root that is fewer steps away than it may look up parents. -/
theorem climb_eq_some_iff {n : ℕ} : s.climb n id = some r ↔ ∃ steps < n, s.ClimbsIn steps id r := by
  -- The bound and the number of steps go down together.
  induction n generalizing id with
  | zero =>
    refine iff_of_false (by simp [climb]) ?_
    rintro ⟨steps, hsteps, -⟩
    exact absurd hsteps (Nat.not_lt_zero steps)
  | succ n ih =>
    unfold climb
    cases hp : s.parent? id with
    | none =>
      refine iff_of_false (by simp) ?_
      rintro ⟨steps, -, hclimb⟩
      cases hclimb with
      | root h => simp [hp] at h
      | step h => simp [hp] at h
    | some p =>
      by_cases hpid : p = id
      · subst hpid
        simp only [if_pos, Option.some.injEq]
        constructor
        · rintro rfl
          exact ⟨0, Nat.succ_pos n, .root hp⟩
        · rintro ⟨steps, -, hclimb⟩
          cases hclimb with
          | root => rfl
          | step h hne => exact absurd (Option.some.inj (h.symm.trans hp)) hne
      · simp only [if_neg hpid, ih]
        constructor
        · rintro ⟨steps, hsteps, hclimb⟩
          exact ⟨steps + 1, Nat.succ_lt_succ hsteps, .step hp hpid hclimb⟩
        · rintro ⟨_, hsteps, hclimb⟩
          cases hclimb with
          | root h => exact absurd (Option.some.inj (hp.symm.trans h)) hpid
          | step h _ hclimb =>
            obtain rfl := Option.some.inj (hp.symm.trans h)
            exact ⟨_, Nat.lt_of_succ_lt_succ hsteps, hclimb⟩

/-- Every step raises the rank. -/
theorem Forest.add_rank_le (h : s.Forest) {steps : ℕ} (hr : s.ClimbsIn steps id r) :
    s.rank id + steps ≤ s.rank r := by
  induction hr with
  | root => exact Nat.le_refl _
  | step hp hne _ ih =>
    have hlt := h.rank_lt hp hne
    omega

/-! ## The ids of a set -/

/-- The ids whose root is a given one. -/
def members (s : DisjointSets) (r : ℕ) : Set ℕ := {id | s.find? id = some r}

/-- The members of a set are tracked. -/
theorem members_subset (s : DisjointSets) (r : ℕ) : s.members r ⊆ s.parents.keys.toFinset := by
  intro id hid
  rw [Finset.mem_coe, List.mem_toFinset, Std.TreeMap.mem_keys]
  exact (climbs_of_climb hid).contains

/-- A set has finitely many members. -/
theorem finite_members (s : DisjointSets) (r : ℕ) : (s.members r).Finite :=
  (Finset.finite_toSet _).subset (s.members_subset r)

/-- A set has no more ids than there are. -/
theorem ncard_members_le (s : DisjointSets) (r : ℕ) : (s.members r).ncard ≤ s.size :=
  calc (s.members r).ncard
      ≤ s.parents.keys.toFinset.card := by
        rw [← Set.ncard_coe_finset]
        exact Set.ncard_le_ncard (s.members_subset r) (Finset.finite_toSet _)
    _ ≤ s.parents.keys.length := List.toFinset_card_le _
    _ = s.size := Std.TreeMap.length_keys

/-- The sets of two roots have no id in common. -/
theorem notMem_members (hpq : p ≠ q) (hid : id ∈ s.members p) : id ∉ s.members q := by
  intro hidq
  exact hpq (Option.some.inj (hid.symm.trans hidq))

/-- Each root of rank `n` has at least `2 ^ n` ids in its set. -/
structure Weighted (s : DisjointSets) : Prop extends s.Forest where
  /-- The rank of a root is paid for by the ids of its set. -/
  two_pow_rank_le : ∀ {r}, s.find? r = some r → 2 ^ s.rank r ≤ (s.members r).ncard

/-! ## What the calls do to the ranks -/

/-- What the rank of a linked root stands for is no more than what the two ranks stood for. -/
theorem two_pow_rank_link_le (hxy : x ≠ y) :
    2 ^ (s.link x y).2.rank (s.link x y).1 ≤ 2 ^ s.rank x + 2 ^ s.rank y := by
  rw [link_fst, rank_link hxy]
  -- The rank of the new root is the greater one, or one more if they are equal.
  rcases Nat.lt_trichotomy (s.rank x) (s.rank y) with hlt | he | hgt
  · rw [if_pos hlt, if_neg fun h => by omega]
    exact Nat.le_add_left _ _
  · have hpow := Nat.pow_succ (n := 2) (m := s.rank x)
    rw [if_neg (Nat.not_lt.2 he.ge), if_pos ⟨he, rfl⟩, ← he]
    omega
  · rw [if_neg (by omega), if_neg fun h => by omega]
    exact Nat.le_add_right _ _

/-- A link puts the ids of both sets below the root that stays on top. -/
theorem Forest.members_link (h : s.Forest) (hp : s.parent? p = some p) (hq : s.parent? q = some q) (r : ℕ) :
    (s.link p q).2.members r = if r = (s.link p q).1 then s.members p ∪ s.members q
      else if r = p ∨ r = q then ∅ else s.members r := by
  obtain ⟨-, htop, hfind⟩ := h.link hp hq
  ext z
  have hz : z ∈ (s.link p q).2.members r ↔
      (s.find? z).map (fun t => if t = p ∨ t = q then (s.link p q).1 else t) = some r := by
    rw [← hfind]
    exact Iff.rfl
  have hset : ∀ t, z ∈ s.members t ↔ s.find? z = some t := fun _ => Iff.rfl
  rw [hz]
  cases hroot : s.find? z with
  | none => grind
  | some t =>
    rw [Option.map_some, Option.some.injEq]
    by_cases ht : t = p ∨ t = q
    · -- Whichever of the two roots it was below, the id is now below the one on top.
      rw [if_pos ht]
      grind
    · -- Any other root keeps the ids below it, and is not the one on top.
      rw [if_neg ht]
      grind

/-- Shorter paths leave all ranks as they are. -/
theorem rank_compress (ids : List ℕ) (z : ℕ) : (s.compress ids).rank z = s.rank z := by
  induction ids generalizing s with
  | nil => rfl
  | cons id ids ih =>
    change ((s.compressOne id).compress ids).rank z = s.rank z
    rw [ih]
    unfold compressOne
    split <;> rfl

namespace Weighted

/-- Without ids there is nothing to weigh. -/
theorem empty : ({} : DisjointSets).Weighted := by
  refine ⟨forest_empty, fun hr => ?_⟩
  obtain ⟨p, hp⟩ := contains_iff.1 (climbs_of_climb hr).contains
  simp [parent?] at hp

/-- A new id is the only one of its set, and its rank is zero. -/
theorem insert (h : s.Weighted) (id : ℕ) : (s.insert id).2.Weighted := by
  cases hid : s.contains id with
  | true => rwa [insert_of_contains hid]
  | false =>
    obtain ⟨hforest, hfind⟩ := h.toForest.insert hid
    refine ⟨hforest, fun {r} hr => ?_⟩
    rw [rank_insert hid]
    by_cases hrid : r = id
    · rw [if_pos hrid, Nat.pow_zero, Nat.one_le_iff_ne_zero]
      exact Set.ncard_ne_zero_of_mem (show r ∈ _ from hr) (finite_members _ r)
    -- The set of another root is the same, as the new id is found as its own root.
    · have hmembers : (s.insert id).2.members r = s.members r := by
        ext z
        change (s.insert id).2.find? z = some r ↔ s.find? z = some r
        rw [hfind]
        split
        · rename_i hz
          rw [hz, h.toForest.find?_eq_none.2 hid]
          simp [Ne.symm hrid]
        · rfl
      rw [hfind, if_neg hrid] at hr
      rw [if_neg hrid, hmembers]
      exact h.two_pow_rank_le hr

/-- Two sets that become one pay for the rank of their root together. -/
theorem link (h : s.Weighted) (hp : s.find? p = some p) (hq : s.find? q = some q) :
    (s.link p q).2.Weighted := by
  have hproot := (h.toForest.find?_root hp).2.1
  have hqroot := (h.toForest.find?_root hq).2.1
  obtain ⟨hforest, -, -⟩ := h.toForest.link hproot hqroot
  have hmembers := h.toForest.members_link hproot hqroot
  by_cases hpq : p = q
  · have hsame : s.link p q = (p, s) := by rw [DisjointSets.link, if_pos hpq]
    rwa [hsame]
  refine ⟨hforest, fun {r} hr => ?_⟩
  by_cases hrtop : r = (s.link p q).1
  · calc 2 ^ (s.link p q).2.rank r
        ≤ 2 ^ s.rank p + 2 ^ s.rank q := hrtop ▸ two_pow_rank_link_le hpq
      _ ≤ (s.members p).ncard + (s.members q).ncard :=
        Nat.add_le_add (h.two_pow_rank_le hp) (h.two_pow_rank_le hq)
      _ = ((s.link p q).2.members r).ncard := by
        rw [hmembers, if_pos hrtop, Set.ncard_union_eq _ (finite_members s p) (finite_members s q)]
        exact Set.disjoint_left.2 fun _ => notMem_members hpq
  · -- The other one of the two roots is none any more, and all others are as before.
    have hrmem : r ∈ (s.link p q).2.members r := hr
    have hrpq : ¬ (r = p ∨ r = q) := by
      intro hrpq
      rw [hmembers, if_neg hrtop, if_pos hrpq] at hrmem
      exact hrmem
    rw [hmembers, if_neg hrtop, if_neg hrpq] at hrmem ⊢
    rw [rank_link hpq, if_neg fun hrise => hrpq (Or.inl hrise.2)]
    exact h.two_pow_rank_le hrmem

/-- Two sets weigh enough when they are united. -/
theorem union (h : s.Weighted) (x y : ℕ) : (s.union x y).2.Weighted := by
  -- A union with an id that is not tracked is refused, and any other one links two roots.
  cases hp : s.find? x with
  | none =>
    unfold DisjointSets.union
    rwa [hp]
  | some p =>
    cases hq : s.find? y with
    | none =>
      unfold DisjointSets.union
      rwa [hp, hq]
    | some q =>
      rw [union_eq_link hp hq]
      exact h.link (h.toForest.find?_root hp).2.2 (h.toForest.find?_root hq).2.2

/-- Compression changes neither the sets nor the ranks. -/
theorem compress (h : s.Weighted) (ids : List ℕ) : (s.compress ids).Weighted := by
  obtain ⟨hforest, hfind, -, -⟩ := h.toForest.compress ids
  refine ⟨hforest, fun {r} hr => ?_⟩
  have hmembers : (s.compress ids).members r = s.members r := Set.ext fun z => by
    change (s.compress ids).find? z = some r ↔ s.find? z = some r
    rw [hfind]
  rw [rank_compress, hmembers]
  exact h.two_pow_rank_le ((hfind r).symm.trans hr)

/-- Every call keeps the weights. -/
theorem perform (h : s.Weighted) (call : Call) : (call.perform s).Weighted := by
  cases call with
  | insert id => exact h.insert id
  | union x y => exact h.union x y
  | compress ids => exact h.compress ids

end Weighted

/-- After any calls the ranks of the roots are paid for. -/
theorem weighted_run (calls : List Call) : (Call.run calls DisjointSets.empty).Weighted := by
  induction calls using List.reverseRecOn with
  | nil => exact .empty
  | append_singleton calls call ih =>
    rw [Call.run_concat]
    exact ih.perform call

/-! ## Shallow trees -/

/-- The way up to a root is at most the logarithm of the number of ids. -/
structure Shallow (s : DisjointSets) : Prop where
  /-- A tracked id has a parent, and a rank below that of its parent unless it is a root. -/
  rank_lt : ∀ id, s.contains id = true → ∃ p, s.parent? id = some p ∧ (p ≠ id → s.rank id < s.rank p)
  /-- A root of rank `n` has at least `2 ^ n` ids in its set. -/
  two_pow_rank_le : ∀ r, s.parent? r = some r → 2 ^ s.rank r ≤ {id | s.find? id = some r}.ncard
  /-- The root of a tracked id is found, within a logarithmic number of steps, by a search that may look up one parent
  for each step and one for the root. -/
  found : ∀ id, s.contains id = true → ∃ r steps, s.find? id = some r ∧ s.ClimbsIn steps id r ∧
    steps ≤ Nat.log2 s.size ∧ s.climb (steps + 1) id = some r

/-- With the weights of its sets a structure is shallow. -/
theorem Weighted.shallow (h : s.Weighted) : s.Shallow where
  rank_lt id hid := by
    obtain ⟨p, hp⟩ := contains_iff.1 hid
    exact ⟨p, hp, h.toForest.rank_lt hp⟩
  two_pow_rank_le r hr := h.two_pow_rank_le (h.toForest.find?_eq_some.2 (.root hr))
  found id hid := by
    obtain ⟨r, hr⟩ := h.toForest.exists_find? hid
    obtain ⟨steps, -, hclimb⟩ := climb_eq_some_iff.1 hr
    -- Every step rises in rank, and a root of this rank has at least so many ids below it.
    have hrank : steps ≤ s.rank r := (Nat.le_add_left _ _).trans (h.toForest.add_rank_le hclimb)
    have hpow : 2 ^ steps ≤ s.size :=
      calc 2 ^ steps
          ≤ 2 ^ s.rank r := Nat.pow_le_pow_right Nat.two_pos hrank
        _ ≤ (s.members r).ncard := h.two_pow_rank_le (h.toForest.find?_root hr).2.2
        _ ≤ s.size := ncard_members_le s r
    have hsize : s.size ≠ 0 := (Nat.two_pow_pos steps).trans_le hpow |>.ne'
    exact ⟨r, steps, hr, hclimb, (Nat.le_log2 hsize).2 hpow, climb_eq_some_iff.2 ⟨steps, Nat.lt_succ_self _, hclimb⟩⟩

/-- After any calls, from no sets on, the trees are shallow. -/
theorem shallow_run (calls : List Call) : (Call.run calls DisjointSets.empty).Shallow :=
  (weighted_run calls).shallow

/-- Compression leaves a rank behind that no id pays for: id 2 was the root of a set of two, and nothing is below it
any more. -/
example :
    let s := Call.run [.insert 0, .insert 1, .insert 2, .insert 3, .union 0 1, .union 2 3, .union 0 2, .compress [3]]
      DisjointSets.empty
    s.rank 2 = 1 ∧ s.parents.toList = [(0, 0), (1, 0), (2, 0), (3, 0)] := by
  decide +kernel

end DisjointSets

end RegionMesh
