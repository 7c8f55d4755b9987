import Mathlib.Data.Nat.Notation
import Mathlib.Logic.Relation
import RegionMesh.DisjointSets

/-!
# Disjoint sets as partitions

The parents of a family of disjoint sets lead up to the roots (`DisjointSets.Climbs`). Ranks rise on the way
(`DisjointSets.Forest`), so no id is met twice and the look-up of a root ends (`Forest.find?_eq_some`).

Which ids are in the same set is determined by the pairs that were united: the sets are the classes of the least
equivalence that holds of these pairs (`DisjointSets.Partitions`). Every operation is stated as what it does to this
partition (`Partitions.insert`, `Partitions.union`, `Partitions.compress`), whatever the trees look like.
-/

namespace RegionMesh

namespace DisjointSets

variable {s s' : DisjointSets} {id a b p q r x y : ℕ}

/-- A value that is entered under a number is found there. -/
theorem getElem?_insert_eq (t : Std.TreeMap ℕ ℕ) (k v i : ℕ) :
    (t.insert k v)[i]? = if i = k then some v else t[i]? := by
  simp only [Std.TreeMap.getElem?_insert, Nat.compare_eq_eq, @eq_comm ℕ k i]

/-- A map has the new value for its key and the old ones for the others. -/
theorem getD_insert_eq (t : Std.TreeMap ℕ ℕ) (k v i d : ℕ) :
    (t.insert k v).getD i d = if i = k then v else t.getD i d := by
  simp only [Std.TreeMap.getD_insert, Nat.compare_eq_eq, @eq_comm ℕ k i]

/-! ## Climbing -/

/-- An id is tracked if it has a parent. -/
theorem contains_iff : s.contains id = true ↔ ∃ p, s.parent? id = some p := by
  unfold contains parent?
  rw [Std.TreeMap.contains_eq_isSome_getElem?, Option.isSome_iff_exists]

/-- From an id the parents lead up to a root. -/
inductive Climbs (s : DisjointSets) : ℕ → ℕ → Prop
  /-- A root is its own parent. -/
  | root {r : ℕ} (h : s.parent? r = some r) : Climbs s r r
  /-- Above an id stands what stands above its parent. -/
  | step {id p r : ℕ} (h : s.parent? id = some p) (hp : Climbs s p r) : Climbs s id r

namespace Climbs

/-- Only a tracked id has something above it. -/
theorem contains (h : s.Climbs id r) : s.contains id = true := by
  cases h with
  | root h => exact contains_iff.2 ⟨_, h⟩
  | step h _ => exact contains_iff.2 ⟨_, h⟩

/-- At the top stands a root. -/
theorem parent?_top (h : s.Climbs id r) : s.parent? r = some r := by
  induction h with
  | root h => exact h
  | step _ _ ih => exact ih

/-- Above a root stands nothing else. -/
theorem eq_of_root (h : s.Climbs id r) (hid : s.parent? id = some id) : r = id := by
  induction h with
  | root => rfl
  | step h _ ih =>
    rw [hid, Option.some.injEq] at h
    subst h
    exact ih hid

/-- The parents of an id lead to one root only. -/
theorem unique (h : s.Climbs id r) (h' : s.Climbs id q) : r = q := by
  induction h with
  | root h => exact (h'.eq_of_root h).symm
  | step h hp ih =>
    -- A root has no way up but itself, and any other id has one parent.
    cases h' with
    | root hq =>
      rw [hq, Option.some.injEq] at h
      subst h
      exact hp.eq_of_root hq
    | step h' hp' =>
      rw [h', Option.some.injEq] at h
      subst h
      exact ih hp'

/-- When a root is given to another one, the ids below it come below the other one. -/
theorem graft (h : s.Climbs id r) (hparent : ∀ x, s'.parent? x = if x = a then some b else s.parent? x)
    (ha : s.parent? a = some a) (hb : s.parent? b = some b) (hab : a ≠ b) :
    s'.Climbs id (if r = a then b else r) := by
  have hb' : s'.parent? b = some b := by rw [hparent, if_neg hab.symm, hb]
  induction h with
  | @root r hr =>
    by_cases hra : r = a
    · subst hra
      rw [if_pos rfl]
      exact .step (by rw [hparent, if_pos rfl]) (.root hb')
    · rw [if_neg hra]
      exact .root (by rw [hparent, if_neg hra, hr])
  | @step id p r h hp ih =>
    by_cases hid : id = a
    · -- The root that was given away is its own parent.
      subst hid
      rw [ha, Option.some.injEq] at h
      subst h
      exact ih
    · exact .step (by rw [hparent, if_neg hid, h]) ih

/-- A root is found as before when it becomes the parent of an id below it. -/
theorem shortcut (h : s.Climbs id r) (hparent : ∀ x, s'.parent? x = if x = a then some b else s.parent? x)
    (hab : s.Climbs a b) : s'.Climbs id r := by
  have hb' : s'.parent? b = some b := by
    rw [hparent, hab.parent?_top, ite_self]
  induction h with
  | @root r hr =>
    refine .root ?_
    by_cases hra : r = a
    · subst hra
      rw [hparent, if_pos rfl, hab.eq_of_root hr]
    · rw [hparent, if_neg hra, hr]
  | @step id p r h hp ih =>
    by_cases hid : id = a
    · -- The root that it now has as its parent is the one it had above it.
      subst hid
      obtain rfl : b = r := hab.unique (.step h hp)
      exact .step (by rw [hparent, if_pos rfl]) (.root hb')
    · exact .step (by rw [hparent, if_neg hid, h]) ih

/-- New ids change nothing for the others. -/
theorem extend (h : s.Climbs id r) (hparent : ∀ x p, s.parent? x = some p → s'.parent? x = some p) :
    s'.Climbs id r := by
  induction h with
  | root hr => exact .root (hparent _ _ hr)
  | step h _ ih => exact .step (hparent _ _ h) ih

end Climbs

/-- Whatever the search finds stands above the id. -/
theorem climbs_of_climb {n : ℕ} (h : s.climb n id = some r) : s.Climbs id r := by
  induction n generalizing id with
  | zero => cases h
  | succ n ih =>
    unfold climb at h
    cases hp : s.parent? id with
    | none => simp [hp] at h
    | some p =>
      simp only [hp] at h
      -- The search stops at a root, and goes on to the parent of any other id.
      split at h
      · rename_i hpid
        subst hpid
        obtain rfl : p = r := Option.some.inj h
        exact .root hp
      · exact .step hp (ih h)

/-- Parents are tracked, and ranks rise from an id to its parent. -/
structure Forest (s : DisjointSets) : Prop where
  /-- A parent has a parent. -/
  parent_tracked : ∀ {id p}, s.parent? id = some p → s.contains p = true
  /-- A parent has a higher rank. -/
  rank_lt : ∀ {id p}, s.parent? id = some p → p ≠ id → s.rank id < s.rank p

namespace Forest

/-- The search ends at a root, if it may look up a parent for every tracked id of no lower rank. -/
theorem exists_climb (h : s.Forest) (hid : s.contains id = true) {n : ℕ}
    (hn : (s.parents.keys.filter fun k => s.rank id ≤ s.rank k).length ≤ n) : ∃ r, s.climb n id = some r := by
  -- The id itself is one of those ids, and is none of them any more from its parent on.
  have hmem : ∀ {id}, s.contains id = true → id ∈ s.parents.keys.filter fun k => s.rank id ≤ s.rank k := by
    intro id hid
    rw [List.mem_filter, Std.TreeMap.mem_keys]
    exact ⟨hid, by simp⟩
  induction n generalizing id with
  | zero =>
    have hpos := List.length_pos_of_mem (hmem hid)
    omega
  | succ n ih =>
    obtain ⟨p, hp⟩ := contains_iff.1 hid
    unfold climb
    simp only [hp]
    by_cases hpid : p = id
    · exact ⟨id, if_pos hpid⟩
    · have hlt := h.rank_lt hp hpid
      have hfilter : (s.parents.keys.filter fun k => s.rank p ≤ s.rank k) =
          (s.parents.keys.filter fun k => s.rank id ≤ s.rank k).filter fun k => s.rank p ≤ s.rank k := by
        rw [List.filter_filter]
        refine List.filter_congr fun k _ => ?_
        rw [Bool.eq_iff_iff, Bool.and_eq_true, decide_eq_true_iff, decide_eq_true_iff]
        omega
      have hfewer : (s.parents.keys.filter fun k => s.rank p ≤ s.rank k).length <
          (s.parents.keys.filter fun k => s.rank id ≤ s.rank k).length := by
        rw [hfilter, List.length_filter_lt_length_iff_exists]
        exact ⟨id, hmem hid, by simpa using hlt⟩
      rw [if_neg hpid]
      exact ih (h.parent_tracked hp) (by omega)

/-- Every tracked id has a root. -/
theorem exists_find? (h : s.Forest) (hid : s.contains id = true) : ∃ r, s.find? id = some r := by
  refine h.exists_climb hid ?_
  calc (s.parents.keys.filter fun k => s.rank id ≤ s.rank k).length
      ≤ s.parents.keys.length := List.length_filter_le _ _
    _ = s.size := Std.TreeMap.length_keys

/-- The root that is found is the one that stands above the id. -/
theorem find?_eq_some (h : s.Forest) : s.find? id = some r ↔ s.Climbs id r := by
  refine ⟨climbs_of_climb, fun hr => ?_⟩
  obtain ⟨q, hq⟩ := h.exists_find? hr.contains
  rw [hq, hr.unique (climbs_of_climb hq)]

/-- A root is found for the tracked ids. -/
theorem isSome_find? (h : s.Forest) (id : ℕ) : (s.find? id).isSome = s.contains id := by
  rw [Bool.eq_iff_iff, Option.isSome_iff_exists]
  exact ⟨fun ⟨_, hr⟩ => (climbs_of_climb hr).contains, h.exists_find?⟩

/-- No root is found for an id that is not tracked. -/
theorem find?_eq_none (h : s.Forest) : s.find? id = none ↔ s.contains id = false := by
  rw [← h.isSome_find?, Option.isSome_eq_false_iff, Option.isNone_iff_eq_none]

/-- If the same ids are tracked and stand below other roots, these are the roots that are found. -/
theorem find?_eq_map (h : s.Forest) (h' : s'.Forest) (hcontains : ∀ z, s'.contains z = s.contains z) {g : ℕ → ℕ}
    (hclimbs : ∀ z r, s.Climbs z r → s'.Climbs z (g r)) (z : ℕ) : s'.find? z = (s.find? z).map g := by
  cases hz : s.find? z with
  | none => rwa [Option.map_none, h'.find?_eq_none, hcontains, ← h.find?_eq_none]
  | some r => exact h'.find?_eq_some.2 (hclimbs z r (h.find?_eq_some.1 hz))

/-- A root that is found is tracked, and is its own root. -/
theorem find?_root (h : s.Forest) (hr : s.find? id = some r) :
    s.contains r = true ∧ s.parent? r = some r ∧ s.find? r = some r := by
  have htop := (h.find?_eq_some.1 hr).parent?_top
  exact ⟨contains_iff.2 ⟨r, htop⟩, htop, h.find?_eq_some.2 (.root htop)⟩

end Forest

/-! ## The operations on the trees -/

/-- Without ids there are no paths to go wrong. -/
theorem forest_empty : ({} : DisjointSets).Forest := by
  constructor <;> intro id p hp <;> simp [parent?] at hp

/-- A new id is its own parent, and the others keep theirs. -/
theorem parent?_insert (hid : s.contains id = false) (x : ℕ) :
    (s.insert id).2.parent? x = if x = id then some id else s.parent? x := by
  unfold insert
  rw [hid, if_neg (by simp)]
  exact getElem?_insert_eq _ _ _ _

/-- A new id has rank zero, and the others keep theirs. -/
theorem rank_insert (hid : s.contains id = false) (x : ℕ) :
    (s.insert id).2.rank x = if x = id then 0 else s.rank x := by
  unfold insert
  rw [hid, if_neg (by simp)]
  exact getD_insert_eq _ _ _ _ _

/-- A tracked id is not inserted again. -/
theorem insert_of_contains (hid : s.contains id = true) : (s.insert id).2 = s := by
  unfold insert
  rw [if_pos hid]

/-- A new id is a root, and the others have the roots that they had. -/
theorem Forest.insert (h : s.Forest) (hid : s.contains id = false) :
    (s.insert id).2.Forest ∧ ∀ x, (s.insert id).2.find? x = if x = id then some id else s.find? x := by
  have hparent := parent?_insert hid
  have hne : ∀ {x p}, s.parent? x = some p → x ≠ id := by
    rintro x p hx rfl
    rw [contains_iff.2 ⟨p, hx⟩] at hid
    cases hid
  -- An id that had a parent is not the new one, so all parents stay.
  have hkeeps : ∀ x p, s.parent? x = some p → (s.insert id).2.parent? x = some p := by
    intro x p hx
    rw [hparent, if_neg (hne hx), hx]
  have hforest : (s.insert id).2.Forest := by
    constructor
    · intro x p hx
      rw [hparent] at hx
      split at hx
      · obtain rfl := Option.some.inj hx
        exact contains_iff.2 ⟨id, by rw [hparent, if_pos rfl]⟩
      · obtain ⟨q, hq⟩ := contains_iff.1 (h.parent_tracked hx)
        exact contains_iff.2 ⟨q, hkeeps _ _ hq⟩
    · intro x p hx hpx
      rw [hparent] at hx
      split at hx
      · rename_i hxid
        rw [← Option.some.inj hx, hxid] at hpx
        exact absurd rfl hpx
      · rename_i hxid
        obtain ⟨q, hq⟩ := contains_iff.1 (h.parent_tracked hx)
        rw [rank_insert hid, rank_insert hid, if_neg hxid, if_neg (hne hq)]
        exact h.rank_lt hx hpx
  refine ⟨hforest, fun x => ?_⟩
  by_cases hx : x = id
  · rw [if_pos hx, hforest.find?_eq_some, hx]
    exact .root (by rw [hparent, if_pos rfl])
  · rw [if_neg hx]
    cases hfind : s.find? x with
    | some r => exact hforest.find?_eq_some.2 ((h.find?_eq_some.1 hfind).extend hkeeps)
    -- An id without a root was not tracked, and it is not the new one.
    | none =>
      rw [hforest.find?_eq_none, Bool.eq_false_iff, ne_eq, contains_iff]
      rintro ⟨p, hp⟩
      rw [hparent, if_neg hx] at hp
      rw [h.find?_eq_none, contains_iff.2 ⟨p, hp⟩] at hfind
      cases hfind

section Redirect

variable (hparent : ∀ x, s'.parent? x = if x = a then some b else s.parent? x)

include hparent

/-- Another parent for a tracked id does not change which ids are tracked. -/
theorem contains_redirect (ha : s.contains a = true) (z : ℕ) : s'.contains z = s.contains z := by
  rw [Bool.eq_iff_iff, contains_iff, contains_iff, hparent]
  split
  · rename_i hz
    subst hz
    exact iff_of_true ⟨b, rfl⟩ (contains_iff.1 ha)
  · exact Iff.rfl

/-- A root of higher rank may become the parent of any tracked id. -/
theorem Forest.redirect (h : s.Forest) (ha : s.contains a = true) (hb : s.parent? b = some b)
    (hle : ∀ z, s.rank z ≤ s'.rank z) (hsame : ∀ z, z ≠ b → s'.rank z = s.rank z)
    (hlt : a ≠ b → s.rank a < s'.rank b) : s'.Forest := by
  constructor
  · intro z p hz
    rw [contains_redirect hparent ha]
    rw [hparent] at hz
    split at hz
    · obtain rfl := Option.some.inj hz
      exact contains_iff.2 ⟨b, hb⟩
    · exact h.parent_tracked hz
  · intro z p hz hpz
    rw [hparent] at hz
    split at hz
    · rename_i hza
      obtain rfl := Option.some.inj hz
      rw [hsame z hpz.symm, hza]
      exact hlt fun he => hpz (he ▸ hza.symm)
    · -- The root has no other parent.
      have hzb : z ≠ b := by
        rintro rfl
        rw [hb, Option.some.injEq] at hz
        exact hpz hz.symm
      calc s'.rank z = s.rank z := hsame z hzb
        _ < s.rank p := h.rank_lt hz hpz
        _ ≤ s'.rank p := hle p

end Redirect

/-- Of two roots the one of lower rank goes below, and the second one if the ranks are the same. -/
theorem link_fst (x y : ℕ) : (s.link x y).1 = if s.rank x < s.rank y then y else x := by
  unfold link
  split
  · rename_i hxy
    rw [hxy, ite_self]
  split
  · rfl
  · split <;> rfl

/-- The root that goes below gets the other one as its parent. -/
theorem parent?_link (hxy : x ≠ y) (z : ℕ) : (s.link x y).2.parent? z =
    if z = (if s.rank x < s.rank y then x else y) then some (s.link x y).1 else s.parent? z := by
  rw [link_fst]
  unfold link
  rw [if_neg hxy]
  split
  · exact getElem?_insert_eq s.parents x y z
  · split <;> exact getElem?_insert_eq s.parents y x z

/-- A link changes one rank at most: of two roots with the same rank the first one rises. -/
theorem rank_link (hxy : x ≠ y) (z : ℕ) :
    (s.link x y).2.rank z = if s.rank x = s.rank y ∧ z = x then s.rank x + 1 else s.rank z := by
  unfold link
  rw [if_neg hxy]
  -- If the ranks differ, only parents change.
  split
  · rename_i hlt
    rw [if_neg fun h => by omega]
    rfl
  split
  · rename_i hlt
    rw [if_neg fun h => by omega]
    rfl
  · rename_i hge hle
    have he : s.rank x = s.rank y := by omega
    simp only [he, true_and]
    exact getD_insert_eq _ _ _ z 0

/-- The sets of two different roots are united by giving one root to the other, which then has a higher rank. -/
theorem link_spec (hxy : x ≠ y) : ∃ a b, ((a = x ∧ b = y) ∨ (a = y ∧ b = x)) ∧ (s.link x y).1 = b ∧
    (∀ z, (s.link x y).2.parent? z = if z = a then some b else s.parent? z) ∧
    (∀ z, s.rank z ≤ (s.link x y).2.rank z) ∧ (∀ z, z ≠ b → (s.link x y).2.rank z = s.rank z) ∧
    s.rank a < (s.link x y).2.rank b := by
  have hle : ∀ z, s.rank z ≤ (s.link x y).2.rank z := by
    intro z
    rw [rank_link hxy]
    split
    · rename_i hz
      rw [hz.2]
      omega
    · exact Nat.le_refl _
  by_cases hlt : s.rank x < s.rank y
  · have htop : (s.link x y).1 = y := by rw [link_fst, if_pos hlt]
    refine ⟨x, y, Or.inl ⟨rfl, rfl⟩, htop, fun z => ?_, hle, fun z _ => ?_, Nat.lt_of_lt_of_le hlt (hle y)⟩
    · rw [parent?_link hxy, if_pos hlt, htop]
    · rw [rank_link hxy, if_neg fun h => by omega]
  · have htop : (s.link x y).1 = x := by rw [link_fst, if_neg hlt]
    refine ⟨y, x, Or.inr ⟨rfl, rfl⟩, htop, fun z => ?_, hle, fun z hz => ?_, ?_⟩
    · rw [parent?_link hxy, if_neg hlt, htop]
    · rw [rank_link hxy, if_neg fun h => hz h.2]
    · -- Of two equal ranks the one that stays on top rises.
      rw [rank_link hxy]
      split <;> omega

/-- Where two roots are linked, one of them becomes the root of all ids of both sets. -/
theorem Forest.link (h : s.Forest) (hx : s.parent? x = some x) (hy : s.parent? y = some y) :
    (s.link x y).2.Forest ∧ ((s.link x y).1 = x ∨ (s.link x y).1 = y) ∧
      ∀ z, (s.link x y).2.find? z =
        (s.find? z).map fun r => if r = x ∨ r = y then (s.link x y).1 else r := by
  by_cases hxy : x = y
  · subst hxy
    have hlink : s.link x x = (x, s) := by rw [DisjointSets.link, if_pos rfl]
    rw [hlink]
    refine ⟨h, Or.inl rfl, fun z => ?_⟩
    cases s.find? z with
    | none => rfl
    | some r => by_cases hr : r = x <;> simp [hr]
  -- The ranks decide which of the two roots, `b`, stays one. The other, `a`, is put below it.
  obtain ⟨a, b, hab, htop, hparent, hle, hsame, hlt⟩ := link_spec (s := s) hxy
  obtain ⟨hne, ha, hb⟩ : a ≠ b ∧ s.parent? a = some a ∧ s.parent? b = some b := by
    rcases hab with ⟨rfl, rfl⟩ | ⟨rfl, rfl⟩
    · exact ⟨hxy, hx, hy⟩
    · exact ⟨Ne.symm hxy, hy, hx⟩
  have hset : ∀ r, (r = x ∨ r = y) ↔ (r = a ∨ r = b) := by
    intro r
    rcases hab with ⟨rfl, rfl⟩ | ⟨rfl, rfl⟩
    · exact Iff.rfl
    · exact or_comm
  have hatracked := contains_iff.2 ⟨a, ha⟩
  have hforest := h.redirect hparent hatracked hb hle hsame fun _ => hlt
  refine ⟨hforest, by rw [htop, hset]; exact Or.inr rfl, ?_⟩
  rw [htop]
  refine h.find?_eq_map hforest (contains_redirect hparent hatracked) fun z r hr => ?_
  have hroot : (if r = x ∨ r = y then b else r) = if r = a then b else r := by
    simp only [hset]
    by_cases hrb : r = b
    · simp [hrb]
    · simp [hrb]
  rw [hroot]
  exact hr.graft hparent ha hb hne

/-- The sets of two tracked ids are united by linking their roots. -/
theorem union_eq_link (hp : s.find? x = some p) (hq : s.find? y = some q) :
    s.union x y = (some (s.link p q).1, (s.link p q).2) := by
  unfold union
  rw [hp, hq]

/-- When two sets are united, one of their roots becomes the root of both, and is the answer. -/
theorem Forest.union (h : s.Forest) (hp : s.find? x = some p) (hq : s.find? y = some q) :
    (s.union x y).2.Forest ∧ ∃ top, (s.union x y).1 = some top ∧ (top = p ∨ top = q) ∧
      ∀ z, (s.union x y).2.find? z = (s.find? z).map fun r => if r = p ∨ r = q then top else r := by
  obtain ⟨hforest, htop, hfind⟩ := h.link (h.find?_root hp).2.1 (h.find?_root hq).2.1
  rw [union_eq_link hp hq]
  exact ⟨hforest, _, rfl, htop, hfind⟩

/-- The rank rises along the whole way up to a root. -/
theorem Forest.rank_lt_of_climbs (h : s.Forest) (hr : s.Climbs id r) (hne : id ≠ r) : s.rank id < s.rank r := by
  induction hr with
  | root => exact absurd rfl hne
  | @step id p r hp hr ih =>
    by_cases hpid : p = id
    · subst hpid
      exact ih hne
    · have hlt := h.rank_lt hp hpid
      by_cases hpr : p = r
      · rwa [← hpr]
      · exact Nat.lt_trans hlt (ih hpr)

/-- Compression changes no root, and gives every listed id its root as its parent. -/
theorem Forest.compressOne (h : s.Forest) (id : ℕ) :
    (s.compressOne id).Forest ∧ (∀ z, (s.compressOne id).find? z = s.find? z) ∧
      ∀ z, (s.compressOne id).parent? z = if z = id then s.find? id else s.parent? z := by
  unfold DisjointSets.compressOne
  cases hid : s.find? id with
  | none =>
    -- What has no root has no parent either, and nothing is done.
    refine ⟨h, fun _ => rfl, fun z => ?_⟩
    change s.parent? z = _
    split
    · rename_i hz
      rw [h.find?_eq_none, Bool.eq_false_iff, ne_eq, contains_iff] at hid
      rw [hz, Option.eq_none_iff_forall_ne_some]
      exact fun p hp => hid ⟨p, hp⟩
    · rfl
  | some r =>
    have hclimb := h.find?_eq_some.1 hid
    have hparent : ∀ z, ({ s with parents := s.parents.insert id r } : DisjointSets).parent? z =
        if z = id then some r else s.parent? z := getElem?_insert_eq s.parents id r
    have hforest : ({ s with parents := s.parents.insert id r } : DisjointSets).Forest :=
      h.redirect hparent hclimb.contains hclimb.parent?_top (fun _ => Nat.le_refl _) (fun _ _ => rfl)
        (h.rank_lt_of_climbs hclimb)
    have hfind := h.find?_eq_map hforest (contains_redirect hparent hclimb.contains) (g := fun t => t)
      fun z t ht => ht.shortcut hparent hclimb
    exact ⟨hforest, fun z => (hfind z).trans Option.map_id', hparent⟩

/-- Compression of a list of ids changes no root, and gives every listed id its root as its parent. -/
theorem Forest.compress (h : s.Forest) (ids : List ℕ) :
    (s.compress ids).Forest ∧ (∀ z, (s.compress ids).find? z = s.find? z) ∧
      (∀ z, s.parent? z = s.find? z → (s.compress ids).parent? z = s.find? z) ∧
      ∀ z ∈ ids, (s.compress ids).parent? z = s.find? z := by
  induction ids generalizing s with
  | nil => exact ⟨h, fun _ => rfl, fun _ hz => hz, by simp⟩
  | cons id ids ih =>
    obtain ⟨hforest, hfind, hparent⟩ := h.compressOne id
    obtain ⟨hforest', hfind', hkept, hlisted⟩ := ih hforest
    change ((s.compressOne id).compress ids).Forest ∧ _
    -- An id with its root as its parent keeps it.
    have hkeep : ∀ z, s.parent? z = s.find? z → ((s.compressOne id).compress ids).parent? z = s.find? z := by
      intro z hz
      rw [← hfind z]
      refine hkept z ?_
      rw [hparent, hfind]
      split
      · rename_i hzid
        rw [hzid]
      · exact hz
    refine ⟨hforest', fun z => (hfind' z).trans (hfind z), hkeep, fun z hz => ?_⟩
    change ((s.compressOne id).compress ids).parent? z = s.find? z
    rcases List.mem_cons.1 hz with rfl | hz
    · rw [← hfind z]
      refine hkept z ?_
      rw [hparent, if_pos rfl, hfind]
    · rw [hlisted z hz, hfind]

/-! ## Partitions -/

/-- The sets hold the tracked ids, and two of them are in one set if they are equivalent by the pairs that were
united. -/
structure Partitions (s : DisjointSets) (tracked : ℕ → Prop) (united : ℕ → ℕ → Prop) : Prop
    extends s.Forest where
  /-- The tracked ids are known. -/
  contains_iff_tracked : ∀ id, s.contains id = true ↔ tracked id
  /-- Only tracked ids were united. -/
  united_tracked : ∀ a b, united a b → tracked a ∧ tracked b
  /-- Equivalent ids have the same root, and no others have. -/
  find?_eq_iff : ∀ a b, tracked a → tracked b → (s.find? a = s.find? b ↔ Relation.EqvGen united a b)

namespace Partitions

variable {tracked : ℕ → Prop} {united : ℕ → ℕ → Prop}

/-- Equivalent ids are the same or tracked. -/
theorem eq_or_tracked (h : s.Partitions tracked united) (hab : Relation.EqvGen united a b) :
    a = b ∨ (tracked a ∧ tracked b) := by
  induction hab with
  | rel a b hab => exact Or.inr (h.united_tracked a b hab)
  | refl a => exact Or.inl rfl
  | symm a b _ ih => exact ih.imp Eq.symm And.symm
  | trans a b c _ _ ih₁ ih₂ =>
    rcases ih₁ with rfl | ⟨ha, hb⟩
    · exact ih₂
    · rcases ih₂ with rfl | ⟨-, hc⟩
      · exact Or.inr ⟨ha, hb⟩
      · exact Or.inr ⟨ha, hc⟩

/-- Equivalent ids have the same root, tracked or not. -/
theorem find?_eq (h : s.Partitions tracked united) (hab : Relation.EqvGen united a b) :
    s.find? a = s.find? b := by
  rcases h.eq_or_tracked hab with rfl | ⟨ha, hb⟩
  · rfl
  · exact (h.find?_eq_iff a b ha hb).2 hab

/-- A partition may be described in other words. -/
theorem congr (h : s.Partitions tracked united) {tracked' : ℕ → Prop} {united' : ℕ → ℕ → Prop}
    (ht : ∀ id, tracked' id ↔ tracked id) (hu : ∀ a b, united' a b ↔ united a b) :
    s.Partitions tracked' united' := by
  obtain rfl : tracked' = tracked := funext fun id => propext (ht id)
  obtain rfl : united' = united := funext fun a => funext fun b => propext (hu a b)
  exact h

/-- Without ids there are no sets. -/
theorem empty : ({} : DisjointSets).Partitions (fun _ => False) (fun _ _ => False) := by
  refine ⟨forest_empty, fun id => ?_, fun _ _ h => h.elim, fun _ _ h => h.elim⟩
  simp [contains]

/-- A new id is alone in its set. -/
theorem insert (h : s.Partitions tracked united) (id : ℕ) :
    (s.insert id).2.Partitions (fun x => tracked x ∨ x = id) united := by
  cases hid : s.contains id with
  | true =>
    rw [insert_of_contains hid]
    refine h.congr (fun x => ?_) fun _ _ => Iff.rfl
    refine or_iff_left_of_imp ?_
    rintro rfl
    exact (h.contains_iff_tracked x).1 hid
  | false =>
    obtain ⟨hforest, hfind⟩ := h.toForest.insert hid
    have hnot : ¬ tracked id := by rw [← h.contains_iff_tracked, hid]; simp
    have hnew : ∀ x, tracked x → x ≠ id := fun x hx he => hnot (he ▸ hx)
    refine ⟨hforest, fun x => ?_, fun a b hab => ?_, fun a b ha hb => ?_⟩
    · rw [← h.contains_iff_tracked, contains_iff, contains_iff, parent?_insert hid]
      by_cases hx : x = id <;> simp [hx]
    · obtain ⟨ha, hb⟩ := h.united_tracked a b hab
      exact ⟨Or.inl ha, Or.inl hb⟩
    · -- The roots of the other ids were tracked before.
      have hother : ∀ x, tracked x → s.find? x ≠ some id := by
        intro x _ he
        rw [(h.toForest.find?_root he).1] at hid
        cases hid
      have hapart : ∀ x, tracked x → ¬ Relation.EqvGen united x id := by
        intro x hx he
        rcases h.eq_or_tracked he with rfl | ⟨-, hid'⟩
        · exact hnot hx
        · exact hnot hid'
      rw [hfind, hfind]
      rcases ha with ha | rfl <;> rcases hb with hb | rfl
      · rw [if_neg (hnew a ha), if_neg (hnew b hb), h.find?_eq_iff a b ha hb]
      · rw [if_neg (hnew a ha), if_pos rfl]
        exact iff_of_false (hother a ha) (hapart a ha)
      · rw [if_pos rfl, if_neg (hnew b hb)]
        exact iff_of_false (fun he => hother b hb he.symm) fun he => hapart b hb he.symm
      · exact iff_of_true rfl (Relation.EqvGen.refl _)

/-- If two roots are replaced by the same one, they were the same or are both replaced. -/
theorem eq_or_of_replaced (replaced : ℕ → Prop) [DecidablePred replaced] {top : ℕ} (htop : replaced top)
    (he : (if replaced p then top else p) = if replaced q then top else q) :
    p = q ∨ (replaced p ∧ replaced q) := by
  by_cases hp : replaced p <;> by_cases hq : replaced q
  · exact Or.inr ⟨hp, hq⟩
  · rw [if_pos hp, if_neg hq] at he
    exact Or.inr ⟨hp, he ▸ htop⟩
  · rw [if_neg hp, if_pos hq] at he
    exact Or.inr ⟨he ▸ htop, hq⟩
  · rw [if_neg hp, if_neg hq] at he
    exact Or.inl he

/-- Ids that have the same root after a union are equivalent by the old pairs and the new one. -/
theorem eqvGen_of_find?_union (h : s.Partitions tracked united) (hx : tracked x) (hy : tracked y)
    {united' : ℕ → ℕ → Prop} (hold : ∀ a b, united a b → united' a b) (hnew : united' x y) (ha : tracked a)
    (hb : tracked b) (he : (s.union x y).2.find? a = (s.union x y).2.find? b) : Relation.EqvGen united' a b := by
  have hroot := fun {z} (hz : tracked z) => h.toForest.exists_find? ((h.contains_iff_tracked z).2 hz)
  obtain ⟨rx, hrx⟩ := hroot hx
  obtain ⟨ry, hry⟩ := hroot hy
  obtain ⟨ra, hra⟩ := hroot ha
  obtain ⟨rb, hrb⟩ := hroot hb
  obtain ⟨-, top, -, htop, hfind⟩ := h.toForest.union hrx hry
  have hmono : ∀ {a b}, tracked a → tracked b → s.find? a = s.find? b → Relation.EqvGen united' a b :=
    fun ha hb he => Relation.EqvGen.mono hold _ _ ((h.find?_eq_iff _ _ ha hb).1 he)
  -- Whatever has one of the roots that were linked is equivalent to the one id or to the other.
  have hnear : ∀ {z rz}, tracked z → s.find? z = some rz → rz = rx ∨ rz = ry → Relation.EqvGen united' z x := by
    intro z rz hz hrz hlinked
    rcases hlinked with rfl | rfl
    · exact hmono hz hx (hrz.trans hrx.symm)
    · exact (hmono hz hy (hrz.trans hry.symm)).trans _ _ _ ((Relation.EqvGen.rel _ _ hnew).symm _ _)
  rw [hfind, hfind, hra, hrb, Option.map_some, Option.map_some, Option.some.injEq] at he
  rcases eq_or_of_replaced (fun r => r = rx ∨ r = ry) htop he with rfl | ⟨hla, hlb⟩
  · exact hmono ha hb (hra.trans hrb.symm)
  · exact (hnear ha hra hla).trans _ _ _ ((hnear hb hrb hlb).symm _ _)

/-- Two tracked ids are united. -/
theorem union (h : s.Partitions tracked united) (hx : tracked x) (hy : tracked y) :
    (s.union x y).2.Partitions tracked (fun a b => united a b ∨ (a = x ∧ b = y)) := by
  obtain ⟨rx, hrx⟩ := h.toForest.exists_find? ((h.contains_iff_tracked x).2 hx)
  obtain ⟨ry, hry⟩ := h.toForest.exists_find? ((h.contains_iff_tracked y).2 hy)
  obtain ⟨hforest, top, -, -, hfind⟩ := h.toForest.union hrx hry
  refine ⟨hforest, fun id => ?_, fun a b hab => ?_, fun a b ha hb => ⟨fun he => ?_, fun hab => ?_⟩⟩
  · rw [← hforest.isSome_find?, hfind, Option.isSome_map, h.toForest.isSome_find?, h.contains_iff_tracked]
  · rcases hab with hab | ⟨rfl, rfl⟩
    · exact h.united_tracked a b hab
    · exact ⟨hx, hy⟩
  · exact h.eqvGen_of_find?_union hx hy (fun _ _ hab => Or.inl hab) (Or.inr ⟨rfl, rfl⟩) ha hb he
  · -- Having the same root is an equivalence that holds of every pair.
    clear ha hb
    induction hab with
    | rel a b hab =>
      rcases hab with hab | ⟨rfl, rfl⟩
      · rw [hfind, hfind, h.find?_eq (.rel a b hab)]
      · rw [hfind, hfind, hrx, hry, Option.map_some, Option.map_some, if_pos (Or.inl rfl),
          if_pos (Or.inr rfl)]
    | refl a => rfl
    | symm a b _ ih => exact ih.symm
    | trans a b c _ _ ih₁ ih₂ => exact ih₁.trans ih₂

/-- Compression leaves the sets as they are. -/
theorem compress (h : s.Partitions tracked united) (ids : List ℕ) :
    (s.compress ids).Partitions tracked united := by
  obtain ⟨hforest, hfind, -, -⟩ := h.toForest.compress ids
  refine ⟨hforest, fun id => ?_, h.united_tracked, fun a b ha hb => ?_⟩
  · rw [← hforest.isSome_find?, hfind, h.toForest.isSome_find?, h.contains_iff_tracked]
  · rw [hfind, hfind, h.find?_eq_iff a b ha hb]

end Partitions

end DisjointSets

end RegionMesh
