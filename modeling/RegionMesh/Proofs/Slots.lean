import Mathlib.Data.List.Basic
import RegionMesh.Connectivity.Compact

/-!
# New slots

When the marked values of a list are dropped, an unmarked one moves down by the number of marked ones before it:
its new place is the number of unmarked ones before it (`rank`). `newSlots` holds these places
(`getElem?_newSlots`), and the values that are kept stand at them (`getElem?_keepUnmarked`). Different unmarked
places stay different, and every new place comes from one (`rank_inj`, `exists_rank_eq`). In order, the new places are
0, 1, 2 and so on (`map_rank_unmarked`), and they are the old ones where nothing is marked (`rank_eq_self`).
-/

namespace RegionMesh

variable {α : Type}

/-- The number of places before `i` that are not marked. -/
def rank (dropped : List Bool) (i : ℕ) : ℕ := (dropped.take i).count false

/-- Nothing is before the first place. -/
@[simp]
theorem rank_zero (dropped : List Bool) : rank dropped 0 = 0 := by
  simp [rank]

/-- A place moves by one if there is an unmarked one more before it. -/
@[simp]
theorem rank_cons_succ (b : Bool) (dropped : List Bool) (i : ℕ) :
    rank (b :: dropped) (i + 1) = rank dropped i + if b then 0 else 1 := by
  unfold rank
  rw [List.take_succ_cons, List.count_cons]
  cases b <;> rfl

/-- Different unmarked places have different ranks. -/
theorem rank_inj {dropped : List Bool} {i j : ℕ} (hi : dropped[i]? = some false)
    (hj : dropped[j]? = some false) (h : rank dropped i = rank dropped j) : i = j := by
  induction dropped generalizing i j with
  | nil => simp at hi
  | cons b rest ih =>
    cases i with
    | zero =>
      cases j with
      | zero => rfl
      | succ j =>
        -- The first place is unmarked, so every place behind it has a rank above zero.
        obtain rfl : b = false := by simpa using hi
        simp at h
    | succ i =>
      cases j with
      | zero =>
        obtain rfl : b = false := by simpa using hj
        simp at h
      | succ j =>
        rw [rank_cons_succ, rank_cons_succ] at h
        have hij : i = j := ih (by simpa using hi) (by simpa using hj) (by omega)
        rw [hij]

/-- Every new place is the rank of an unmarked one. -/
theorem exists_rank_eq {dropped : List Bool} {k : ℕ} (hk : k < dropped.count false) :
    ∃ i, dropped[i]? = some false ∧ rank dropped i = k := by
  induction dropped generalizing k with
  | nil => simp at hk
  | cons b rest ih =>
    cases b with
    -- A marked place takes no rank, and an unmarked one takes the first.
    | true =>
      rw [List.count_cons] at hk
      obtain ⟨i, hi, hik⟩ := ih (k := k) (by simpa using hk)
      exact ⟨i + 1, by simpa using hi, by simpa using hik⟩
    | false =>
      cases k with
      | zero => exact ⟨0, by simp, by simp⟩
      | succ k =>
        rw [List.count_cons] at hk
        obtain ⟨i, hi, hik⟩ := ih (k := k) (by simpa using hk)
        exact ⟨i + 1, by simpa using hi, by simpa using hik⟩

/-- The unmarked places get the ranks 0, 1, 2 and so on, in order. -/
theorem map_rank_unmarked (dropped : List Bool) :
    ((List.range dropped.length).filter fun i => dropped[i]? = some false).map (rank dropped) =
      List.range (dropped.count false) := by
  induction dropped with
  | nil => rfl
  | cons b rest ih =>
    -- Behind the first place all places move up by one, and so do the ranks if it is not marked.
    have hrest : ((List.range rest.length).map Nat.succ).filter
        (fun i => (b :: rest)[i]? = some false) =
          ((List.range rest.length).filter fun i => rest[i]? = some false).map Nat.succ :=
      List.filter_map
    rw [List.length_cons, List.range_succ_eq_map, List.filter_cons, hrest]
    cases b with
    | true =>
      rw [List.count_cons_of_ne (by simp), ← ih]
      simp
    | false =>
      rw [List.count_cons_self, List.range_succ_eq_map, ← ih]
      simp

/-- Of handles that are listed by place, those of unmarked places are renumbered from 0 on, in order. -/
theorem map_filter_unmarked {β γ : Type} {dropped : List Bool} {handle : ℕ → β} {live : β → Bool} {f : β → γ}
    {g : ℕ → γ} (hlive : ∀ i, live (handle i) = true ↔ dropped[i]? = some false)
    (hf : ∀ i, dropped[i]? = some false → f (handle i) = g (rank dropped i)) :
    (((List.range dropped.length).map handle).filter live).map f = (List.range (dropped.count false)).map g := by
  -- The handles that stay are those of the unmarked places.
  have hkept : (List.range dropped.length).filter (live ∘ handle) =
      (List.range dropped.length).filter fun i => dropped[i]? = some false := by
    refine List.filter_congr fun i _ => ?_
    rw [Function.comp_apply, Bool.eq_iff_iff, hlive, decide_eq_true_iff]
  calc (((List.range dropped.length).map handle).filter live).map f
      = ((List.range dropped.length).filter fun i => dropped[i]? = some false).map (f ∘ handle) := by
        rw [List.filter_map, List.map_map, hkept]
    _ = ((List.range dropped.length).filter fun i => dropped[i]? = some false).map (g ∘ rank dropped) :=
        List.map_congr_left fun i hi => hf i (by simpa using (List.mem_filter.1 hi).2)
    _ = (List.range (dropped.count false)).map g := by
        rw [← List.map_map, map_rank_unmarked]

/-- The element at a place of a list that is renumbered in order gets this place. -/
theorem eq_of_map_range {β γ : Type} {l : List β} {f : β → γ} {g : ℕ → γ} {n k : ℕ} {b : β}
    (hmap : l.map f = (List.range n).map g) (hb : l[k]? = some b) : f b = g k := by
  have hk : (l.map f)[k]? = some (f b) := by rw [List.getElem?_map, hb, Option.map_some]
  rw [hmap, List.getElem?_map, Option.map_eq_some_iff] at hk
  obtain ⟨i, hi, hg⟩ := hk
  obtain ⟨hlt, rfl⟩ := List.getElem?_eq_some_iff.1 hi
  rw [← hg, List.getElem_range]

/-- Where nothing is marked, every place is its own rank. -/
theorem rank_eq_self {dropped : List Bool} (hkept : ∀ b ∈ dropped, b = false) {i : ℕ} (hi : i ≤ dropped.length) :
    rank dropped i = i := by
  have hcount : (dropped.take i).count false = (dropped.take i).length :=
    List.count_eq_length.2 fun b hb => (hkept b (List.mem_of_mem_take hb)).symm
  rw [rank, hcount, List.length_take, Nat.min_eq_left hi]

/-- The numbering goes on from the slots that were given out before. -/
theorem getElem?_newSlots_go (dropped : List Bool) (count : ℕ) (slots : Array (Option ℕ)) (i : ℕ) :
    (newSlots.go dropped count slots)[i]? =
      if i < slots.size then slots[i]?
      else (dropped[i - slots.size]?).map fun b =>
        if b then none else some (count + rank dropped (i - slots.size)) := by
  induction dropped generalizing count slots with
  | nil =>
    unfold newSlots.go
    split
    · rfl
    · simp; omega
  | cons b rest ih =>
    -- Dropped or not, the first record takes a place, and the numbering goes on behind it.
    have hstep : ∀ (n : ℕ) (o : Option ℕ), ((if b then none else some count) = o) →
        (n = count + if b then 0 else 1) →
        (newSlots.go rest n (slots.push o))[i]? =
          if i < slots.size then slots[i]?
          else ((b :: rest)[i - slots.size]?).map fun b' =>
            if b' then none else some (count + rank (b :: rest) (i - slots.size)) := by
      intro n o ho hn
      rw [ih, Array.size_push, Array.getElem?_push]
      rcases Nat.lt_trichotomy i slots.size with hlt | heq | hgt
      · have hne : i ≠ slots.size := Nat.ne_of_lt hlt
        have hlt' : i < slots.size + 1 := by omega
        rw [if_pos hlt', if_neg hne, if_pos hlt]
      · have hlt' : i < slots.size + 1 := by omega
        have hnot : ¬ i < slots.size := by omega
        have hzero : i - slots.size = 0 := by omega
        rw [if_pos hlt', if_pos heq, if_neg hnot, hzero, List.getElem?_cons_zero, Option.map_some,
          rank_zero, Nat.add_zero, ho]
      · have hnot' : ¬ i < slots.size + 1 := by omega
        have hnot : ¬ i < slots.size := by omega
        obtain ⟨m, hm⟩ : ∃ m, i - slots.size = m + 1 := ⟨i - slots.size - 1, by omega⟩
        have hm' : i - (slots.size + 1) = m := by omega
        rw [if_neg hnot', if_neg hnot, hm, hm', List.getElem?_cons_succ, rank_cons_succ, hn]
        congr 1
        funext b'
        rw [Nat.add_right_comm, Nat.add_assoc]
    cases b with
    | true => exact hstep count none rfl rfl
    | false => exact hstep (count + 1) (some count) rfl rfl

/-- The new place of an unmarked value is its rank. -/
theorem getElem?_newSlots (dropped : List Bool) (i : ℕ) :
    (newSlots dropped)[i]? = (dropped[i]?).map fun b => if b then none else some (rank dropped i) := by
  unfold newSlots
  rw [getElem?_newSlots_go]
  simp

/-- Where nothing is marked, the new place is the old one. -/
theorem eq_of_newSlots {dropped : List Bool} (hkept : ∀ b ∈ dropped, b = false) {i slot : ℕ}
    (h : (newSlots dropped)[i]? = some (some slot)) : slot = i := by
  rw [getElem?_newSlots, Option.map_eq_some_iff] at h
  obtain ⟨b, hb, hslot⟩ := h
  obtain ⟨hi, -⟩ := List.getElem?_eq_some_iff.1 hb
  rw [hkept b (List.mem_of_getElem? hb), if_neg (by simp), rank_eq_self hkept (Nat.le_of_lt hi),
    Option.some.injEq] at hslot
  exact hslot.symm

/-- The unmarked values of a list, in order. -/
def unmarked (dropped : List Bool) (values : List α) : List α :=
  (values.zip dropped).filterMap fun (a, drop) => if drop then none else some a

/-- The first value is left out if its place is marked. -/
theorem unmarked_cons (b : Bool) (dropped : List Bool) (a : α) (values : List α) :
    unmarked (b :: dropped) (a :: values) =
      if b then unmarked dropped values else a :: unmarked dropped values := by
  unfold unmarked
  cases b <;> rfl

/-- An unmarked value stands at its new place. -/
theorem getElem?_unmarked {dropped : List Bool} {i : ℕ} (hi : dropped[i]? = some false)
    (values : List α) : (unmarked dropped values)[rank dropped i]? = values[i]? := by
  induction dropped generalizing i values with
  | nil => simp at hi
  | cons b rest ih =>
    cases values with
    | nil => simp [unmarked]
    | cons a values =>
      rw [unmarked_cons]
      cases i with
      | zero =>
        obtain rfl : b = false := by simpa using hi
        simp
      | succ i =>
        -- Whether or not the first value stays, the rank of a later place counts from behind it.
        rw [rank_cons_succ, List.getElem?_cons_succ, ← ih (by simpa using hi) values]
        cases b <;> simp

/-- As many values are left as there are places without a mark. -/
theorem length_unmarked {dropped : List Bool} {values : List α} (h : values.length = dropped.length) :
    (unmarked dropped values).length = dropped.count false := by
  induction dropped generalizing values with
  | nil => simp [unmarked]
  | cons b rest ih =>
    obtain ⟨a, values, rfl⟩ := List.exists_cons_of_length_eq_add_one h
    have hrest : (unmarked rest values).length = rest.count false := ih (by simpa using h)
    rw [unmarked_cons, List.count_cons]
    cases b <;> simp [hrest]

/-- Where nothing is marked, all values are kept. -/
theorem unmarked_eq_self {dropped : List Bool} (hkept : ∀ b ∈ dropped, b = false) {values : List α}
    (h : values.length = dropped.length) : unmarked dropped values = values := by
  induction dropped generalizing values with
  | nil => rw [List.eq_nil_of_length_eq_zero h, unmarked, List.zip_nil_left, List.filterMap_nil]
  | cons b rest ih =>
    obtain ⟨a, values, rfl⟩ := List.exists_cons_of_length_eq_add_one h
    obtain ⟨rfl, hrest⟩ := List.forall_mem_cons.1 hkept
    have hlen : values.length = rest.length := by simpa using h
    rw [unmarked_cons, if_neg (by simp), ih hrest hlen]

/-- The value of an unmarked place moves to the rank of the place. -/
theorem getElem?_keepUnmarked {dropped : List Bool} {i : ℕ} (hi : dropped[i]? = some false)
    (values : Array α) : (keepUnmarked dropped values)[rank dropped i]? = values[i]? := by
  have hget := getElem?_unmarked hi values.toList
  simpa [keepUnmarked, unmarked] using hget

/-- As many values are kept as there are places without a mark. -/
theorem size_keepUnmarked {dropped : List Bool} {values : Array α} (h : values.size = dropped.length) :
    (keepUnmarked dropped values).size = dropped.count false := by
  have hlen : (unmarked dropped values.toList).length = dropped.count false :=
    length_unmarked (by simpa using h)
  simpa [keepUnmarked, unmarked] using hlen

/-- Where nothing is marked, everything is kept. -/
theorem keepUnmarked_eq_self {dropped : List Bool} (hkept : ∀ b ∈ dropped, b = false) {values : Array α}
    (h : values.size = dropped.length) : keepUnmarked dropped values = values := by
  have hlist : unmarked dropped values.toList = values.toList := unmarked_eq_self hkept (by simpa using h)
  rw [keepUnmarked, show (values.toList.zip dropped).filterMap _ = _ from hlist, Array.toArray_toList]

/-- Keeping the unmarked values is the same as dropping those that are marked. -/
theorem filter_eq_unmarked (p : α → Bool) (values : List α) :
    values.filter (!p ·) = unmarked (values.map p) values := by
  induction values with
  | nil => rfl
  | cons a rest ih =>
    rw [List.map_cons, unmarked_cons]
    cases hp : p a <;> simp [hp, ih]

/-- Filtering an array moves a value that stays to the rank of its place. -/
theorem getElem?_filter {values : Array α} {p : α → Bool} {i : ℕ}
    (hi : (values.toList.map p)[i]? = some false) :
    (values.filter (!p ·))[rank (values.toList.map p) i]? = values[i]? := by
  have hget := getElem?_unmarked hi values.toList
  rwa [← filter_eq_unmarked, ← Array.toList_filter, Array.getElem?_toList, Array.getElem?_toList] at hget

/-- Filtering an array keeps as many values as there are places where the condition fails. -/
theorem size_filter (values : Array α) (p : α → Bool) :
    (values.filter (!p ·)).size = (values.toList.map p).count false := by
  have hlen : (unmarked (values.toList.map p) values.toList).length = (values.toList.map p).count false :=
    length_unmarked (by simp)
  rwa [← filter_eq_unmarked, ← Array.toList_filter, Array.length_toList] at hlen

/-- A place is unmarked if it has a value and the value is not marked. -/
theorem getElem?_map_eq_false {values : Array α} {p : α → Bool} {i : ℕ} :
    (values.toList.map p)[i]? = some false ↔ ∃ a, values[i]? = some a ∧ p a = false := by
  rw [List.getElem?_map, Array.getElem?_toList, Option.map_eq_some_iff]

/-- A value that is kept stands at its new place. -/
theorem getElem?_compacted {β : Type} {values : Array α} {p : α → Bool} {i : ℕ} {a : α}
    (ha : values[i]? = some a) (hp : p a = false) (g : α → β) :
    ((values.filter (!p ·)).map g)[rank (values.toList.map p) i]? = some (g a) := by
  calc ((values.filter (!p ·)).map g)[rank (values.toList.map p) i]?
      = ((values.filter (!p ·))[rank (values.toList.map p) i]?).map g := Array.getElem?_map
    _ = (values[i]?).map g := by rw [getElem?_filter (getElem?_map_eq_false.2 ⟨a, ha, hp⟩)]
    _ = some (g a) := by rw [ha, Option.map_some]

/-- Different values that are kept have different places. -/
theorem rank_inj_of_kept {values : Array α} {p : α → Bool} {i j : ℕ} {a b : α} (ha : values[i]? = some a)
    (hpa : p a = false) (hb : values[j]? = some b) (hpb : p b = false)
    (h : rank (values.toList.map p) i = rank (values.toList.map p) j) : i = j :=
  rank_inj (getElem?_map_eq_false.2 ⟨a, ha, hpa⟩) (getElem?_map_eq_false.2 ⟨b, hb, hpb⟩) h

/-- Every value of the new storage was kept from the old one. -/
theorem exists_of_getElem?_compacted {β : Type} {values : Array α} {p : α → Bool} {g : α → β} {k : ℕ}
    {b : β} (hb : ((values.filter (!p ·)).map g)[k]? = some b) :
    ∃ i a, values[i]? = some a ∧ p a = false ∧ rank (values.toList.map p) i = k ∧ g a = b := by
  obtain ⟨hk, -⟩ := Array.getElem?_eq_some_iff.1 hb
  rw [Array.size_map, size_filter] at hk
  obtain ⟨i, hi, rfl⟩ := exists_rank_eq hk
  obtain ⟨a, ha, hp⟩ := getElem?_map_eq_false.1 hi
  rw [getElem?_compacted ha hp] at hb
  exact ⟨i, a, ha, hp, rfl, Option.some.inj hb⟩

end RegionMesh
