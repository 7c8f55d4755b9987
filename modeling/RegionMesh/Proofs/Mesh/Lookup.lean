import Mathlib.Data.List.Basic
import Mathlib.Data.List.Nodup
import RegionMesh.Mesh.Summary

/-!
# Lookups by id

A lookup finds the live elements by their ids (`Finds`) if it holds each of them under its id and nothing else.
Then the ids of live elements are different from each other (`Finds.inj`). The changes of a lookup follow the
changes of the elements: an element is added under an id that is free (`Finds.insert`), elements are taken out
under their ids (`Finds.eraseAll`), and a lookup is built anew from the list of all ids
(`Finds.lookupBySlot`). Two lookups that hold the same elements find the same (`Finds.getElem?_eq`), and when elements
are renamed, their new names are found (`Finds.renamed`).

Two searches for a second occurrence stand here too, of a corner in a facet (`firstRepeat?_eq_none`) and of an id
among the facets (`Mesh.checkFacetIds_eq_ok`).
-/

namespace RegionMesh

variable {α : Type}

/-! ## Lookups -/

/-- An id is free if nothing is found under it. -/
theorem contains_eq_false_iff {t : Std.TreeMap ℕ α} {id : ℕ} : t.contains id = false ↔ t[id]? = none := by
  rw [Std.TreeMap.contains_eq_isSome_getElem?, Option.isSome_eq_false_iff, Option.isNone_iff_eq_none]

/-- A lookup has as many entries as a list that names each of them once. -/
theorem lookup_size_eq_length {t : Std.TreeMap ℕ α} {entries : List (ℕ × α)} (hn : entries.Nodup)
    (h : ∀ id a, t[id]? = some a ↔ (id, a) ∈ entries) : t.size = entries.length := by
  have hkeys : (t.toList.map Prod.fst).Nodup := by
    rw [Std.TreeMap.map_fst_toList_eq_keys]
    exact Std.TreeMap.nodup_keys
  have hperm : t.toList.Perm entries := by
    refine (List.perm_ext_iff_of_nodup (List.Nodup.of_map _ hkeys) hn).2 fun ⟨id, a⟩ => ?_
    rw [Std.TreeMap.mem_toList_iff_getElem?_eq_some]
    exact h id a
  rw [← Std.TreeMap.length_toList]
  exact hperm.length_eq

/-- A lookup holds the live elements under their ids, and nothing else. -/
def Finds (t : Std.TreeMap ℕ α) (live : α → Prop) (idOf : α → ℕ) : Prop :=
  ∀ id a, t[id]? = some a ↔ live a ∧ idOf a = id

namespace Finds

variable {t : Std.TreeMap ℕ α} {live : α → Prop} {idOf : α → ℕ}

/-- A live element is found under its id. -/
theorem getElem?_idOf (h : Finds t live idOf) {a : α} (ha : live a) : t[idOf a]? = some a :=
  (h _ a).2 ⟨ha, rfl⟩

/-- Different live elements have different ids. -/
theorem inj (h : Finds t live idOf) {a b : α} (ha : live a) (hb : live b) (he : idOf a = idOf b) :
    a = b := by
  have hfound : t[idOf b]? = some a := (h _ a).2 ⟨ha, he⟩
  rw [h.getElem?_idOf hb] at hfound
  exact (Option.some.inj hfound).symm

/-- Where nothing is found, no live element has the id. -/
theorem getElem?_eq_none (h : Finds t live idOf) {id : ℕ} :
    t[id]? = none ↔ ∀ a, live a → idOf a ≠ id := by
  rw [Option.eq_none_iff_forall_ne_some]
  constructor
  · exact fun hnone a ha he => hnone a ((h id a).2 ⟨ha, he⟩)
  · intro hall a ha
    obtain ⟨hlive, he⟩ := (h id a).1 ha
    exact hall a hlive he

/-- A lookup follows what is known of the elements. -/
theorem congr (h : Finds t live idOf) {live' : α → Prop} {idOf' : α → ℕ}
    (hlive : ∀ a, live' a ↔ live a) (hid : ∀ a, live a → idOf' a = idOf a) : Finds t live' idOf' := by
  intro id a
  rw [h id a, hlive a]
  refine and_congr_right fun ha => ?_
  rw [hid a ha]

/-- Elements that are renamed are found by their ids under their new names. -/
theorem renamed {live' : α → Prop} {idOf' : α → ℕ} {rename : α → α} (h : Finds t live' idOf')
    (hlive : ∀ a, live a → live' (rename a)) (hex : ∀ b, live' b → ∃ a, live a ∧ rename a = b)
    (hid : ∀ a, live a → idOf' (rename a) = idOf a) (id : ℕ) (b : α) :
    t[id]? = some b ↔ ∃ a, live a ∧ idOf a = id ∧ rename a = b := by
  rw [h id b]
  constructor
  · rintro ⟨hb, rfl⟩
    obtain ⟨a, ha, rfl⟩ := hex b hb
    exact ⟨a, ha, (hid a ha).symm, rfl⟩
  · rintro ⟨a, ha, rfl, rfl⟩
    exact ⟨hlive a ha, hid a ha⟩

/-- Two lookups that hold the same elements under the same ids find the same. -/
theorem getElem?_eq {t' : Std.TreeMap ℕ α} (h : Finds t live idOf) (h' : Finds t' live idOf) (id : ℕ) :
    t[id]? = t'[id]? :=
  Option.ext fun a => (h id a).trans (h' id a).symm

/-- A new element is found under an id that was free. -/
theorem insert (h : Finds t live idOf) {id : ℕ} {a : α} (hfree : t.contains id = false)
    {live' : α → Prop} {idOf' : α → ℕ} (hlive : ∀ b, live' b ↔ b = a ∨ live b) (ha : idOf' a = id)
    (hid : ∀ b, live b → idOf' b = idOf b) : Finds (t.insert id a) live' idOf' := by
  have hunused := h.getElem?_eq_none.1 (contains_eq_false_iff.1 hfree)
  intro i b
  rw [Std.TreeMap.getElem?_insert, hlive]
  -- Under the new id there was nothing, so the new element is the only one there.
  split
  · rename_i hi
    obtain rfl : id = i := Nat.compare_eq_eq.1 hi
    constructor
    · intro hb
      obtain rfl : a = b := Option.some.inj hb
      exact ⟨Or.inl rfl, ha⟩
    · rintro ⟨rfl | hb, he⟩
      · rfl
      · rw [hid b hb] at he
        exact absurd he (hunused b hb)
  · rename_i hi
    have hne : id ≠ i := fun he => hi (Nat.compare_eq_eq.2 he)
    rw [h i b]
    constructor
    · rintro ⟨hb, he⟩
      exact ⟨Or.inr hb, (hid b hb).trans he⟩
    · rintro ⟨rfl | hb, he⟩
      · exact absurd (ha.symm.trans he) hne
      · exact ⟨hb, (hid b hb).symm.trans he⟩

/-- Erasing the ids of some elements leaves the other ids as they are. -/
theorem getElem?_eraseAll (idOf : α → ℕ) (gone : List α) (t : Std.TreeMap ℕ α) (id : ℕ) :
    (gone.foldl (fun t a => t.erase (idOf a)) t)[id]? =
      if ∃ a ∈ gone, idOf a = id then none else t[id]? := by
  induction gone generalizing t with
  | nil => simp
  | cons a rest ih =>
    rw [List.foldl_cons, ih, Std.TreeMap.getElem?_erase]
    simp only [List.exists_mem_cons_iff, Nat.compare_eq_eq]
    by_cases ha : idOf a = id <;> by_cases hrest : ∃ b ∈ rest, idOf b = id <;> simp [ha, hrest]

/-- Elements are taken out under their ids. -/
theorem eraseAll (h : Finds t live idOf) {gone : List α} (hgone : ∀ a ∈ gone, live a)
    {live' : α → Prop} (hlive : ∀ a, live' a ↔ live a ∧ a ∉ gone) :
    Finds (gone.foldl (fun t a => t.erase (idOf a)) t) live' idOf := by
  intro id a
  rw [getElem?_eraseAll, hlive]
  constructor
  · intro ha
    split at ha
    · cases ha
    · rename_i hnot
      obtain ⟨hlive, he⟩ := (h id a).1 ha
      exact ⟨⟨hlive, fun hmem => hnot ⟨a, hmem, he⟩⟩, he⟩
  · rintro ⟨⟨ha, hmem⟩, he⟩
    rw [if_neg]
    · exact (h id a).2 ⟨ha, he⟩
    -- An element that stays shares its id with none of those that go.
    · rintro ⟨b, hb, hbe⟩
      obtain rfl : b = a := h.inj (hgone b hb) ha (hbe.trans he.symm)
      exact hmem hb

/-- An element is taken out under its id. -/
theorem erase (h : Finds t live idOf) {a : α} (ha : live a) {live' : α → Prop}
    (hlive : ∀ b, live' b ↔ live b ∧ b ≠ a) : Finds (t.erase (idOf a)) live' idOf := by
  have hgone : ∀ b ∈ [a], live b := by simpa using ha
  exact h.eraseAll hgone fun b => by rw [hlive b, List.mem_singleton]

/-- A lookup that is built from a list finds the entries of the list, if no id stands in it twice. -/
theorem getElem?_ofList {entries : List (ℕ × α)} (hn : (entries.map Prod.fst).Nodup) {id : ℕ} {a : α} :
    (Std.TreeMap.ofList entries)[id]? = some a ↔ (id, a) ∈ entries := by
  have hdistinct : entries.Pairwise fun x y => ¬ compare x.1 y.1 = .eq := by
    have hpairwise : entries.Pairwise fun x y => x.1 ≠ y.1 := by
      rw [← List.pairwise_map]
      exact hn
    exact hpairwise.imp fun hne he => hne (Nat.compare_eq_eq.1 he)
  have hfound : ∀ i b, (i, b) ∈ entries → (Std.TreeMap.ofList entries)[i]? = some b :=
    fun i b hb => Std.TreeMap.getElem?_ofList_of_mem (Nat.compare_eq_eq.2 rfl) hdistinct hb
  refine ⟨fun ha => ?_, hfound id a⟩
  -- Whatever is found was listed, under the only entry with this id.
  by_cases hid : id ∈ entries.map Prod.fst
  · obtain ⟨⟨i, b⟩, hb, rfl⟩ := List.mem_map.1 hid
    rw [hfound i b hb] at ha
    exact Option.some.inj ha ▸ hb
  · rw [Std.TreeMap.getElem?_ofList_of_contains_eq_false (by simpa using hid)] at ha
    cases ha

/-- Each element of a list of ids is found, if no id stands in the list twice. -/
theorem getElem?_lookupBySlot {handle : ℕ → α} {ids : Array ℕ} (hn : ids.toList.Nodup) {id : ℕ} {a : α} :
    (RegionMesh.lookupBySlot handle ids)[id]? = some a ↔
      ∃ slot, ids[slot]? = some id ∧ handle slot = a := by
  let entries := ids.toList.zipIdx.map fun x => (x.1, handle x.2)
  have hmem : ∀ i b, (i, b) ∈ entries ↔ ∃ slot, ids[slot]? = some i ∧ handle slot = b := by
    intro i b
    simp [entries, List.mem_zipIdx_iff_getElem?]
  have hkeys : entries.map Prod.fst = ids.toList := by
    rw [List.map_map]
    exact List.zipIdx_map_fst 0 ids.toList
  -- No key comes twice, so it does not matter which entry is put in last.
  change (Std.TreeMap.ofList entries)[id]? = some a ↔ _
  rw [getElem?_ofList (hkeys ▸ hn), hmem]

/-- A lookup that is built from the list of all ids finds the elements that have a place in the list. -/
theorem lookupBySlot {handle : ℕ → α} (hhandle : Function.Bijective handle) {ids : Array ℕ}
    (hlive : ∀ slot, live (handle slot) ↔ slot < ids.size)
    (hid : ∀ slot, slot < ids.size → ids[slot]? = some (idOf (handle slot)))
    (hinj : ∀ a b, live a → live b → idOf a = idOf b → a = b) :
    Finds (RegionMesh.lookupBySlot handle ids) live idOf := by
  -- Two places with one id would be two live elements with one id.
  have hn : ids.toList.Nodup := by
    rw [List.Nodup, List.pairwise_iff_getElem]
    intro i j hi hj hij he
    rw [Array.length_toList] at hi hj
    have hi' := hid i hi
    have hj' := hid j hj
    rw [← Array.getElem?_toList, List.getElem?_eq_getElem hi, Option.some.injEq] at hi'
    rw [← Array.getElem?_toList, List.getElem?_eq_getElem hj, Option.some.injEq] at hj'
    rw [hi', hj'] at he
    have hsame := hinj _ _ ((hlive i).2 hi) ((hlive j).2 hj) he
    exact absurd (hhandle.injective hsame) (Nat.ne_of_lt hij)
  intro id a
  rw [getElem?_lookupBySlot hn]
  constructor
  · rintro ⟨slot, hslot, rfl⟩
    have hlt : slot < ids.size := (Array.getElem?_eq_some_iff.1 hslot).1
    rw [hid slot hlt] at hslot
    exact ⟨(hlive slot).2 hlt, Option.some.inj hslot⟩
  · rintro ⟨ha, rfl⟩
    obtain ⟨slot, rfl⟩ := hhandle.surjective a
    exact ⟨slot, hid slot ((hlive slot).1 ha), rfl⟩

end Finds

/-! ## Second occurrences -/

/-- The search finds nothing if no element was seen before and none stands in the rest twice. -/
theorem firstRepeat?_go_eq_none [BEq α] [LawfulBEq α] {seen l : List α} :
    firstRepeat?.go seen l = none ↔ l.Nodup ∧ ∀ a ∈ l, a ∉ seen := by
  induction l generalizing seen with
  | nil => simp [firstRepeat?.go]
  | cons a rest ih =>
    unfold firstRepeat?.go
    by_cases ha : a ∈ seen
    · simp [ha]
    · have hcontains : seen.contains a = false := by simpa using ha
      rw [hcontains, if_neg (by simp), ih, List.nodup_cons]
      -- What was seen grows by the first element, so that a repetition in the list is one of what was seen.
      constructor
      · rintro ⟨hn, hrest⟩
        refine ⟨⟨fun hmem => hrest a hmem List.mem_cons_self, hn⟩, ?_⟩
        rw [List.forall_mem_cons]
        exact ⟨ha, fun b hb hseen => hrest b hb (List.mem_cons_of_mem a hseen)⟩
      · rintro ⟨⟨hmem, hn⟩, hall⟩
        refine ⟨hn, fun b hb hseen => ?_⟩
        rcases List.mem_cons.1 hseen with rfl | hseen
        · exact hmem hb
        · exact hall b (List.mem_cons_of_mem a hb) hseen

/-- No element of a list stands in it before if no element stands in it twice. -/
theorem firstRepeat?_eq_none [BEq α] [LawfulBEq α] {l : List α} :
    firstRepeat? l = none ↔ l.Nodup := by
  unfold firstRepeat?
  simp [firstRepeat?_go_eq_none]

namespace Mesh

/-- No id is found to repeat if the ids differ from each other and from those seen before. -/
theorem checkFacetIds_go_eq_ok {seen : Std.TreeSet ℕ} {ids : List ℕ} :
    checkFacetIds.go seen ids = .ok () ↔ ids.Nodup ∧ ∀ id ∈ ids, id ∉ seen := by
  induction ids generalizing seen with
  | nil => simp [checkFacetIds.go]
  | cons id rest ih =>
    unfold checkFacetIds.go
    by_cases hid : id ∈ seen
    · simp [hid]
    · have hcontains : seen.contains id = false := Bool.eq_false_iff.2 hid
      rw [hcontains, if_neg (by simp), ih, List.nodup_cons]
      simp only [Std.TreeSet.mem_insert, Nat.compare_eq_eq, not_or, List.forall_mem_cons]
      -- What was seen grows by the first id, as in the search for a repeated element.
      constructor
      · rintro ⟨hn, hrest⟩
        exact ⟨⟨fun hmem => (hrest id hmem).1 rfl, hn⟩, hid, fun i hi => (hrest i hi).2⟩
      · rintro ⟨⟨hmem, hn⟩, -, hall⟩
        refine ⟨hn, fun i hi => ⟨?_, hall i hi⟩⟩
        rintro rfl
        exact hmem hi

/-- The check of the facet ids finds out whether two live facets have the same id. -/
theorem checkFacetIds_eq_ok {m : Mesh} :
    m.checkFacetIds = .ok () ↔ (m.links.liveFacets.map m.facetId).Nodup := by
  unfold checkFacetIds
  simp [checkFacetIds_go_eq_ok]

end Mesh

end RegionMesh
