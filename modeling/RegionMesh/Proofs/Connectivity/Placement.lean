import RegionMesh.Proofs.Answers
import RegionMesh.Proofs.Connectivity.Corner
import RegionMesh.Proofs.CyclicList

/-!
# Where a facet fits

What is known of a facet that is not refused (`Placement`): for every side the existing halfedge, if there
is one, is on the border, and for every corner the two sides fit together (`Placement.corner`). The links
that have been collected are those of the corners (`Placement.mem_moved`).

The sides that the facet brings are stored one after another (`pushSides_spec`).
-/

namespace RegionMesh

/-! ## Sides -/

/-- The halfedge that a side had before the facet, if it had one. -/
def RingSide.existing (s : RingSide) : Option Halfedge := if s.fresh then none else some s.inner

/-- A side that is not brought by the facet had its inner halfedge before. -/
theorem RingSide.existing_eq_some {s : RingSide} {h : Halfedge} :
    s.existing = some h ↔ s.fresh = false ∧ s.inner = h := by
  cases hs : s.fresh <;> simp [existing, hs]

/-- A side had no halfedge before if the facet brings it. -/
theorem RingSide.existing_eq_none {s : RingSide} : s.existing = none ↔ s.fresh = true := by
  cases hs : s.fresh <;> simp [existing, hs]

namespace Connectivity

/-- Every side has the halfedge that it was made for. -/
theorem map_existing_ringSides (existing : List (Option Halfedge)) (slot : ℕ) :
    (ringSides existing slot).map RingSide.existing = existing := by
  induction existing generalizing slot with
  | nil => rfl
  | cons o rest ih => cases o <;> simp [ringSides, RingSide.existing, ih]

/-- There is a side for every place between two vertices. -/
@[simp]
theorem length_ringSides (existing : List (Option Halfedge)) (slot : ℕ) :
    (ringSides existing slot).length = existing.length := by
  have hlen := congrArg List.length (map_existing_ringSides existing slot)
  rwa [List.length_map] at hlen

/-- The sides that a facet brings are first sides of edges behind a place. -/
theorem slot_le_of_fresh {existing : List (Option Halfedge)} {slot : ℕ} {s : RingSide}
    (hs : s ∈ ringSides existing slot) (hf : s.fresh = true) :
    slot ≤ s.inner.edge.slot ∧ s.inner.back = false := by
  induction existing generalizing slot with
  | nil => simp [ringSides] at hs
  | cons o rest ih =>
    -- The places are counted up by the sides that the facet brings.
    cases o with
    | none =>
      rcases List.mem_cons.1 hs with rfl | hs
      · exact ⟨Nat.le_refl _, rfl⟩
      · obtain ⟨hle, hback⟩ := ih hs
        exact ⟨Nat.le_of_succ_le hle, hback⟩
    | some h =>
      rcases List.mem_cons.1 hs with rfl | hs
      · simp at hf
      · exact ih hs

/-! ## New edges -/

/-- Store the edges that the sides of a facet bring. -/
def pushSides (ends : List ((Vertex × Vertex) × RingSide)) (c : Connectivity) : Connectivity :=
  ends.foldl (fun c x => if x.2.fresh then c.pushEdge x.1.1 x.1.2 else c) c

/-- New edges have been stored for the sides of a facet. -/
structure Pushed (c : Connectivity) (ends : List ((Vertex × Vertex) × RingSide)) (c' : Connectivity) :
    Prop where
  /-- The vertices are the same. -/
  vertices : c'.vertices = c.vertices
  /-- The facets are the same. -/
  facets : c'.facets = c.facets
  /-- No edge is lost. -/
  size_le : c.edges.size ≤ c'.edges.size
  /-- The records that were stored are kept. -/
  record : ∀ {g}, g.edge.slot < c.edges.size → c'.record g = c.record g
  /-- The new edges are live. -/
  live : ∀ e, c'.isLiveEdge e = true ↔
    c.isLiveEdge e = true ∨ ∃ x ∈ ends, x.2.fresh = true ∧ x.2.inner.edge = e
  /-- The new edges are stored, and join the corners that they are brought for. -/
  ends : ∀ x ∈ ends, x.2.fresh = true → x.2.inner.edge.slot < c'.edges.size ∧
    c'.head x.2.inner = x.1.2 ∧ c'.tail x.2.inner = x.1.1
  /-- The new edges have no facet. -/
  facetOf : ∀ g, c'.facetOf g = c.facetOf g

/-- For an existing side nothing is stored. -/
theorem Pushed.existing {c c' : Connectivity} {ends : List ((Vertex × Vertex) × RingSide)}
    (h : Pushed c ends c') (x : (Vertex × Vertex) × RingSide) (hx : x.2.fresh = false) :
    Pushed c (x :: ends) c' where
  vertices := h.vertices
  facets := h.facets
  size_le := h.size_le
  record := h.record
  live e := by simpa [hx] using h.live e
  ends := by
    intro y hy hf
    rcases List.mem_cons.1 hy with rfl | hy
    · rw [hx] at hf
      cases hf
    · exact h.ends y hy hf
  facetOf := h.facetOf

/-- For a new side its edge is stored first, and the others behind it. -/
theorem Pushed.fresh {c c' : Connectivity} {ends : List ((Vertex × Vertex) × RingSide)} {u v : Vertex}
    (h : Pushed (c.pushEdge u v) ends c') :
    Pushed c (((u, v), ⟨Edge.side ⟨c.edges.size⟩ false, true⟩) :: ends) c' := by
  have hsize : (c.pushEdge u v).edges.size = c.edges.size + 1 := c.size_edges_pushEdge u v
  have hle := h.size_le
  rw [hsize] at hle
  -- The edges stored behind the first one leave its record as it is.
  have hfirst : ∀ back : Bool, c'.head ⟨⟨c.edges.size⟩, back⟩ = if back then u else v := by
    intro back
    unfold head
    rw [h.record (by rw [hsize]; exact Nat.lt_succ_self _)]
    exact c.head_pushEdge u v back
  exact {
    vertices := h.vertices
    facets := h.facets
    size_le := Nat.le_trans (Nat.le_succ _) hle
    record := by
      intro g hg
      exact (h.record (by omega)).trans (record_pushEdge c (Nat.ne_of_lt hg) u v)
    live := by
      rintro ⟨i⟩
      refine (h.live _).trans ?_
      simp only [isLiveEdge_pushEdge, Bool.or_eq_true, decide_eq_true_eq, List.mem_cons, exists_eq_or_imp,
        Edge.side, true_and, Edge.mk.injEq]
      rw [eq_comm, or_comm (a := c.edges.size = i), or_assoc]
    ends := by
      intro x hx hf
      rcases List.mem_cons.1 hx with rfl | hx
      · exact ⟨hle, hfirst false, hfirst true⟩
      · exact h.ends x hx hf
    facetOf := fun g => (h.facetOf g).trans (c.facetOf_pushEdge u v g)
  }

/-- The edges that a facet brings are stored for its sides. -/
theorem pushSides_spec {existing : List (Option Halfedge)} {pairs : List (Vertex × Vertex)}
    {c : Connectivity} (hlen : pairs.length = existing.length) :
    Pushed c (pairs.zip (ringSides existing c.edges.size))
      (pushSides (pairs.zip (ringSides existing c.edges.size)) c) := by
  induction existing generalizing pairs c with
  | nil =>
    have hnil : pairs.zip (ringSides [] c.edges.size) = [] := by simp [ringSides]
    have hsame : pushSides [] c = c := rfl
    rw [hnil, hsame]
    exact ⟨rfl, rfl, Nat.le_refl _, fun _ => rfl, by simp, by simp, fun _ => rfl⟩
  | cons o rest ih =>
    obtain ⟨⟨u, v⟩, pairs, rfl⟩ : ∃ p ps, pairs = p :: ps :=
      List.exists_cons_of_length_eq_add_one hlen
    have hrest : pairs.length = rest.length := by simpa using hlen
    cases o with
    | some h => exact (ih hrest).existing _ rfl
    | none =>
      -- The edge of the first side takes the next place, and the other sides count from the one behind it.
      have hall := ih (c := c.pushEdge u v) hrest
      rw [size_edges_pushEdge] at hall
      exact hall.fresh

/-! ## Facets that fit -/

variable {c : Connectivity}

/-- The search for the side of a facet succeeds at vertices that are not enclosed, and finds the halfedge
there if it is on the border. -/
theorem borderSide_eq_ok {u v : Vertex} {o : Option Halfedge} :
    c.borderSide (u, v) = .ok o ↔
      c.isBorderVertex u = true ∧ c.find? u v = o ∧ ∀ h, o = some h → c.facetOf h = none := by
  unfold borderSide
  by_cases hb : c.isBorderVertex u = true
  · rw [if_pos hb]
    -- A halfedge that is found must be on the border, and none need be found.
    cases hf : c.find? u v with
    | none =>
      simp only [hb, true_and]
      constructor
      · intro he
        obtain rfl : none = o := Except.ok.inj he
        exact ⟨rfl, by simp⟩
      · rintro ⟨rfl, -⟩
        rfl
    | some h =>
      simp only [hb, true_and]
      by_cases hh : c.isBorder h = true
      · rw [if_pos hh]
        constructor
        · intro he
          obtain rfl : some h = o := Except.ok.inj he
          refine ⟨rfl, fun g hg => ?_⟩
          rw [← Option.some.inj hg]
          exact (isBorder_iff h).1 hh
        · rintro ⟨rfl, -⟩
          rfl
      · rw [if_neg hh]
        constructor
        · intro he
          cases he
        · rintro ⟨rfl, hall⟩
          exact absurd ((isBorder_iff h).2 (hall h rfl)) hh
  · rw [if_neg hb]
    simp [hb]

/-- Existing sides can be brought together if they follow each other already, or if there is another gap
to which what lies between them can be moved. -/
theorem relink_eq_ok {p n : Halfedge} {links : List (Halfedge × Halfedge)} :
    (if c.next p = n then .ok [] else c.relink p n) = Except.ok links ↔
      c.movedLinks p n = links ∧
        (c.next p ≠ n → ∃ g, c.gapAfter n.opposite = some g ∧ g ≠ p) := by
  unfold movedLinks relink
  by_cases hne : c.next p = n
  · simp [hne]
  · cases hg : c.gapAfter n.opposite with
    | none => simp [hne]
    | some g => by_cases hgp : g = p <;> simp [hne, hgp]

/-- The links that are moved are those of the corners where two existing sides meet. -/
theorem relinks_spec {existing : List (Option Halfedge)} {moved : List (Halfedge × Halfedge)}
    (h : c.relinks existing = .ok moved) :
    (∀ x, x ∈ moved ↔ ∃ p n, (some p, some n) ∈ cyclicPairs existing ∧ x ∈ c.movedLinks p n) ∧
      ∀ p n, (some p, some n) ∈ cyclicPairs existing → c.next p ≠ n →
        ∃ g, c.gapAfter n.opposite = some g ∧ g ≠ p := by
  unfold relinks at h
  rw [bind_eq_ok] at h
  obtain ⟨links, hlinks, hmoved⟩ := h
  obtain rfl : links.flatten = moved := Except.ok.inj hmoved
  obtain ⟨hall, hback⟩ := mem_of_mapM hlinks
  -- Every pair of existing sides has its links, and all links come from such a pair.
  have hpair : ∀ p n, (some p, some n) ∈ cyclicPairs existing →
      c.movedLinks p n ∈ links ∧
        (c.next p ≠ n → ∃ g, c.gapAfter n.opposite = some g ∧ g ≠ p) := by
    intro p n hpn
    obtain ⟨l, hl, hok⟩ := hall _ hpn
    obtain ⟨rfl, hgap⟩ := relink_eq_ok.1 hok
    exact ⟨hl, hgap⟩
  refine ⟨fun x => ?_, fun p n hpn => (hpair p n hpn).2⟩
  constructor
  · intro hx
    obtain ⟨l, hl, hxl⟩ := List.mem_flatten.1 hx
    obtain ⟨⟨o, o'⟩, hmem, hok⟩ := hback l hl
    cases o with
    | none =>
      obtain rfl : [] = l := Except.ok.inj hok
      simp at hxl
    | some p =>
      cases o' with
      | none =>
        obtain rfl : [] = l := Except.ok.inj hok
        simp at hxl
      | some n =>
        rw [← (relink_eq_ok.1 hok).1] at hxl
        exact ⟨p, n, hmem, hxl⟩
  · rintro ⟨p, n, hpn, hx⟩
    exact List.mem_flatten.2 ⟨_, (hpair p n hpn).1, hx⟩

/-- The links that are moved are found if there is another gap at every corner where one is needed. -/
theorem exists_relinks {existing : List (Option Halfedge)}
    (h : ∀ p n, (some p, some n) ∈ cyclicPairs existing → c.next p ≠ n →
      ∃ g, c.gapAfter n.opposite = some g ∧ g ≠ p) : ∃ moved, c.relinks existing = .ok moved := by
  unfold relinks
  simp only [bind_eq_ok]
  refine Exists.elim (exists_mapM ?_) fun links hlinks => ⟨links.flatten, links, hlinks, rfl⟩
  -- Where a side is missing nothing has to be moved.
  rintro ⟨o, o'⟩ hx
  cases o with
  | none => exact ⟨[], rfl⟩
  | some p =>
    cases o' with
    | none => exact ⟨[], rfl⟩
    | some n => exact ⟨_, relink_eq_ok.2 ⟨rfl, h p n hx⟩⟩

/-- What the search for the sides has found out about each of them. -/
theorem side_of_mapM {vs : List Vertex} {existing : List (Option Halfedge)} {slot : ℕ}
    (h : (cyclicPairs vs).mapM c.borderSide = .ok existing) {u v : Vertex} {s : RingSide}
    (hs : ((u, v), s) ∈ (cyclicPairs vs).zip (ringSides existing slot)) :
    c.isBorderVertex u = true ∧ c.find? u v = s.existing ∧
      ∀ g, s.existing = some g → c.facetOf g = none := by
  have hmem : ((u, v), s.existing) ∈ (cyclicPairs vs).zip existing := by
    have hzip := List.mem_map_of_mem (f := Prod.map id RingSide.existing) hs
    rwa [← List.zip_map_right, map_existing_ringSides] at hzip
  exact borderSide_eq_ok.1 ((zip_of_mapM h).2 _ hmem)

/-- Where two existing sides follow each other, the first one ends at the corner at which the second one starts, and
both are on the border. -/
theorem corner_of_existing (hc : c.Linked) {vs : List Vertex} (hlive : ∀ v ∈ vs, c.isLiveVertex v = true)
    {existing : List (Option Halfedge)} (h : (cyclicPairs vs).mapM c.borderSide = .ok existing) {p n : Halfedge}
    (hpn : (some p, some n) ∈ cyclicPairs existing) :
    (c.tail p, c.head p) ∈ cyclicPairs vs ∧ (c.head p, c.head n) ∈ cyclicPairs vs ∧ c.tail n = c.head p ∧
      c.IsLive p ∧ c.IsLive n ∧ c.facetOf p = none ∧ c.facetOf n = none := by
  obtain ⟨hlen, hall⟩ := zip_of_mapM h
  rw [length_cyclicPairs] at hlen
  obtain ⟨v, hcorner⟩ := exists_corner_between hlen hpn
  obtain ⟨⟨u, hu⟩, w, hw⟩ := sides_of_corner hlen hcorner
  -- Both sides were found between consecutive vertices, so their ends are these.
  have hu' := (List.of_mem_zip hu).1
  have hw' := (List.of_mem_zip hw).1
  obtain ⟨-, hfindp, hpb⟩ := borderSide_eq_ok.1 (hall _ hu)
  obtain ⟨-, hfindn, hnb⟩ := borderSide_eq_ok.1 (hall _ hw)
  obtain ⟨hplive, rfl, rfl⟩ := hc.find?_eq_some (hlive u (mem_of_mem_cyclicPairs hu').1) hfindp
  obtain ⟨hnlive, htail, rfl⟩ := hc.find?_eq_some (hlive _ (mem_of_mem_cyclicPairs hw').1) hfindn
  exact ⟨hu', hw', htail, hplive, hnlive, hpb p rfl, hnb n rfl⟩

/-- A facet that is not refused: its corners are different live vertices, and its sides and the links to be
moved have been found. -/
structure Placement (c : Connectivity) (vs : List Vertex) (existing : List (Option Halfedge))
    (moved : List (Halfedge × Halfedge)) : Prop where
  /-- The corners are live. -/
  live : ∀ v ∈ vs, c.isLiveVertex v = true
  /-- No corner occurs twice. -/
  nodup : vs.Nodup
  /-- There are at least three corners. -/
  three : 3 ≤ vs.length
  /-- The existing halfedge of every side was found. -/
  sides : (cyclicPairs vs).mapM c.borderSide = .ok existing
  /-- Existing sides can be brought together. -/
  moved : c.relinks existing = .ok moved

namespace Placement

variable {vs : List Vertex} {existing : List (Option Halfedge)} {moved : List (Halfedge × Halfedge)}

/-- Between all consecutive corners a halfedge was looked for. -/
theorem length_existing (h : c.Placement vs existing moved) : existing.length = vs.length := by
  rw [(zip_of_mapM h.sides).1, length_cyclicPairs]

/-- The facet has as many sides as corners. -/
theorem length_sides (h : c.Placement vs existing moved) :
    (ringSides existing c.edges.size).length = vs.length := by
  rw [length_ringSides, h.length_existing]

/-- What was found out about each side. -/
theorem side (h : c.Placement vs existing moved) {u v : Vertex} {s : RingSide}
    (hs : ((u, v), s) ∈ (cyclicPairs vs).zip (ringSides existing c.edges.size)) :
    c.isBorderVertex u = true ∧ c.find? u v = s.existing ∧
      ∀ g, s.existing = some g → c.facetOf g = none :=
  side_of_mapM h.sides hs

/-- An existing side joins its corners and is on the border. -/
theorem old (hc : c.Linked) (h : c.Placement vs existing moved) {u v : Vertex} {s : RingSide}
    (hs : ((u, v), s) ∈ (cyclicPairs vs).zip (ringSides existing c.edges.size))
    (hf : s.fresh = false) : c.IsLive s.inner ∧ c.tail s.inner = u ∧ c.head s.inner = v ∧
      c.facetOf s.inner = none := by
  obtain ⟨-, hfind, hborder⟩ := h.side hs
  have hsome : s.existing = some s.inner := RingSide.existing_eq_some.2 ⟨hf, rfl⟩
  have hu : u ∈ vs := (mem_of_mem_cyclicPairs (List.of_mem_zip hs).1).1
  obtain ⟨hlive, htail, hhead⟩ := hc.find?_eq_some (h.live u hu) (hfind.trans hsome)
  exact ⟨hlive, htail, hhead, hborder _ hsome⟩

/-- Between the corners of a new side there is no edge yet. -/
theorem new (hc : c.Linked) (h : c.Placement vs existing moved) {u v : Vertex} {s : RingSide}
    (hs : ((u, v), s) ∈ (cyclicPairs vs).zip (ringSides existing c.edges.size))
    (hf : s.fresh = true) {g : Halfedge} (hg : c.IsLive g) (ht : c.tail g = u) : c.head g ≠ v := by
  obtain ⟨-, hfind, -⟩ := h.side hs
  have hu : u ∈ vs := (mem_of_mem_cyclicPairs (List.of_mem_zip hs).1).1
  exact hc.find?_eq_none (h.live u hu) (hfind.trans (RingSide.existing_eq_none.2 hf)) hg ht

/-- The storage after the edges of the facet were brought. -/
theorem pushed (h : c.Placement vs existing moved) :
    Pushed c ((cyclicPairs vs).zip (ringSides existing c.edges.size))
      (pushSides ((cyclicPairs vs).zip (ringSides existing c.edges.size)) c) :=
  pushSides_spec (by rw [length_cyclicPairs, h.length_existing])

/-- The sides that meet at a corner belong to different edges. -/
theorem apart (hc : c.Linked) (h : c.Placement vs existing moved) {v : Vertex} {p n : RingSide}
    (hk : (v, p, n) ∈ (successors vs).zip (cyclicPairs (ringSides existing c.edges.size))) :
    p.inner.edge ≠ n.inner.edge := by
  obtain ⟨⟨u, hp⟩, w, hn⟩ := sides_of_corner h.length_sides hk
  have hpmem := (List.of_mem_zip hp).2
  have hnmem := (List.of_mem_zip hn).2
  have huv : u ≠ v := side_ends_ne h.nodup (by have := h.three; omega) (List.of_mem_zip hp).1
  have hvw : v ≠ w := side_ends_ne h.nodup (by have := h.three; omega) (List.of_mem_zip hn).1
  intro he
  rcases hpf : p.fresh <;> rcases hnf : n.fresh
  · -- Two sides of one edge would lead from a corner to another one and back.
    obtain ⟨-, hptail, hphead, -⟩ := h.old hc hp hpf
    obtain ⟨-, hntail, hnhead, -⟩ := h.old hc hn hnf
    rcases Halfedge.eq_or_eq_opposite he with hsame | hopp
    · exact huv (by rw [← hptail, hsame, hntail])
    · have huw : u = w := by rw [← hptail, hopp, tail_opposite, hnhead]
      subst huw
      exact side_ends_swap h.nodup h.three (List.of_mem_zip hp).1 (List.of_mem_zip hn).1
  · -- New edges are stored behind the existing ones.
    have hlt := (h.old hc hp hpf).1.slot_lt
    have hle := (slot_le_of_fresh hnmem hnf).1
    rw [he] at hlt
    omega
  · have hlt := (h.old hc hn hnf).1.slot_lt
    have hle := (slot_le_of_fresh hpmem hpf).1
    rw [he] at hle
    omega
  · -- Two new sides of one edge would point to the same corner.
    have hback : p.inner.back = n.inner.back := by
      rw [(slot_le_of_fresh hpmem hpf).2, (slot_le_of_fresh hnmem hnf).2]
    have hsame : p.inner = n.inner := Halfedge.ext_of_back he hback
    have hphead := (h.pushed.ends _ hp hpf).2.1
    have hnhead := (h.pushed.ends _ hn hnf).2.1
    rw [hsame, hnhead] at hphead
    exact hvw hphead.symm

/-- Two consecutive existing sides are consecutive in the list of what was found. -/
theorem mem_cyclicPairs_existing (slot : ℕ) {p n : Halfedge} :
    (some p, some n) ∈ cyclicPairs existing ↔
      ∃ s t, (s, t) ∈ cyclicPairs (ringSides existing slot) ∧ s.fresh = false ∧
        t.fresh = false ∧ s.inner = p ∧ t.inner = n := by
  -- What was found is read off the sides, and pairs are taken elementwise.
  have hmap : cyclicPairs existing =
      (cyclicPairs (ringSides existing slot)).map
        (Prod.map RingSide.existing RingSide.existing) := by
    rw [← cyclicPairs_map, map_existing_ringSides]
  rw [hmap, List.mem_map]
  constructor
  · rintro ⟨⟨s, t⟩, hst, he⟩
    obtain ⟨hs, ht⟩ := Prod.mk.inj he
    obtain ⟨hsf, hsi⟩ := RingSide.existing_eq_some.1 hs
    obtain ⟨htf, hti⟩ := RingSide.existing_eq_some.1 ht
    exact ⟨s, t, hst, hsf, htf, hsi, hti⟩
  · rintro ⟨s, t, hst, hsf, htf, rfl, rfl⟩
    refine ⟨(s, t), hst, Prod.ext ?_ ?_⟩
    · exact RingSide.existing_eq_some.2 ⟨hsf, rfl⟩
    · exact RingSide.existing_eq_some.2 ⟨htf, rfl⟩

/-- At every corner the sides fit together. -/
theorem corner (hc : c.Linked) (h : c.Placement vs existing moved) {v : Vertex} {p n : RingSide}
    (hk : (v, p, n) ∈ (successors vs).zip (cyclicPairs (ringSides existing c.edges.size))) :
    c.CornerFits v p n := by
  obtain ⟨⟨u, hp⟩, w, hn⟩ := sides_of_corner h.length_sides hk
  refine ⟨h.live v (corner_mem h.length_sides hk), (h.side hn).1, ?_, ?_, ?_, ?_, h.apart hc hk, ?_⟩
  · intro hf
    obtain ⟨hlive, -, hhead, hborder⟩ := h.old hc hp hf
    exact ⟨hlive, hhead, hborder⟩
  · intro hf
    obtain ⟨hlive, htail, -, hborder⟩ := h.old hc hn hf
    exact ⟨hlive, htail, hborder⟩
  · exact fun hf => (slot_le_of_fresh (List.of_mem_zip hp).2 hf).1
  · exact fun hf => (slot_le_of_fresh (List.of_mem_zip hn).2 hf).1
  -- Sides that do not follow each other were brought together by links that are moved.
  · intro hpf hnf hne
    have hmem := (mem_cyclicPairs_existing _).2 ⟨p, n, (List.of_mem_zip hk).2, hpf, hnf, rfl, rfl⟩
    exact (relinks_spec h.moved).2 _ _ hmem hne

/-- The links that are moved are those of the corners where two existing sides meet. -/
theorem mem_moved (h : c.Placement vs existing moved) {x : Halfedge × Halfedge} :
    x ∈ moved ↔ ∃ v p n, (v, p, n) ∈ (successors vs).zip
      (cyclicPairs (ringSides existing c.edges.size)) ∧ p.fresh = false ∧ n.fresh = false ∧
        x ∈ c.movedLinks p.inner n.inner := by
  rw [(relinks_spec h.moved).1]
  constructor
  · rintro ⟨p, n, hpn, hx⟩
    obtain ⟨s, t, hst, hsf, htf, rfl, rfl⟩ := (mem_cyclicPairs_existing c.edges.size).1 hpn
    obtain ⟨v, hv⟩ := exists_corner_between h.length_sides hst
    exact ⟨v, s, t, hv, hsf, htf, hx⟩
  · rintro ⟨v, p, n, hk, hpf, hnf, hx⟩
    exact ⟨p.inner, n.inner,
      (mem_cyclicPairs_existing _).2 ⟨p, n, (List.of_mem_zip hk).2, hpf, hnf, rfl, rfl⟩, hx⟩

end Placement

end Connectivity

end RegionMesh
