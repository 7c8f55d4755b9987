import Mathlib.Data.List.Iterate
import RegionMesh.Connectivity.Attach
import RegionMesh.Connectivity.Detach
import RegionMesh.Proofs.Connectivity.Parts

/-!
# Checks that do not end

A walk that comes back to a halfedge other than its start goes round there for ever, so among halfedges in range it has
met all that it will ever meet after as many steps as there are halfedges (`exists_iterate_eq`). A walk of the check
that sets or takes away marks is cut off by then, since it meets a halfedge with its own mark again
(`markAlong_ne_endless`). A search has nothing that would cut it off, and ends only if the walk closes or meets what is
looked for (`meets_walk_eq_endless_iff`).

Two searches of the check are made on links about which too little is known by then: the one for a halfedge on the
border around a vertex, and the one for a halfedge around its tail if that vertex is deleted. The check goes on for ever
exactly where it gets to one of them that does (`check_eq_endless_iff`). One halfedge whose previous one is set to lead
into a cycle beside it is enough (`strayFan`).
-/

namespace RegionMesh

namespace Walk

variable {step : Halfedge → Halfedge} {start a g : Halfedge} {n : ℕ}

/-- A walk closes if it is back at its start in time. -/
theorem closed_follow_iff : (follow step start n a).closed = true ↔ ∃ k < n, step^[k + 1] a = start := by
  induction n generalizing a with
  | zero => simp [follow]
  | succ n ih =>
    rw [follow_succ]
    -- The walk is back after its first step, or as many steps later as the rest of the walk takes.
    by_cases hback : step a = start
    · rw [if_pos hback]
      exact iff_of_true rfl ⟨0, Nat.succ_pos n, hback⟩
    · rw [if_neg hback, ih]
      constructor
      · rintro ⟨k, hk, he⟩
        exact ⟨k + 1, Nat.succ_lt_succ hk, he⟩
      · rintro ⟨k, hk, he⟩
        cases k with
        | zero => exact absurd he hback
        | succ k => exact ⟨k, Nat.lt_of_succ_lt_succ hk, he⟩

/-- A walk that does not close meets a halfedge at every step. -/
theorem path_follow_of_open (hopen : (follow step start n a).closed = false) :
    (follow step start n a).path = List.iterate step a n := by
  induction n generalizing a with
  | zero => rfl
  | succ n ih =>
    rw [follow_succ] at hopen ⊢
    -- A walk that comes back to its start is closed.
    by_cases hback : step a = start
    · rw [if_pos hback] at hopen
      cases hopen
    · rw [if_neg hback] at hopen ⊢
      rw [List.iterate, ih hopen]

/-- A walk meets nothing but what its step leads to. -/
theorem exists_iterate_of_mem (hg : g ∈ (follow step start n a).path) : ∃ k, g = step^[k] a := by
  refine forall_mem_follow (p := fun g => ∃ k, g = step^[k] a) ⟨0, rfl⟩ ?_ g hg
  rintro g ⟨k, rfl⟩
  exact ⟨k + 1, (Function.iterate_succ_apply' step k a).symm⟩

/-- A search fails to end if the walk does not close and has not met what is looked for. -/
theorem meets_eq_endless_iff {w : Walk} {p : Halfedge → Bool} :
    w.meets p = .error .endlessWalk ↔ w.closed = false ∧ ∀ g ∈ w.path, p g = false := by
  unfold meets
  -- What is met on the path ends the search, whether the walk closes or not.
  by_cases hany : w.path.any p = true
  · obtain ⟨g, hg, hpg⟩ := List.any_eq_true.1 hany
    rw [if_pos hany]
    refine iff_of_false (by simp) fun h => ?_
    rw [h.2 g hg] at hpg
    cases hpg
  · have hnone : ∀ g ∈ w.path, p g = false := by simpa using hany
    rw [if_neg hany]
    cases w.closed with
    | false => exact iff_of_true rfl ⟨rfl, hnone⟩
    | true => simp

end Walk

/-- A search along a walk goes on for ever: the step never leads back to the start, and to nothing that is looked
for. -/
def SearchesForever (step : Halfedge → Halfedge) (start : Halfedge) (p : Halfedge → Bool) : Prop :=
  ∀ n, step^[n + 1] start ≠ start ∧ p (step^[n] start) = false

/-- A search goes on for ever if the first step leads to a halfedge where the walk stays. -/
theorem SearchesForever.of_fixed {step : Halfedge → Halfedge} {start g : Halfedge} {p : Halfedge → Bool}
    (hstep : step start = g) (hfix : step g = g) (hne : g ≠ start) (hstart : p start = false) (hg : p g = false) :
    SearchesForever step start p := by
  -- From the first step on the search stays where it is.
  have hstays : ∀ n, step^[n + 1] start = g := by
    intro n
    rw [Function.iterate_succ_apply, hstep, Function.iterate_fixed hfix]
  intro n
  refine ⟨fun hback => hne ((hstays n).symm.trans hback), ?_⟩
  cases n with
  | zero => exact hstart
  | succ n => rwa [hstays]

namespace Connectivity

variable {c : Connectivity}

/-! ## Walks that do not close -/

section Steps

variable {step : Halfedge → Halfedge} {a : Halfedge}
  (hstep : ∀ h, h.edge.slot < c.edges.size → (step h).edge.slot < c.edges.size)
  (ha : a.edge.slot < c.edges.size)

include hstep ha

/-- No number of steps leads out of the storage. -/
theorem iterate_lt (n : ℕ) : (step^[n] a).edge.slot < c.edges.size := by
  induction n with
  | zero => exact ha
  | succ n ih =>
    rw [Function.iterate_succ_apply']
    exact hstep _ ih

/-- As many different halfedges as there is place for and one more cannot be met. -/
theorem not_nodup_iterate : ¬ (List.iterate step a (c.halfedgeCount + 1)).Nodup := by
  intro hnodup
  have hle := length_le_halfedgeCount hnodup fun h hh => by
    obtain ⟨k, -, rfl⟩ := List.mem_iterate.1 hh
    exact iterate_lt hstep ha k
  rw [List.length_iterate] at hle
  omega

/-- After as many steps as there are halfedges nothing new is met. -/
theorem exists_iterate_eq (n : ℕ) : ∃ m ≤ c.halfedgeCount, step^[n] a = step^[m] a := by
  -- The walk comes to some halfedge a second time, at the `j`-th step after the `i`-th.
  obtain ⟨i, j, hij, hj, he⟩ : ∃ i j, i < j ∧ j ≤ c.halfedgeCount ∧ step^[i] a = step^[j] a := by
    by_contra hnone
    push Not at hnone
    refine not_nodup_iterate hstep ha (List.pairwise_iff_getElem.2 fun i j hi hj hij => ?_)
    rw [List.length_iterate] at hj
    rw [List.getElem_iterate, List.getElem_iterate]
    exact hnone i j hij (Nat.le_of_lt_succ hj)
  induction n using Nat.strong_induction_on with
  | _ n ih =>
    rcases Nat.lt_or_ge n j with hn | hn
    · exact ⟨n, by omega, rfl⟩
    · -- From the second time on the walk goes on as from the first.
      have hearlier : step^[n] a = step^[n - j + i] a :=
        calc step^[n] a = step^[n - j + j] a := by rw [Nat.sub_add_cancel hn]
          _ = step^[n - j] (step^[j] a) := Function.iterate_add_apply step _ _ a
          _ = step^[n - j] (step^[i] a) := by rw [he]
          _ = step^[n - j + i] a := (Function.iterate_add_apply step _ _ a).symm
      rw [hearlier]
      exact ih _ (by omega)

/-- A search along a walk fails to end exactly if it goes on for ever. -/
theorem meets_walk_eq_endless_iff {p : Halfedge → Bool} :
    (c.walk step a).meets p = .error .endlessWalk ↔ SearchesForever step a p := by
  rw [Walk.meets_eq_endless_iff]
  constructor
  · rintro ⟨hopen, hnone⟩ n
    have hpath := Walk.path_follow_of_open hopen
    -- What is met after any number of steps is met within the bound of the walk as well.
    obtain ⟨m, hm, he⟩ := exists_iterate_eq hstep ha n
    have hmem : step^[m] a ∈ (c.walk step a).path := by
      unfold walk
      rw [hpath]
      exact List.mem_iterate.2 ⟨m, Nat.lt_succ_of_le hm, rfl⟩
    rw [Function.iterate_succ_apply', he, ← Function.iterate_succ_apply' step m a]
    refine ⟨fun hback => ?_, hnone _ hmem⟩
    have hclosed : (c.walk step a).closed = true := Walk.closed_follow_iff.2 ⟨m, Nat.lt_succ_of_le hm, hback⟩
    rw [hopen] at hclosed
    cases hclosed
  · intro hforever
    constructor
    · rw [Bool.eq_false_iff]
      intro hclosed
      obtain ⟨k, -, hback⟩ := Walk.closed_follow_iff.1 hclosed
      exact (hforever k).1 hback
    · intro g hg
      obtain ⟨k, rfl⟩ := Walk.exists_iterate_of_mem hg
      exact (hforever k).2

end Steps

/-! ## Marks -/

/-- Marking along a walk fails to end only if the walk does not close and meets no halfedge twice. -/
theorem open_of_markAlong {marked : Bool} {again : Halfedge → LinkFault}
    {accepts : Halfedge → Except LinkFault Unit} (hagain : ∀ g, again g ≠ .endlessWalk)
    (haccepts : ∀ g, accepts g ≠ .error .endlessWalk) {w : Walk} {m : Marks}
    (h : markAlong marked again accepts w m = .error .endlessWalk) : w.closed = false ∧ w.path.Nodup := by
  obtain ⟨path, closed⟩ := w
  -- The walk keeps its flag while its path gets shorter, and meets no mark of its own.
  suffices hgo : ∀ w : Walk, markAlong.go marked again accepts w path m = .error .endlessWalk →
      w.closed = false ∧ path.Nodup ∧ ∀ g ∈ path, m.contains g ≠ marked by
    obtain ⟨hclosed, hnodup, -⟩ := hgo ⟨path, closed⟩ h
    exact ⟨hclosed, hnodup⟩
  clear h
  intro w h
  induction path generalizing m with
  | nil =>
    unfold markAlong.go at h
    split at h
    · cases h
    · rename_i hclosed
      exact ⟨Bool.eq_false_iff.2 hclosed, List.nodup_nil, by simp⟩
  | cons a rest ih =>
    unfold markAlong.go at h
    split at h
    · exact absurd (Except.error.inj h) (hagain a)
    · rename_i hmark
      cases haccept : accepts a with
      | error e =>
        rw [haccept] at h
        obtain rfl : e = .endlessWalk := Except.error.inj h
        exact absurd haccept (haccepts a)
      | ok u =>
        rw [haccept] at h
        obtain ⟨hclosed, hnodup, hrest⟩ := ih h
        have hne : a ∉ rest := by
          intro hmem
          exact hrest a hmem (by rw [Marks.contains_put, if_pos rfl])
        refine ⟨hclosed, List.nodup_cons.2 ⟨hne, hnodup⟩, List.forall_mem_cons.2 ⟨hmark, fun g hg => ?_⟩⟩
        have hag : a ≠ g := by
          rintro rfl
          exact hne hg
        have hnot := hrest g hg
        rwa [Marks.contains_put, if_neg hag] at hnot

/-- Marking along a walk ends. -/
theorem markAlong_ne_endless {marked : Bool} {again : Halfedge → LinkFault}
    {accepts : Halfedge → Except LinkFault Unit} (hagain : ∀ g, again g ≠ .endlessWalk)
    (haccepts : ∀ g, accepts g ≠ .error .endlessWalk) {step : Halfedge → Halfedge} {a : Halfedge}
    (hstep : ∀ h, h.edge.slot < c.edges.size → (step h).edge.slot < c.edges.size)
    (ha : a.edge.slot < c.edges.size) (m : Marks) :
    markAlong marked again accepts (c.walk step a) m ≠ .error .endlessWalk := by
  intro h
  -- Otherwise a walk of more steps than there are halfedges would meet none of them twice.
  obtain ⟨hopen, hnodup⟩ := open_of_markAlong hagain haccepts h
  rw [walk, Walk.path_follow_of_open hopen] at hnodup
  exact not_nodup_iterate hstep ha hnodup

/-! ## The parts of the check -/

/-- Turning left leads from stored halfedges to stored ones. -/
theorem turnLeft_lt (hc : c.inRange = true) (h : Halfedge) (hh : h.edge.slot < c.edges.size) :
    (c.turnLeft h).edge.slot < c.edges.size := (neighbors_lt hc hh).2

/-- Turning right leads from stored halfedges to stored ones. -/
theorem turnRight_lt (hc : c.inRange = true) (h : Halfedge) (hh : h.edge.slot < c.edges.size) :
    (c.turnRight h).edge.slot < c.edges.size := (neighbors_lt (h := h.opposite) hc hh).1

/-- A search around a vertex fails to end if the vertex stores a halfedge, and from there the search goes on for
ever. -/
theorem meets_fan_eq_endless_iff (hc : c.inRange = true) {v : Vertex} {p : Halfedge → Bool} :
    (c.fan v).meets p = .error .endlessWalk ↔ ∃ g, c.outgoing v = some g ∧ SearchesForever c.turnLeft g p := by
  unfold fan
  cases ho : c.outgoing v with
  | none => simp [Walk.meets, Walk.nowhere]
  | some g => simpa using meets_walk_eq_endless_iff (turnLeft_lt hc) (outgoing_lt hc ho)

/-- The halfedge that a vertex stores is checked for ever if it is live and has a facet, and the search for one on the
border around the vertex goes on for ever. -/
theorem checkOutgoing_eq_endless_iff {v : Vertex} {h : Halfedge} :
    c.checkOutgoing v h = .error .endlessWalk ↔
      c.IsLive h ∧ c.facetOf h ≠ none ∧ (c.fan v).meets c.isBorder = .error .endlessWalk := by
  simp only [checkOutgoing, bind, Except.bind, throw, throwThe, MonadExceptOf.throw, pure, Except.pure,
    guard_eq_error, reduceCtorEq, and_false, false_or]
  rw [← and_assoc, isLive_iff_of_guards]
  refine and_congr_right fun _ => ?_
  -- The walk is taken before the tail is compared, so both ways of comparing have the same walk.
  by_cases ht : c.tail h = v
  all_goals
    by_cases hb : c.isBorder h = true
    · simp [ht, hb, (isBorder_iff h).1 hb]
    · have hf : c.facetOf h ≠ none := fun hnone => hb ((isBorder_iff h).2 hnone)
      rw [Bool.not_eq_true] at hb
      cases (c.fan v).meets c.isBorder with
      | error e => simp [hb, hf]
      | ok met => cases met <;> simp [ht, hb, hf]

/-- Marking the halfedges around a vertex ends, in either direction. -/
theorem markFan_ne_endless (hc : c.inRange = true) (v : Vertex) (marked : Bool) (fault : LinkFault)
    (hfault : fault ≠ .endlessWalk) (m : Marks) :
    markAlong marked (fun _ => fault) (fun _ => .ok ()) (c.fan v) m ≠ .error .endlessWalk ∧
      markAlong marked (fun _ => fault) (fun _ => .ok ()) (c.fanRight v) m ≠ .error .endlessWalk := by
  unfold fan fanRight
  cases ho : c.outgoing v with
  | none => simp [markAlong, markAlong.go, Walk.nowhere]
  | some g =>
    have hg := outgoing_lt hc ho
    exact ⟨markAlong_ne_endless (fun _ => hfault) (by simp) (turnLeft_lt hc) hg m,
      markAlong_ne_endless (fun _ => hfault) (by simp) (turnRight_lt hc) hg m⟩

/-- The fan of a vertex is checked for ever if the vertex stores a live halfedge with a facet, and the search for one on
the border goes on for ever. -/
theorem checkVertex_eq_endless_iff (hc : c.inRange = true) {v : Vertex} {m : Marks} :
    c.checkVertex m v = .error .endlessWalk ↔
      ∃ h, c.outgoing v = some h ∧ c.IsLive h ∧ c.facetOf h ≠ none ∧ SearchesForever c.turnLeft h c.isBorder := by
  -- Neither walk that sets or takes away marks goes on for ever, so only the search is left.
  have hmarks : ∀ m, (markAlong true (fun _ => .invalidOutgoingHalfedges v) (fun _ => .ok ()) (c.fan v) m >>=
      markAlong false (fun _ => .invalidOutgoingHalfedges v) (fun _ => .ok ()) (c.fanRight v)) ≠
        .error .endlessWalk := by
    intro m h
    rcases bind_eq_error.1 h with h | ⟨m', -, h⟩
    · exact (markFan_ne_endless hc v true _ (by simp) m).1 h
    · exact (markFan_ne_endless hc v false _ (by simp) m').2 h
  unfold checkVertex
  cases ho : c.outgoing v with
  | none => exact iff_of_false (hmarks m) (by simp)
  | some h =>
    rw [bind_eq_error, checkOutgoing_eq_endless_iff, meets_fan_eq_endless_iff hc, ho]
    constructor
    · rintro (⟨hlive, hf, g, hg, hforever⟩ | ⟨_, -, hrest⟩)
      · obtain rfl := Option.some.inj hg
        exact ⟨h, rfl, hlive, hf, hforever⟩
      · exact absurd hrest (hmarks m)
    · rintro ⟨g, hg, hlive, hf, hforever⟩
      obtain rfl := Option.some.inj hg
      exact .inl ⟨hlive, hf, h, rfl, hforever⟩

/-- The links of a halfedge are checked without a walk. -/
theorem checkLinks_ne_endless (h : Halfedge) : c.checkLinks h ≠ .error .endlessWalk := by
  simp only [checkLinks, bind, Except.bind, throw, throwThe, MonadExceptOf.throw, pure, Except.pure, ne_eq,
    guard_eq_error, reduceCtorEq, and_false, or_false, not_false_iff]

/-- A halfedge is checked for ever if its links pass and the search for it around one of its ends goes on for ever. -/
theorem checkHalfedge_eq_endless_iff {h : Halfedge} : c.checkHalfedge h = .error .endlessWalk ↔
    c.tail h ≠ c.head h ∧ c.checkLinks h = .ok () ∧ ((c.fan (c.tail h)).meets (· = h) = .error .endlessWalk ∨
      (c.fan (c.tail h)).meets (· = h) = .ok true ∧ (c.fanIn (c.head h)).meets (· = h) = .error .endlessWalk) := by
  have hlinks := c.checkLinks_ne_endless h
  simp only [checkHalfedge, bind, Except.bind, throw, throwThe, MonadExceptOf.throw, pure, Except.pure,
    guard_eq_error, reduceCtorEq, and_false, false_or]
  refine and_congr_right fun _ => ?_
  -- The links have no walk, and of the two walks the second one is only taken if the first one meets the halfedge.
  cases hcheck : c.checkLinks h with
  | error e =>
    rw [hcheck] at hlinks
    simpa using hlinks
  | ok u =>
    cases (c.fan (c.tail h)).meets (· = h) with
    | error e => simp
    | ok out =>
      cases (c.fanIn (c.head h)).meets (· = h) with
      | error e => cases out <;> simp
      | ok into => cases out <;> cases into <;> simp

/-- A loop is checked in finite time. -/
theorem checkLoop_ne_endless (hc : c.inRange = true) {marked : Bool} {m : Marks} {h : Halfedge} (hh : c.IsLive h) :
    c.checkLoop marked m h ≠ .error .endlessWalk := by
  unfold checkLoop
  split
  · simp
  · refine markAlong_ne_endless (fun g => ?_) (fun g => ?_) (fun g hg => (neighbors_lt hc hg).1) hh.slot_lt m
    · split <;> simp
    · split <;> simp

/-- Where all live halfedges pass, each of them is the previous one of its next one, so their loops close. -/
theorem loop_closed_of_passes (hhalfedges : ∀ h, c.IsLive h → c.checkHalfedge h = .ok ()) {h : Halfedge}
    (hh : c.IsLive h) : (c.loop h).closed = true := by
  have hlinks : ∀ g ∈ c.liveHalfedges, c.next g ∈ c.liveHalfedges ∧ c.prev (c.next g) = g := by
    intro g hg
    have hpass := hhalfedges g (mem_liveHalfedges.1 hg)
    obtain ⟨-, hnext, -, -, -, hback, -⟩ := checkLinks_eq_ok_iff.1 (checkHalfedge_eq_ok_iff.1 hpass).2.1
    exact ⟨mem_liveHalfedges.2 hnext, hback⟩
  -- The live halfedges are finitely many, and every step along them can be taken back.
  obtain ⟨r, horbit, hmem⟩ := Orbit.exists_of_finite (fun g hg => (hlinks g hg).1) (fun g hg => (hlinks g hg).2)
    (mem_liveHalfedges.2 hh)
  have hloop : c.loop h = ⟨h :: r, true⟩ :=
    walk_of_orbit horbit fun g hg => (mem_liveHalfedges.1 (hmem g hg)).slot_lt
  rw [hloop]

/-- Where all live halfedges pass, a facet is checked in finite time. -/
theorem checkFacet_ne_endless (hhalfedges : ∀ h, c.IsLive h → c.checkHalfedge h = .ok ()) (f : Facet) :
    c.checkFacet f ≠ .error .endlessWalk := by
  intro h
  simp only [checkFacet, bind, Except.bind, throw, throwThe, MonadExceptOf.throw, pure, Except.pure,
    guard_eq_error, reduceCtorEq, and_false, false_or, or_false, and_true] at h
  obtain ⟨hlive, -, hopen⟩ := h
  have hstart : c.IsLive (c.start f) := by simpa [IsLive] using hlive
  have hclosed : (c.ring f).closed = true := loop_closed_of_passes hhalfedges hstart
  rw [hclosed] at hopen
  cases hopen

/-! ## The whole check -/

/-- The check is lost around a vertex. It has got there, the vertex stores a live halfedge with a facet, and turning
left from it leads on for ever, to no halfedge on the border. -/
structure LostAround (c : Connectivity) (before : List Vertex) (v : Vertex) (h : Halfedge) : Prop where
  /-- The vertices before this one pass. -/
  passed : ∃ m, before.foldlM c.checkVertex {} = .ok m
  /-- The vertex stores the halfedge. -/
  stored : c.outgoing v = some h
  /-- The halfedge is live. -/
  live : c.IsLive h
  /-- The halfedge has a facet. -/
  facet : c.facetOf h ≠ none
  /-- No halfedge on the border is found from there, and the walk does not close. -/
  search : SearchesForever c.turnLeft h c.isBorder

/-- The check is lost behind a halfedge. It has got there and has found its links in order, but its tail is a deleted
vertex, and turning left from the halfedge that this one stores leads on for ever without meeting the halfedge. -/
structure LostBehind (c : Connectivity) (before : List Halfedge) (h g : Halfedge) : Prop where
  /-- The vertices pass. -/
  vertices : ∃ m, c.liveVertices.foldlM c.checkVertex {} = .ok m
  /-- The halfedges before this one pass. -/
  passed : before.forM c.checkHalfedge = .ok ()
  /-- The halfedge joins different vertices. -/
  ends : c.tail h ≠ c.head h
  /-- The links of the halfedge pass. -/
  links : c.checkLinks h = .ok ()
  /-- The tail is deleted. -/
  tail : c.isLiveVertex (c.tail h) = false
  /-- The tail stores a halfedge. -/
  stored : c.outgoing (c.tail h) = some g
  /-- The halfedge is not found from there, and the walk does not close. -/
  search : SearchesForever c.turnLeft g (· = h)

/-- Where the vertices pass, a halfedge is checked for ever if it is lost behind. -/
theorem checkHalfedge_eq_endless_iff_of_fans (hc : c.inRange = true) {h : Halfedge}
    (hfans : ∀ v, c.isLiveVertex v = true → (c.fan v).closed = true) :
    c.checkHalfedge h = .error .endlessWalk ↔ c.tail h ≠ c.head h ∧ c.checkLinks h = .ok () ∧
      c.isLiveVertex (c.tail h) = false ∧ ∃ g, c.outgoing (c.tail h) = some g ∧
        SearchesForever c.turnLeft g (· = h) := by
  rw [checkHalfedge_eq_endless_iff, ← meets_fan_eq_endless_iff hc]
  refine and_congr_right fun _ => and_congr_right fun hlinks => ?_
  constructor
  · rintro (htail | ⟨-, hhead⟩)
    · refine ⟨?_, htail⟩
      by_contra hlive
      have hclosed := hfans _ (Bool.of_not_eq_false hlive)
      rw [(Walk.meets_eq_endless_iff.1 htail).1] at hclosed
      cases hclosed
    · -- The head is live, so the walk around it closes.
      have hclosed := hfans _ (checkLinks_eq_ok_iff.1 hlinks).2.2.1
      have hopen : (c.fan (c.head h)).closed = false := (Walk.meets_eq_endless_iff.1 hhead).1
      rw [hopen] at hclosed
      cases hclosed
  · exact fun hlost => .inl hlost.2

/-- The check goes on for ever exactly if it gets lost around a vertex or behind a halfedge. All its other walks close,
meet what is looked for, or are cut off by a mark. -/
theorem check_eq_endless_iff (hc : c.inRange = true) : c.check = .error .endlessWalk ↔
    (∃ before v after h, c.liveVertices = before ++ v :: after ∧ c.LostAround before v h) ∨
      ∃ before h after g, c.liveHalfedges = before ++ h :: after ∧ c.LostBehind before h g := by
  unfold check
  rw [bind_eq_error]
  refine or_congr ?_ ?_
  · rw [foldlM_eq_error]
    constructor
    · rintro ⟨before, v, after, m, hsplit, hpass, hv⟩
      obtain ⟨h, hstored, hlive, hfacet, hsearch⟩ := (checkVertex_eq_endless_iff hc).1 hv
      exact ⟨before, v, after, h, hsplit, ⟨m, hpass⟩, hstored, hlive, hfacet, hsearch⟩
    · rintro ⟨before, v, after, h, hsplit, ⟨m, hpass⟩, hstored, hlive, hfacet, hsearch⟩
      exact ⟨before, v, after, m, hsplit, hpass,
        (checkVertex_eq_endless_iff hc).2 ⟨h, hstored, hlive, hfacet, hsearch⟩⟩
  · have hfans : (∃ m, c.liveVertices.foldlM c.checkVertex {} = .ok m) →
        ∀ v, c.isLiveVertex v = true → (c.fan v).closed = true := by
      rintro ⟨m, hm⟩ v hv
      obtain ⟨_, _, hpass⟩ := exists_of_foldlM hm v (mem_liveVertices.2 hv)
      exact (checkVertex_ok hpass).2
    constructor
    · rintro ⟨m, hvertices, hrest⟩
      rcases bind_eq_error.1 hrest with hhalfedges | ⟨⟨⟩, hhalfedges, hrest⟩
      · obtain ⟨before, h, after, hsplit, hpass, hh⟩ := forM_eq_error.1 hhalfedges
        obtain ⟨hends, hlinks, htail, g, hstored, hsearch⟩ :=
          (checkHalfedge_eq_endless_iff_of_fans hc (hfans ⟨m, hvertices⟩)).1 hh
        exact ⟨before, h, after, g, hsplit, ⟨m, hvertices⟩, hpass, hends, hlinks, htail, hstored, hsearch⟩
      · -- The other passes end.
        have hloops : ∀ marked m, c.liveHalfedges.foldlM (c.checkLoop marked) m ≠ .error .endlessWalk := by
          intro marked m hm
          obtain ⟨before, h, after, m', hsplit, -, hh⟩ := foldlM_eq_error.1 hm
          have hlive : c.IsLive h := mem_liveHalfedges.1 (by rw [hsplit]; simp)
          exact checkLoop_ne_endless hc hlive hh
        exfalso
        rcases bind_eq_error.1 hrest with hset | ⟨m₂, -, hrest⟩
        · exact hloops true m hset
        rcases bind_eq_error.1 hrest with hcleared | ⟨m₃, -, hfacets⟩
        · exact hloops false m₂ hcleared
        obtain ⟨-, f, -, -, -, hf⟩ := forM_eq_error.1 hfacets
        exact checkFacet_ne_endless (fun h hh => forM_eq_ok.1 hhalfedges h (mem_liveHalfedges.2 hh)) f hf
    · rintro ⟨before, h, after, g, hsplit, hlost⟩
      obtain ⟨m, hvertices⟩ := hlost.vertices
      refine ⟨m, hvertices, bind_eq_error.2 (.inl (forM_eq_error.2 ⟨before, h, after, hsplit, hlost.passed, ?_⟩))⟩
      exact (checkHalfedge_eq_endless_iff_of_fans hc (hfans hlost.vertices)).2
        ⟨hlost.ends, hlost.links, hlost.tail, g, hlost.stored, hlost.search⟩

/-- Two triangles with a common edge, of which one was deleted, its third corner with it, and attached anew along the
same vertices. The deleted corner stores a deleted halfedge, from which turning left leads to another deleted one and
stays there. -/
def deletedTail : Connectivity :=
  let attach (c : Connectivity) (vs : List ℕ) := (addFacet (vs.map Vertex.mk) c).2
  let vertices := (List.range 4).foldl (fun c _ => c.addVertex.2) ({} : Connectivity)
  let anew := attach ((attach (attach vertices [0, 1, 2]) [1, 3, 2]).deleteFacet ⟨0⟩) [0, 1, 2]
  ((anew.setOutgoing ⟨0⟩ (some (.ofPosition 0))).link (.ofPosition 5) (.ofPosition 0)).link (.ofPosition 5)
    (.ofPosition 4)

/-- The vertices pass, and the check is lost behind the first halfedge that leaves the deleted vertex. -/
theorem check_endless_deletedTail : deletedTail.inRange = true ∧ deletedTail.check = .error .endlessWalk := by
  have hrange : deletedTail.inRange = true := by decide +kernel
  have hvertices : (deletedTail.liveVertices.foldlM deletedTail.checkVertex {}).isOk = true := by decide +kernel
  have hpassed : ([2, 3, 6, 7, 8, 9].map Halfedge.ofPosition).forM deletedTail.checkHalfedge = .ok () := by
    decide +kernel
  -- Turning left from the stored halfedge leads to halfedge 4, which turning left does not leave.
  have hsearch : SearchesForever deletedTail.turnLeft (.ofPosition 0) (· = .ofPosition 10) :=
    .of_fixed (g := .ofPosition 4) (by decide +kernel) (by decide +kernel) (by decide) (by decide) (by decide)
  refine ⟨hrange, (check_eq_endless_iff hrange).2 (.inr ⟨[2, 3, 6, 7, 8, 9].map Halfedge.ofPosition, .ofPosition 10,
    [11, 12, 13].map Halfedge.ofPosition, .ofPosition 0, by decide +kernel, ?_⟩)⟩
  refine ⟨?_, hpassed, by decide +kernel, by decide +kernel, by decide +kernel, by decide +kernel, hsearch⟩
  cases hm : deletedTail.liveVertices.foldlM deletedTail.checkVertex {} with
  | ok m => exact ⟨m, rfl⟩
  | error e =>
    rw [hm] at hvertices
    cases hvertices

/-- A triangle where the first vertex stores a halfedge of the facet, and turning left from there leads to another one
and stays there. -/
def strayFan : Connectivity :=
  let vertices := (List.range 3).foldl (fun c _ => c.addVertex.2) ({} : Connectivity)
  let triangle := (addFacet ([0, 1, 2].map Vertex.mk) vertices).2
  ((triangle.setOutgoing ⟨0⟩ (some (.ofPosition 0))).link (.ofPosition 3) (.ofPosition 0)).link (.ofPosition 3)
    (.ofPosition 2)

/-- All handles are in range, and the check goes on for ever at the first vertex. -/
theorem not_check_ends_strayFan : strayFan.inRange = true ∧ strayFan.check = .error .endlessWalk ∧
    strayFan.liveVertices = [0, 1, 2].map Vertex.mk ∧ strayFan.LostAround [] ⟨0⟩ (.ofPosition 0) := by
  have hsearch : SearchesForever strayFan.turnLeft (.ofPosition 0) strayFan.isBorder :=
    .of_fixed (g := .ofPosition 2) (by decide +kernel) (by decide +kernel) (by decide) (by decide +kernel)
      (by decide +kernel)
  have hlive : strayFan.isLiveEdge (Halfedge.ofPosition 0).edge = true := by decide +kernel
  exact ⟨by decide +kernel, by decide +kernel, by decide +kernel, ⟨{}, rfl⟩, by decide +kernel, hlive,
    by decide +kernel, hsearch⟩

end Connectivity

end RegionMesh
