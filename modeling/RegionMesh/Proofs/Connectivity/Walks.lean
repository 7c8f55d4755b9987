import Mathlib.Data.List.Perm.Subperm
import RegionMesh.Proofs.Connectivity.Elements
import RegionMesh.Proofs.Orbit

/-!
# Walks and orbits

A walk closes exactly if its start has an orbit, and then it meets the orbit: `Connectivity.walk_of_orbit` and, as no
halfedge is met twice on the way back to the start, `Connectivity.orbit_of_closed`. For the second one nothing has to be
known of the step.
-/

namespace RegionMesh

namespace Walk

variable {step : Halfedge → Halfedge} {start h : Halfedge} {n : ℕ}

/-- A walk takes one step, and ends there or goes on. -/
theorem follow_succ : follow step start (n + 1) h =
    if step h = start then ⟨[h], true⟩
    else ⟨h :: (follow step start n (step h)).path, (follow step start n (step h)).closed⟩ := rfl

/-- A walk along a stretch that leads back to its start, and does not meet it before, closes. -/
theorem follow_of_leads {a : Halfedge} {l : List Halfedge} (h : Leads step (a :: l) start) (hs : start ∉ l)
    (hn : l.length < n) : follow step start n a = ⟨a :: l, true⟩ := by
  induction l generalizing a n with
  | nil =>
    -- There is at least one step to take.
    obtain ⟨m, rfl⟩ : ∃ m, n = m + 1 := ⟨n - 1, by simp at hn; omega⟩
    have ha : step a = start := h.1
    rw [follow_succ, if_pos ha]
  | cons x l ih =>
    obtain ⟨m, rfl⟩ : ∃ m, n = m + 1 := ⟨n - 1, by simp at hn; omega⟩
    have ha : step a = x := h.1
    have hx : x ≠ start := fun he => hs (by simp [he])
    have hrest := ih h.2 (fun hm => hs (List.mem_cons_of_mem x hm))
      (show l.length < m by simp at hn; omega)
    rw [follow_succ, ha, if_neg hx, hrest]

/-- What holds of the first halfedge of a walk and is kept by the step holds all along. -/
theorem forall_mem_follow {p : Halfedge → Prop} (hh : p h) (hp : ∀ g, p g → p (step g)) :
    ∀ g ∈ (follow step start n h).path, p g := by
  induction n generalizing h with
  | zero => simp [follow]
  | succ n ih =>
    rw [follow_succ]
    split
    · intro g hg
      obtain rfl : g = h := by simpa using hg
      exact hh
    · intro g hg
      rcases List.mem_cons.1 hg with rfl | hg
      · exact hh
      · exact ih (hp h hh) g hg

/-! ## Walks that close -/

/-- A walk that closes meets its first halfedge first, and goes on from there unless the next step is back at the
start. -/
theorem follow_cases (hclosed : (follow step start n h).closed = true) :
    (step h = start ∧ follow step start n h = ⟨[h], true⟩) ∨
      ∃ m, n = m + 1 ∧ step h ≠ start ∧ (follow step start m (step h)).closed = true ∧
        follow step start n h = ⟨h :: (follow step start m (step h)).path, true⟩ := by
  cases n with
  | zero => cases hclosed
  | succ m =>
    -- A step that leads back to the start ends the walk, and any other one has steps left.
    rw [follow_succ] at hclosed ⊢
    by_cases hback : step h = start
    · left
      exact ⟨hback, if_pos hback⟩
    · right
      rw [if_neg hback] at hclosed
      refine ⟨m, rfl, hback, hclosed, ?_⟩
      rw [if_neg hback]
      exact congrArg (Walk.mk _) hclosed

/-- How long a walk may get does not matter where it closes. -/
theorem follow_eq {m : ℕ} (hn : (follow step start n h).closed = true)
    (hm : (follow step start m h).closed = true) : follow step start n h = follow step start m h := by
  induction n generalizing m h with
  | zero => cases hn
  | succ n ih =>
    -- Both walks take the same first step, so both are back or both go on.
    rcases follow_cases hn with ⟨hback, hpath⟩ | ⟨_, hsucc, hback, hrest, hpath⟩
    · rcases follow_cases hm with ⟨-, hpath'⟩ | ⟨_, -, hne, -⟩
      · rw [hpath, hpath']
      · exact absurd hback hne
    · obtain rfl := Nat.succ.inj hsucc
      rcases follow_cases hm with ⟨hb, -⟩ | ⟨_, -, -, hrest', hpath'⟩
      · exact absurd hb hback
      · rw [hpath, hpath', ih hrest hrest']

/-- From each halfedge on a walk that closes the walk goes on along the rest of the path. -/
theorem exists_follow_of_mem (hclosed : (follow step start n h).closed = true) {g : Halfedge}
    (hg : g ∈ (follow step start n h).path) :
    ∃ m, (follow step start m g).closed = true ∧
      (follow step start m g).path.length ≤ (follow step start n h).path.length := by
  induction n generalizing h with
  | zero => cases hclosed
  | succ n ih =>
    -- The walk from the first halfedge is the walk itself, and those from the others are walks of its rest.
    rcases follow_cases hclosed with ⟨-, hpath⟩ | ⟨_, hsucc, -, hrest, hpath⟩
    · obtain rfl : g = h := by simpa [hpath] using hg
      exact ⟨n + 1, hclosed, Nat.le_refl _⟩
    · obtain rfl := Nat.succ.inj hsucc
      rw [hpath] at hg
      rcases List.mem_cons.1 hg with rfl | hg
      · exact ⟨n + 1, hclosed, Nat.le_refl _⟩
      · obtain ⟨m, hm, hlen⟩ := ih hrest hg
        refine ⟨m, hm, hlen.trans ?_⟩
        rw [hpath]
        exact Nat.le_succ _

/-- A walk that closes meets no halfedge twice, and its steps lead along it and back to the start. -/
theorem leads_of_closed (hclosed : (follow step start n h).closed = true) :
    ∃ r, follow step start n h = ⟨h :: r, true⟩ ∧ (h :: r).Nodup ∧ Leads step (h :: r) start := by
  induction n generalizing h with
  | zero => cases hclosed
  | succ n ih =>
    rcases follow_cases hclosed with ⟨hback, hpath⟩ | ⟨_, hsucc, -, hrest, hpath⟩
    · exact ⟨[], hpath, List.nodup_singleton h, hback, trivial⟩
    · obtain rfl := Nat.succ.inj hsucc
      obtain ⟨r, hr, hnodup, hleads⟩ := ih hrest
      rw [hr] at hpath
      have hnew : h ∉ step h :: r := by
        intro hmem
        -- From `h` on the walk would be as long as its own rest.
        obtain ⟨m, hm, hlen⟩ := exists_follow_of_mem hrest (g := h) (by rwa [hr])
        rw [follow_eq hm hclosed, hpath, hr] at hlen
        exact absurd hlen (by simp)
      exact ⟨step h :: r, hpath, List.nodup_cons.2 ⟨hnew, hnodup⟩, rfl, hleads⟩

/-! ## Walks that meet a halfedge -/

/-- A halfedge is met if it is on the walk. -/
theorem meets_eq_true {w : Walk} : w.meets (· = h) = .ok true ↔ h ∈ w.path := by
  unfold meets
  by_cases hh : h ∈ w.path
  · have hany : w.path.any (· = h) = true := List.any_eq_true.2 ⟨h, hh, by simp⟩
    simp [hh, hany]
  · have hany : ¬ w.path.any (· = h) = true := by
      rw [List.any_eq_true]
      rintro ⟨g, hg, hgh⟩
      obtain rfl : g = h := by simpa using hgh
      exact hh hg
    rw [if_neg hany]
    cases w.closed <;> simp [hh]

/-- On a closed walk without such a halfedge none is met. -/
theorem meets_of_forall {w : Walk} {p : Halfedge → Bool} (hw : w.closed = true)
    (hp : ∀ h ∈ w.path, p h = false) : w.meets p = .ok false := by
  have hany : ¬ w.path.any p = true := by
    rw [List.any_eq_true]
    rintro ⟨h, hh, hph⟩
    rw [hp h hh] at hph
    cases hph
  unfold meets
  rw [if_neg hany, if_pos hw]

/-- No halfedge that is looked for in vain is on the walk. -/
theorem forall_of_meets {w : Walk} {p : Halfedge → Bool} (hmet : w.meets p = .ok false) :
    ∀ g ∈ w.path, p g = false := by
  unfold meets at hmet
  split at hmet
  · cases hmet
  · rename_i hany
    intro g hg
    rw [Bool.eq_false_iff]
    exact fun hp => hany (List.any_eq_true.2 ⟨g, hg, hp⟩)

end Walk

namespace Connectivity

variable {c : Connectivity} {step : Halfedge → Halfedge} {a : Halfedge} {l : List Halfedge}

/-- Distinct stored halfedges are no more than there are places for them. -/
theorem length_le_halfedgeCount (hn : l.Nodup) (hl : ∀ h ∈ l, h.edge.slot < c.edges.size) :
    l.length ≤ c.halfedgeCount := by
  have hnodup : (l.map Halfedge.position).Nodup :=
    hn.map_on fun a _ b _ => Halfedge.position_inj.1
  -- A stored halfedge has a position below the number of halfedges, and different ones have different positions.
  have hsub : l.map Halfedge.position ⊆ List.range c.halfedgeCount := by
    intro n hmem
    obtain ⟨h, hh, rfl⟩ := List.mem_map.1 hmem
    have hslot := hl h hh
    rw [List.mem_range, halfedgeCount, Halfedge.position]
    have hback : h.back.toNat ≤ 1 := Bool.toNat_le h.back
    omega
  calc l.length = (l.map Halfedge.position).length := (List.length_map _).symm
    _ ≤ (List.range c.halfedgeCount).length := (hnodup.subperm hsub).length_le
    _ = c.halfedgeCount := List.length_range

/-- A walk along an orbit of stored halfedges closes, and meets the orbit. -/
theorem walk_of_orbit (h : Orbit step (a :: l)) (hl : ∀ x ∈ a :: l, x.edge.slot < c.edges.size) :
    c.walk step a = ⟨a :: l, true⟩ := by
  refine Walk.follow_of_leads h.leads_head (List.nodup_cons.1 h.nodup).1 ?_
  have hlen := length_le_halfedgeCount h.nodup hl
  rw [List.length_cons] at hlen
  omega

/-- A walk that closes meets the orbit of its start. -/
theorem orbit_of_closed (hclosed : (c.walk step a).closed = true) :
    ∃ r, c.walk step a = ⟨a :: r, true⟩ ∧ Orbit step (a :: r) := by
  obtain ⟨r, hwalk, hnodup, hleads⟩ := Walk.leads_of_closed hclosed
  refine ⟨r, hwalk, hnodup, fun x hx => ?_⟩
  obtain rfl : a = x := by simpa using hx
  exact hleads

end Connectivity

end RegionMesh
