import RegionMesh.Connectivity.Check
import RegionMesh.Proofs.Answers
import RegionMesh.Proofs.Connectivity.Walks

/-!
# The parts of the check

What each part of the check asks of the links. The parts that look at one vertex, halfedge or facet are decided by the
links at this element alone (`checkOutgoing_eq_ok_iff` and its likes). Those that set or take away marks say what became
of the marks (`markAlong_eq_ok`, `markAlong_ok`). Where the check as a whole succeeds, every part does
(`parts_of_check`).
-/

namespace RegionMesh

namespace Connectivity

variable {c : Connectivity} {v : Vertex} {h : Halfedge} {f : Facet}

/-! ## Marks -/

/-- Marking the rest of a path after its first halfedge marks the whole path. -/
theorem ite_mem_cons {marked before : Bool} {g h : Halfedge} {rest : List Halfedge} :
    (if g ∈ rest then marked else if h = g then marked else before) = if g ∈ h :: rest then marked else before := by
  by_cases hgr : g ∈ rest
  · rw [if_pos hgr, if_pos (List.mem_cons_of_mem h hgr)]
  · simp [hgr, eq_comm]

/-- Marking along a closed walk succeeds if it meets every halfedge once, none with the mark, and only accepted
ones. What would be reported for a halfedge met again does not matter. -/
theorem markAlong_eq_ok (marked : Bool) {accepts : Halfedge → Except LinkFault Unit} {w : Walk} {m : Marks}
    (hclosed : w.closed = true) (hn : w.path.Nodup) (hm : ∀ h ∈ w.path, m.contains h ≠ marked)
    (ha : ∀ h ∈ w.path, accepts h = .ok ()) :
    ∃ m', (∀ again, markAlong marked again accepts w m = .ok m') ∧
      ∀ h, m'.contains h = if h ∈ w.path then marked else m.contains h := by
  obtain ⟨path, closed⟩ := w
  obtain rfl : closed = true := hclosed
  simp only at hn hm ha ⊢
  -- The walk keeps its flag while its path gets shorter.
  suffices hgo : ∀ w : Walk, w.closed = true →
      ∃ m', (∀ again, markAlong.go marked again accepts w path m = .ok m') ∧
        ∀ h, m'.contains h = if h ∈ path then marked else m.contains h by
    exact hgo ⟨path, true⟩ rfl
  intro w hw
  induction path generalizing m with
  | nil =>
    refine ⟨m, fun again => ?_, by simp⟩
    unfold markAlong.go
    rw [if_pos hw]
  | cons h rest ih =>
    rw [List.nodup_cons] at hn
    have hrest : ∀ g ∈ rest, (m.put h marked).contains g ≠ marked := by
      intro g hg
      have hhg : h ≠ g := by
        rintro rfl
        exact hn.1 hg
      rw [Marks.contains_put, if_neg hhg]
      exact hm g (List.mem_cons_of_mem h hg)
    obtain ⟨m', hgo, hm'⟩ := ih hn.2 hrest fun g hg => ha g (List.mem_cons_of_mem h hg)
    refine ⟨m', fun again => ?_, ?_⟩
    · unfold markAlong.go
      rw [if_neg (hm h List.mem_cons_self), ha h List.mem_cons_self]
      exact hgo again
    · intro g
      rw [hm', Marks.contains_put, ite_mem_cons]

/-- Where marking along a walk succeeds, the walk closes, every halfedge is accepted, and those on the walk and no
others get the mark. -/
theorem markAlong_ok {marked : Bool} {again : Halfedge → LinkFault}
    {accepts : Halfedge → Except LinkFault Unit} {w : Walk} {m m' : Marks}
    (hok : markAlong marked again accepts w m = .ok m') :
    w.closed = true ∧ (∀ g ∈ w.path, accepts g = .ok ()) ∧
      ∀ g, m'.contains g = if g ∈ w.path then marked else m.contains g := by
  obtain ⟨path, closed⟩ := w
  -- The walk keeps its flag while its path gets shorter.
  suffices hgo : ∀ w : Walk, markAlong.go marked again accepts w path m = .ok m' →
      w.closed = true ∧ (∀ g ∈ path, accepts g = .ok ()) ∧
        ∀ g, m'.contains g = if g ∈ path then marked else m.contains g by
    exact hgo ⟨path, closed⟩ hok
  clear hok
  intro w hok
  induction path generalizing m with
  | nil =>
    unfold markAlong.go at hok
    split at hok
    · rename_i hclosed
      obtain rfl := Except.ok.inj hok
      exact ⟨hclosed, by simp, by simp⟩
    · cases hok
  | cons h rest ih =>
    unfold markAlong.go at hok
    split at hok
    · cases hok
    · cases haccept : accepts h with
      | error e => simp [haccept] at hok
      | ok u =>
        simp only [haccept] at hok
        obtain ⟨hclosed, hall, hset⟩ := ih hok
        refine ⟨hclosed, List.forall_mem_cons.2 ⟨haccept, hall⟩, fun g => ?_⟩
        rw [hset, Marks.contains_put, ite_mem_cons]

/-! ## What each part asks -/

/-- A halfedge that is neither behind the storage nor deleted is live. -/
theorem isLive_iff_of_guards : ¬ c.edges.size ≤ h.edge.slot ∧ ¬ (!c.isLiveEdge h.edge) = true ↔ c.IsLive h := by
  -- A halfedge behind the storage is not live either.
  rw [Bool.not_eq_true, Bool.not_eq_false']
  exact and_iff_right_of_imp fun hlive => Nat.not_le.2 (slot_lt_of_isLiveEdge hlive)

/-- The halfedge that a vertex stores passes if it is live and leaves the vertex, and unless it is on the border, no
other halfedge around the vertex is. -/
theorem checkOutgoing_eq_ok_iff : c.checkOutgoing v h = .ok () ↔
    c.IsLive h ∧ c.tail h = v ∧ (c.facetOf h ≠ none → (c.fan v).meets c.isBorder = .ok false) := by
  simp only [checkOutgoing, bind, Except.bind, throw, throwThe, MonadExceptOf.throw, pure, Except.pure, guard_eq_ok]
  rw [← and_assoc, isLive_iff_of_guards]
  refine and_congr_right fun _ => ?_
  -- On the border there is no search.
  by_cases hb : c.isBorder h = true
  · simp [hb, (isBorder_iff h).1 hb]
  · have hf : c.facetOf h ≠ none := fun hnone => hb ((isBorder_iff h).2 hnone)
    rw [Bool.not_eq_true] at hb
    cases (c.fan v).meets c.isBorder with
    | error e => simp [hb, hf]
    | ok met => cases met <;> simp [hb, hf]

/-- The links of a halfedge pass if they lead to live elements and agree with those of its neighbours. -/
theorem checkLinks_eq_ok_iff : c.checkLinks h = .ok () ↔
    c.IsLive (c.prev h) ∧ c.IsLive (c.next h) ∧ c.isLiveVertex (c.head h) = true ∧
      (∀ f, c.facetOf h = some f → c.isLiveFacet f = true) ∧ c.next (c.prev h) = h ∧ c.prev (c.next h) = h ∧
      c.head h = c.tail (c.next h) ∧ c.tail h = c.head (c.prev h) := by
  have hfacet : ¬ (c.record h).facet.any (!c.isLiveFacet ·) = true ↔
      ∀ f, c.facetOf h = some f → c.isLiveFacet f = true := by
    rw [facetOf]
    cases (c.record h).facet <;> simp
  simp only [checkLinks, bind, Except.bind, throw, throwThe, MonadExceptOf.throw, pure, Except.pure, guard_eq_ok,
    hfacet]
  simp [IsLive, next, prev, head, not_or]

/-- A halfedge passes if it joins different vertices, its links pass, and it is met around both of its ends. -/
theorem checkHalfedge_eq_ok_iff : c.checkHalfedge h = .ok () ↔
    c.tail h ≠ c.head h ∧ c.checkLinks h = .ok () ∧ h ∈ (c.fan (c.tail h)).path ∧
      h ∈ (c.fanIn (c.head h)).path := by
  rw [← Walk.meets_eq_true, ← Walk.meets_eq_true]
  simp only [checkHalfedge, bind, Except.bind, throw, throwThe, MonadExceptOf.throw, pure, Except.pure, guard_eq_ok]
  refine and_congr_right fun _ => ?_
  cases c.checkLinks h with
  | error e => simp
  | ok u =>
    -- Either search may go on for ever, and then the halfedge does not pass either.
    cases (c.fan (c.tail h)).meets (· = h) with
    | error e => simp
    | ok out =>
      cases (c.fanIn (c.head h)).meets (· = h) with
      | error e => cases out <;> simp
      | ok into => cases out <;> cases into <;> simp

/-- A facet passes if it starts at a live halfedge of its own whose loop closes and has at least three halfedges. -/
theorem checkFacet_eq_ok_iff : c.checkFacet f = .ok () ↔
    c.IsLive (c.start f) ∧ c.facetOf (c.start f) = some f ∧ (c.ring f).closed = true ∧
      3 ≤ (c.ring f).path.length := by
  simp only [checkFacet, bind, Except.bind, throw, throwThe, MonadExceptOf.throw, pure, Except.pure, guard_eq_ok]
  simp [IsLive]

/-- A vertex whose fan passes stores nothing or a halfedge that passes, and its fan closes. -/
theorem checkVertex_ok {m m' : Marks} (hok : c.checkVertex m v = .ok m') :
    (∀ h, c.outgoing v = some h → c.checkOutgoing v h = .ok ()) ∧ (c.fan v).closed = true := by
  unfold checkVertex at hok
  cases ho : c.outgoing v with
  | none =>
    rw [ho] at hok
    obtain ⟨m₁, hset, -⟩ := bind_eq_ok.1 hok
    exact ⟨by simp, (markAlong_ok hset).1⟩
  | some a =>
    rw [ho] at hok
    -- The stored halfedge is checked first, and then the fan is marked, which it is only if it closes.
    obtain ⟨_, hstored, hok⟩ := bind_eq_ok.1 hok
    obtain ⟨m₁, hset, -⟩ := bind_eq_ok.1 hok
    refine ⟨fun h hh => ?_, (markAlong_ok hset).1⟩
    obtain rfl : a = h := Option.some.inj hh
    exact hstored

/-- Every part of a check that succeeds does. -/
theorem parts_of_check (hc : c.check = .ok ()) :
    (∀ v, c.isLiveVertex v = true → ∃ m m', c.checkVertex m v = .ok m') ∧
    (∀ h, c.IsLive h → c.checkHalfedge h = .ok ()) ∧
    (∃ m₁ m₂ m₃, c.liveHalfedges.foldlM (c.checkLoop true) m₁ = .ok m₂ ∧
      c.liveHalfedges.foldlM (c.checkLoop false) m₂ = .ok m₃) ∧
    ∀ f, c.isLiveFacet f = true → c.checkFacet f = .ok () := by
  unfold check at hc
  obtain ⟨m₁, hvertices, hc⟩ := bind_eq_ok.1 hc
  obtain ⟨_, hhalfedges, hc⟩ := bind_eq_ok.1 hc
  obtain ⟨m₂, hset, hc⟩ := bind_eq_ok.1 hc
  obtain ⟨m₃, htaken, hfacets⟩ := bind_eq_ok.1 hc
  exact ⟨fun v hv => exists_of_foldlM hvertices v (mem_liveVertices.2 hv),
    fun h hh => forM_eq_ok.1 hhalfedges h (mem_liveHalfedges.2 hh), ⟨m₁, m₂, m₃, hset, htaken⟩,
    fun f hf => forM_eq_ok.1 hfacets f (mem_liveFacets.2 hf)⟩

end Connectivity

end RegionMesh
