import RegionMesh.Proofs.Connectivity.Accepted
import RegionMesh.Proofs.Connectivity.Extended
import RegionMesh.Proofs.Connectivity.Turns

/-!
# What adding a facet changes

On links that are in order an attempt to add a facet comes to an end (`WellFormed.attemptEnds`): the fans around its
corners close, and where fans are to be moved there is a gap to be found. A facet that is added is the next one in
storage, has the corners that were asked for in this order, and brings an edge for every two consecutive corners that no
halfedge joins yet, and no other edge (`Placement.endsFrom_attach`). The links stay in order, and the old elements are
as they were (`addFacet_effects`).
-/

namespace RegionMesh

namespace Connectivity

variable {c c' : Connectivity} {vs : List Vertex} {existing : List (Option Halfedge)}
  {moved : List (Halfedge × Halfedge)} {slot : ℕ}

/-! ## The edges behind a slot -/

/-- What the first sides of the edges from a slot on join, in storage order. -/
def endsFrom (c : Connectivity) (slot : ℕ) : List (Vertex × Vertex) :=
  (List.range' slot (c.edges.size - slot)).map fun i => c.ends (Edge.side ⟨i⟩ false)

/-- The pairs of consecutive vertices that no halfedge joins in their order. -/
def unjoined (c : Connectivity) (vs : List Vertex) : List (Vertex × Vertex) :=
  (cyclicPairs vs).filter fun x => ∀ h ∈ c.liveHalfedges, c.ends h ≠ x

/-- What edges join depends on how many there are and on where halfedges end. -/
theorem endsFrom_congr (hsize : c'.edges.size = c.edges.size) (hhead : ∀ g, c'.head g = c.head g) :
    c'.endsFrom slot = c.endsFrom slot := by
  unfold endsFrom ends tail
  simp only [hsize, hhead]

/-- The edges from a slot on are that of the slot and those behind it. -/
theorem endsFrom_eq_cons (h : slot < c.edges.size) :
    c.endsFrom slot = c.ends (Edge.side ⟨slot⟩ false) :: c.endsFrom (slot + 1) := by
  have hlen : c.edges.size - slot = (c.edges.size - (slot + 1)) + 1 := by omega
  unfold endsFrom
  rw [hlen, List.range'_succ, List.map_cons]

/-- As many edges are listed as there are from the slot on. -/
theorem length_endsFrom : (c.endsFrom slot).length = c.edges.size - slot := by
  unfold endsFrom
  rw [List.length_map, List.length_range']

/-- Edges that a facet brings are stored behind the others. -/
theorem size_le_pushSides (ends : List ((Vertex × Vertex) × RingSide)) (c : Connectivity) :
    c.edges.size ≤ (pushSides ends c).edges.size := by
  induction ends generalizing c with
  | nil => exact Nat.le_refl _
  | cons x rest ih =>
    refine Nat.le_trans ?_ (ih _)
    dsimp only
    split
    · rw [size_edges_pushEdge]
      exact Nat.le_succ _
    · exact Nat.le_refl _

/-- Halfedges that are stored already end where they did when a facet brings edges. -/
theorem head_pushSides (ends : List ((Vertex × Vertex) × RingSide)) {g : Halfedge}
    (hg : g.edge.slot < c.edges.size) : (pushSides ends c).head g = c.head g := by
  induction ends generalizing c with
  | nil => rfl
  | cons x rest ih =>
    -- Only a side that the facet brings adds a record, and it comes behind those that are stored.
    rcases hx : x.2.fresh
    · have hskip : pushSides (x :: rest) c = pushSides rest c := by simp [pushSides, hx]
      rw [hskip, ih hg]
    · have hpush : pushSides (x :: rest) c = pushSides rest (c.pushEdge x.1.1 x.1.2) := by simp [pushSides, hx]
      have hlt : g.edge.slot < (c.pushEdge x.1.1 x.1.2).edges.size := by
        rw [size_edges_pushEdge]
        exact Nat.lt_succ_of_lt hg
      rw [hpush, ih hlt]
      exact congrArg HalfedgeRecord.head (record_pushEdge c (Nat.ne_of_lt hg) x.1.1 x.1.2)

/-- The edges that the sides of a facet bring are stored in the order of the sides. -/
theorem endsFrom_pushSides (ends : List ((Vertex × Vertex) × RingSide)) (c : Connectivity) :
    (pushSides ends c).endsFrom c.edges.size = (ends.filter (·.2.fresh)).map Prod.fst := by
  induction ends generalizing c with
  | nil => simp [pushSides, endsFrom]
  | cons x rest ih =>
    rcases hx : x.2.fresh
    · have hskip : pushSides (x :: rest) c = pushSides rest c := by simp [pushSides, hx]
      rw [hskip, ih, List.filter_cons_of_neg (by simp [hx])]
    · have hpush : pushSides (x :: rest) c = pushSides rest (c.pushEdge x.1.1 x.1.2) := by simp [pushSides, hx]
      have hsize : (c.pushEdge x.1.1 x.1.2).edges.size = c.edges.size + 1 := c.size_edges_pushEdge _ _
      have hrest := ih (c.pushEdge x.1.1 x.1.2)
      rw [hsize] at hrest
      have hle := size_le_pushSides rest (c.pushEdge x.1.1 x.1.2)
      -- The edge of the first side is stored first, and keeps its place and its ends.
      have hends : (pushSides rest (c.pushEdge x.1.1 x.1.2)).ends (Edge.side ⟨c.edges.size⟩ false) = x.1 := by
        have hhead : ∀ back, (pushSides rest (c.pushEdge x.1.1 x.1.2)).head ⟨⟨c.edges.size⟩, back⟩ =
            if back then x.1.1 else x.1.2 := by
          intro back
          rw [head_pushSides _ (by rw [hsize]; exact Nat.lt_succ_self _)]
          exact c.head_pushEdge _ _ back
        exact Prod.ext (hhead true) (hhead false)
      rw [hpush, endsFrom_eq_cons (by omega), hends, hrest, List.filter_cons_of_pos (by simp [hx]), List.map_cons]

namespace Placement

/-- The sides that the facet brings are those that no halfedge joins yet. -/
theorem map_fresh (hc : c.Linked) (h : c.Placement vs existing moved) :
    ((((cyclicPairs vs).zip (ringSides existing c.edges.size)).filter (·.2.fresh)).map Prod.fst) =
      c.unjoined vs := by
  have hfst : ((cyclicPairs vs).zip (ringSides existing c.edges.size)).map Prod.fst = cyclicPairs vs := by
    refine List.map_fst_zip ?_
    rw [length_cyclicPairs, h.length_sides]
  unfold unjoined
  conv_rhs => rw [← hfst, List.filter_map]
  refine congrArg (List.map Prod.fst) (List.filter_congr ?_)
  rintro ⟨⟨u, v⟩, s⟩ hs
  rcases hf : s.fresh
  · -- An existing side joins its corners itself.
    obtain ⟨hlive, htail, hhead, -⟩ := h.old hc hs hf
    have hjoined : ¬ ∀ g ∈ c.liveHalfedges, c.ends g ≠ (u, v) := fun hall =>
      hall s.inner (mem_liveHalfedges.2 hlive) (Prod.ext htail hhead)
    simpa using hjoined
  · have hnone : ∀ g ∈ c.liveHalfedges, c.ends g ≠ (u, v) := by
      intro g hg he
      obtain ⟨htail, hhead⟩ := Prod.mk.inj he
      exact h.new hc hs hf (mem_liveHalfedges.1 hg) htail hhead
    simpa using hnone

/-- The new edges join the consecutive corners that no halfedge joins yet. -/
theorem endsFrom_attach (hc : c.Linked) (h : c.Placement vs existing moved) :
    (c.attach vs (ringSides existing c.edges.size) moved).2.endsFrom c.edges.size = c.unjoined vs := by
  have hsame := (c.joined vs (ringSides existing c.edges.size) moved).sameLinks_preferBorders
    (c.adjusted vs (ringSides existing c.edges.size))
  have hchanged := edges_changeCorners (c := c)
    ((successors vs).zip (cyclicPairs (ringSides existing c.edges.size)))
  have hpushed := endsFrom_pushSides ((cyclicPairs vs).zip (ringSides existing c.edges.size))
    (changeCorners ((successors vs).zip (cyclicPairs (ringSides existing c.edges.size))) c).2
  -- What the corners store makes no difference to the edges, and neither do the links.
  rw [hchanged, h.map_fresh hc] at hpushed
  rw [attach_eq, endsFrom_congr (congrArg Array.size hsame.edges) hsame.head,
    endsFrom_congr (size_edges_joined c vs _ moved) (head_joined c vs _ moved)]
  exact hpushed

end Placement

/-! ## Attempts that end -/

/-- The walks on which an attempt to add a facet sets out come to an end. -/
structure AttemptEnds (c : Connectivity) (vs : List Vertex) : Prop where
  /-- The fan around each corner closes, so the search there for a side ends. -/
  fans : ∀ v ∈ vs, (c.fan v).closed = true
  /-- Where two existing sides are to be brought together, turning behind the second one leads to a gap. -/
  gaps : ∀ existing, (cyclicPairs vs).mapM c.borderSide = .ok existing →
    ∀ p n, (some p, some n) ∈ cyclicPairs existing → c.next p ≠ n → c.gapAfter n.opposite ≠ none
  /-- When a corner chooses another halfedge on the border, after those before it in the list have chosen theirs, its
  fan closes. -/
  choices : ∀ existing moved, (cyclicPairs vs).mapM c.borderSide = .ok existing → c.relinks existing = .ok moved →
    ∀ before v after, c.adjusted vs (ringSides existing c.edges.size) = before ++ v :: after →
      ((before.foldl preferBorder (c.joined vs (ringSides existing c.edges.size) moved)).fan v).closed = true

/-- On links that are in order an attempt to add a facet ends. -/
theorem WellFormed.attemptEnds (hc : c.WellFormed) (hlive : ∀ v ∈ vs, c.isLiveVertex v = true) (hn : vs.Nodup)
    (hthree : 3 ≤ vs.length) : c.AttemptEnds vs where
  fans v hv := (hc.fan_spec (hlive v hv)).1
  gaps existing hsides p n hpn hne := by
    obtain ⟨hin, hout, hpn', hp, hnlive, hpb, -⟩ := corner_of_existing hc.toLinked hlive hsides hpn
    obtain ⟨k, y, m, -, -, hgap⟩ := exists_gap_behind hc.toLinked hp hnlive hpn'
      (head_ne_of_sides hn hthree hin hout) hpb
    simp [hgap]
  choices existing moved hsides hmoved before v after hsplit := by
    have h : c.Placement vs existing moved := ⟨hlive, hn, hthree, hsides, hmoved⟩
    have hj := h.joins hc.toLinked
    have hadjusted : ∀ w ∈ before ++ v :: after,
        (c.joined vs (ringSides existing c.edges.size) moved).isLiveVertex w = true := by
      intro w hw
      rw [← hsplit] at hw
      obtain ⟨p, n, hk, -⟩ := h.mem_adjusted.1 hw
      rw [hj.liveVertex]
      exact hlive w (corner_mem h.length_sides hk)
    -- The choices that were made before leave the links as they are.
    have hbefore : ∀ w ∈ before, (c.joined vs (ringSides existing c.edges.size) moved).isLiveVertex w = true :=
      fun w hw => hadjusted w (List.mem_append_left _ hw)
    have hlinked := (preferBorders_spec (Placement.linked_joined hc.toLinked h hj) hbefore).1
    have hsame := (c.joined vs (ringSides existing c.edges.size) moved).sameLinks_preferBorders before
    refine (hlinked.fan_spec ?_).1
    rw [hsame.live]
    exact hadjusted v (by simp)

/-! ## Facets that are added -/

/-- What there is after a facet was added along a list of vertices. -/
structure FacetAdded (c : Connectivity) (vs : List Vertex) (f : Facet) (c' : Connectivity) : Prop
    extends c.Extends c' where
  /-- The check accepts the links, and the rings hold all halfedges of their facets. -/
  accepted : c'.Accepted
  /-- The facet is the next one in storage. -/
  facet : f = ⟨c.facets.size⟩
  /-- The facet is live. -/
  live : c'.isLiveFacet f = true
  /-- The ring of the facet closes. -/
  closed : (c'.ring f).closed = true
  /-- The facet has the corners that were asked for, in this order. -/
  corners : c'.corners f = vs
  /-- The new edges join the consecutive corners that no halfedge joined. -/
  newEnds : c'.endsFrom c.edges.size = c.unjoined vs
  /-- There are no other new edges. -/
  edgeCount : c'.edges.size = c.edges.size + (c.unjoined vs).length
  /-- The new edges are live. -/
  newLive : ∀ e : Edge, c.edges.size ≤ e.slot → e.slot < c'.edges.size → c'.isLiveEdge e = true
  /-- There are no new vertices. -/
  vertexCount : c'.vertices.size = c.vertices.size
  /-- There is one more facet. -/
  facetCount : c'.facets.size = c.facets.size + 1

/-- Adding a facet to links that are in order. -/
theorem WellFormed.facetAdded (hc : c.WellFormed) (hlive : ∀ v ∈ vs, c.isLiveVertex v = true) (hn : vs.Nodup)
    (hthree : 3 ≤ vs.length) {f : Facet} (h : Connectivity.addFacet vs c = (.ok f, c')) : c.FacetAdded vs f c' := by
  obtain ⟨rfl, hattached, -⟩ := hc.addFacet hlive hn hthree h
  have hextends := hc.extends_addFacet hlive hn hthree h
  have hwell := hattached.wellFormed
  have hnew : c'.isLiveFacet ⟨c.facets.size⟩ = true := (hattached.liveFacet _).2 (Or.inl rfl)
  -- The edges behind the old ones are those that the placement of the facet stored.
  have hends : c'.endsFrom c.edges.size = c.unjoined vs := by
    obtain ⟨existing, moved, hsides, hmoved, -, hattach⟩ := addFacet_eq_ok.1 h
    have hplace : c.Placement vs existing moved := ⟨hlive, hn, hthree, hsides, hmoved⟩
    rw [← hplace.endsFrom_attach hc.toLinked, hattach]
  have hlivefrom : LiveEdgesFrom c.edges.size c := fun e hle hlt => absurd hlt (Nat.not_lt.2 hle)
  exact {
    toExtends := hextends
    accepted := accepted_iff.2 hwell
    facet := rfl
    live := hnew
    closed := hwell.ring_closed hnew
    corners := hattached.corners_new
    newEnds := hends
    edgeCount := by
      have hlen := congrArg List.length hends
      have hle := hextends.size_edges
      rw [length_endsFrom] at hlen
      omega
    newLive := hlivefrom.addFacet h
    vertexCount := hattached.size_vertices
    facetCount := hattached.size_facets
  }

/-- Whether or not a facet is added, the links stay in order. -/
theorem WellFormed.afterAddFacet (hc : c.WellFormed) (vs : List Vertex) (hlive : ∀ v ∈ vs, c.isLiveVertex v = true)
    (hn : vs.Nodup) (hthree : 3 ≤ vs.length) : (Connectivity.addFacet vs c).2.WellFormed := by
  rcases h : Connectivity.addFacet vs c with ⟨e | f, c'⟩
  · rw [addFacet_eq_error h]
    exact hc
  · exact (hc.addFacet hlive hn hthree h).2.1.wellFormed

/-- On links that the check accepts and whose rings hold all halfedges of their facets, an attempt to add a facet ends,
and if it succeeds, it has these effects and no others. -/
theorem addFacet_effects (hc : c.Accepted) (hlive : ∀ v ∈ vs, c.isLiveVertex v = true) (hn : vs.Nodup)
    (hthree : 3 ≤ vs.length) :
    c.AttemptEnds vs ∧ ∀ f c', Connectivity.addFacet vs c = (.ok f, c') → c.FacetAdded vs f c' := by
  have hwell := accepted_iff.1 hc
  exact ⟨hwell.attemptEnds hlive hn hthree, fun f c' h => hwell.facetAdded hlive hn hthree h⟩

/-- Three triangles that meet in one vertex. -/
def pinwheel : Connectivity :=
  [[0, 1, 2], [0, 3, 4], [0, 5, 6]].foldl (fun c vs => (Connectivity.addFacet (vs.map Vertex.mk) c).2)
    ((List.range 7).foldl (fun c _ => c.addVertex.2) {})

/-- The pinwheel is in order, as each triangle is added to links that are. -/
theorem wellFormed_pinwheel : pinwheel.WellFormed := by
  have hvertices : ∀ l : List ℕ, (l.foldl (fun c _ => c.addVertex.2) ({} : Connectivity)).WellFormed := by
    intro l
    exact List.foldlRecOn l _ wellFormed_empty fun c hc _ _ => hc.addVertex
  have hone := (hvertices (List.range 7)).afterAddFacet ([0, 1, 2].map Vertex.mk) (by decide +kernel) (by decide)
    (by decide)
  have htwo := hone.afterAddFacet ([0, 3, 4].map Vertex.mk) (by decide +kernel) (by decide) (by decide)
  exact htwo.afterAddFacet ([0, 5, 6].map Vertex.mk) (by decide +kernel) (by decide) (by decide)

/-- A fourth triangle between two of those that meet in one vertex. At this vertex both of its sides exist, and the
third triangle hangs between them. -/
theorem addFacet_effects_pinwheel :
    let vs := [1, 0, 6].map Vertex.mk
    pinwheel.Accepted ∧ (∀ v ∈ vs, pinwheel.isLiveVertex v = true) ∧ vs.Nodup ∧ 3 ≤ vs.length ∧
      pinwheel.AttemptEnds vs ∧
        ∃ f c', Connectivity.addFacet vs pinwheel = (.ok f, c') ∧ pinwheel.FacetAdded vs f c' := by
  have haccepted := accepted_iff.2 wellFormed_pinwheel
  have hlive : ∀ v ∈ [1, 0, 6].map Vertex.mk, pinwheel.isLiveVertex v = true := by decide +kernel
  -- That the facet is added is evaluated, and what it does is read off the theorem.
  have hok : ((Connectivity.addFacet ([1, 0, 6].map Vertex.mk) pinwheel).1).isOk = true := by decide +kernel
  obtain ⟨hends, hadded⟩ := addFacet_effects haccepted hlive (by decide) (by decide)
  refine ⟨haccepted, hlive, by decide, by decide, hends, ?_⟩
  rcases h : Connectivity.addFacet ([1, 0, 6].map Vertex.mk) pinwheel with ⟨e | f, c'⟩
  · rw [h] at hok
    cases hok
  · exact ⟨f, c', rfl, hadded f c' h⟩

end Connectivity

end RegionMesh
