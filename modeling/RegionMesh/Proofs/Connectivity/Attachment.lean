import RegionMesh.Proofs.Connectivity.Placement

/-!
# The stages of an attachment

A facet is attached in stages: the vertices at its corners store other halfedges (`changeCorners_spec`), the
new edges and the facet are stored (`pushSides_spec`), the sides get the facet (`facetOf_setFacets`), the
links are set (`next_linkAll`, `prev_linkAll`), and at some corners another halfedge on the border is chosen
(`preferBorders_spec`). Each stage changes some of the links and keeps the others.

An edge could be refused after the vertices at the corners were changed, but none is: the corners where a side ends
and starts link both of its halfedges (`isLinked_of_corners`), so the stages run to their end (`attachAlong_eq`).
-/

namespace RegionMesh

namespace Connectivity

variable {c : Connectivity}

/-- What every step keeps, a sequence of steps keeps. -/
theorem foldl_keeps {α β : Type} (field : Connectivity → β) {step : Connectivity → α → Connectivity}
    (h : ∀ c a, field (step c a) = field c) (l : List α) (c : Connectivity) :
    field (l.foldl step c) = field c := by
  induction l generalizing c with
  | nil => rfl
  | cons a l ih => rw [List.foldl_cons, ih, h]

/-- Where every step sets a field at one key, a sequence of steps sets it at all keys, as long as no key gets two
values. -/
theorem foldl_sets {α κ β : Type} [DecidableEq κ] (field : Connectivity → κ → β) (key : α → κ) (value : α → β)
    (fits : Connectivity → α → Prop) {step : Connectivity → α → Connectivity}
    (hset : ∀ c a, fits c a → ∀ k, field (step c a) k = if k = key a then value a else field c k)
    (hfits : ∀ c a b, fits c b → fits (step c a) b) {l : List α} {c : Connectivity}
    (hl : ∀ a ∈ l, fits c a) (hu : ∀ a ∈ l, ∀ b ∈ l, key a = key b → value a = value b) :
    (∀ a ∈ l, field (l.foldl step c) (key a) = value a) ∧
      ∀ k, k ∉ l.map key → field (l.foldl step c) k = field c k := by
  induction l generalizing c with
  | nil => exact ⟨by simp, fun _ _ => rfl⟩
  | cons b rest ih =>
    have hb := hset c b (hl b List.mem_cons_self)
    obtain ⟨hon, hoff⟩ := ih (fun a ha => hfits c b a (hl a (List.mem_cons_of_mem b ha)))
      fun a ha a' ha' => hu a (List.mem_cons_of_mem b ha) a' (List.mem_cons_of_mem b ha')
    refine ⟨fun a ha => ?_, fun k hk => ?_⟩
    · rw [List.foldl_cons]
      by_cases hmem : key a ∈ rest.map key
      · -- A later step sets the field at the same key, to the same value.
        obtain ⟨a', ha', he⟩ := List.mem_map.1 hmem
        rw [← he, hon a' ha']
        exact hu a' (List.mem_cons_of_mem b ha') a ha he
      · obtain rfl : a = b :=
          (List.mem_cons.1 ha).resolve_right fun har => hmem (List.mem_map_of_mem har)
        rw [hoff _ hmem, hb, if_pos rfl]
    · rw [List.map_cons, List.mem_cons, not_or] at hk
      rw [List.foldl_cons, hoff k hk.2, hb, if_neg hk.1]

/-! ## Vertices at the corners -/

/-- What changes at a corner depends on the edges, and on what its own vertex stores. -/
theorem cornerChange_congr {c' : Connectivity} {v : Vertex} {p n : RingSide}
    (he : c'.edges = c.edges) (ho : c'.outgoing v = c.outgoing v) :
    c'.cornerChange v p n = c.cornerChange v p n := by
  have hrecord : ∀ h, c'.record h = c.record h := by
    intro h
    unfold record
    rw [he]
  unfold cornerChange
  simp only [ho, next, prev, hrecord]

/-- Let a vertex store what a change at its corner says. -/
def storeAt (c : Connectivity) (v : Vertex) (change : CornerChange) : Connectivity :=
  match change.outgoing with
  | some h => c.setOutgoing v (some h)
  | none => c

/-- A change at a corner leaves the edges as they are. -/
@[simp]
theorem edges_storeAt (v : Vertex) (change : CornerChange) : (c.storeAt v change).edges = c.edges := by
  unfold storeAt
  split <;> rfl

/-- A change at a corner leaves the facets as they are. -/
@[simp]
theorem facets_storeAt (v : Vertex) (change : CornerChange) :
    (c.storeAt v change).facets = c.facets := by
  unfold storeAt
  split <;> rfl

/-- A change at a corner adds no vertex. -/
@[simp]
theorem size_vertices_storeAt (v : Vertex) (change : CornerChange) :
    (c.storeAt v change).vertices.size = c.vertices.size := by
  unfold storeAt
  split <;> simp

/-- The vertices are as live as before a change at a corner. -/
@[simp]
theorem isLiveVertex_storeAt (v w : Vertex) (change : CornerChange) :
    (c.storeAt v change).isLiveVertex w = c.isLiveVertex w := by
  unfold storeAt
  split <;> simp

/-- The vertex of the corner stores what the change says, or what it stored if the change says nothing. -/
theorem outgoing_storeAt {v : Vertex} (hv : v.slot < c.vertices.size) (change : CornerChange)
    (w : Vertex) : (c.storeAt v change).outgoing w =
      if w = v then change.outgoing.or (c.outgoing w) else c.outgoing w := by
  unfold storeAt
  cases change.outgoing with
  | none => simp
  | some h => simp [outgoing_setOutgoing c hv]

/-- The first corner is changed on the links as they are, and the others on those that come of it. -/
theorem changeCorners_cons (v : Vertex) (p n : RingSide) (rest : List (Vertex × RingSide × RingSide)) :
    changeCorners ((v, p, n) :: rest) c =
      ((v, c.cornerChange v p n) :: (changeCorners rest (c.storeAt v (c.cornerChange v p n))).1,
        (changeCorners rest (c.storeAt v (c.cornerChange v p n))).2) := rfl

/-- The edges do not see the changes at the corners. -/
@[simp]
theorem edges_changeCorners (corners : List (Vertex × RingSide × RingSide)) :
    (changeCorners corners c).2.edges = c.edges := by
  induction corners generalizing c with
  | nil => rfl
  | cons k rest ih =>
    rw [changeCorners_cons, ih, edges_storeAt]

/-- The facets do not see the changes at the corners. -/
@[simp]
theorem facets_changeCorners (corners : List (Vertex × RingSide × RingSide)) :
    (changeCorners corners c).2.facets = c.facets := by
  induction corners generalizing c with
  | nil => rfl
  | cons k rest ih =>
    rw [changeCorners_cons, ih, facets_storeAt]

/-- The changes at the corners add no vertex. -/
@[simp]
theorem size_vertices_changeCorners (corners : List (Vertex × RingSide × RingSide)) :
    (changeCorners corners c).2.vertices.size = c.vertices.size := by
  induction corners generalizing c with
  | nil => rfl
  | cons k rest ih =>
    rw [changeCorners_cons, ih, size_vertices_storeAt]

/-- The vertices are as live as before the changes at the corners. -/
@[simp]
theorem isLiveVertex_changeCorners (corners : List (Vertex × RingSide × RingSide)) (v : Vertex) :
    (changeCorners corners c).2.isLiveVertex v = c.isLiveVertex v := by
  induction corners generalizing c with
  | nil => rfl
  | cons k rest ih =>
    rw [changeCorners_cons, ih, isLiveVertex_storeAt]

/-- The records of the halfedges do not see the changes at the corners. -/
@[simp]
theorem record_changeCorners (corners : List (Vertex × RingSide × RingSide)) (g : Halfedge) :
    (changeCorners corners c).2.record g = c.record g := by
  unfold record
  rw [edges_changeCorners]

/-- A vertex that is no corner stores what it stored. -/
theorem outgoing_changeCorners_of_notMem {corners : List (Vertex × RingSide × RingSide)} {w : Vertex}
    (hs : ∀ k ∈ corners, k.1.slot < c.vertices.size) (hw : w ∉ corners.map Prod.fst) :
    (changeCorners corners c).2.outgoing w = c.outgoing w := by
  induction corners generalizing c with
  | nil => rfl
  | cons k rest ih =>
    obtain ⟨v, p, n⟩ := k
    rw [List.map_cons, List.mem_cons, not_or] at hw
    have hv : v.slot < c.vertices.size := hs (v, p, n) List.mem_cons_self
    -- The storage has the same size when the first corner is changed.
    have hrest : ∀ k ∈ rest, k.1.slot < (c.storeAt v (c.cornerChange v p n)).vertices.size := by
      intro k hk
      rw [size_vertices_storeAt]
      exact hs k (List.mem_cons_of_mem _ hk)
    rw [changeCorners_cons, ih hrest hw.2, outgoing_storeAt hv, if_neg hw.1]

/-- At different corners the changes do not depend on each other. -/
theorem changeCorners_spec {corners : List (Vertex × RingSide × RingSide)}
    (hn : (corners.map Prod.fst).Nodup) (hs : ∀ k ∈ corners, k.1.slot < c.vertices.size) :
    (changeCorners corners c).1 = corners.map (fun k => (k.1, c.cornerChange k.1 k.2.1 k.2.2)) ∧
      ∀ k ∈ corners, (changeCorners corners c).2.outgoing k.1 =
        (c.cornerChange k.1 k.2.1 k.2.2).outgoing.or (c.outgoing k.1) := by
  induction corners generalizing c with
  | nil => exact ⟨rfl, by simp⟩
  | cons k rest ih =>
    obtain ⟨v, p, n⟩ := k
    rw [List.map_cons, List.nodup_cons] at hn
    have hv : v.slot < c.vertices.size := hs (v, p, n) List.mem_cons_self
    have hrest : ∀ k ∈ rest, k.1.slot < (c.storeAt v (c.cornerChange v p n)).vertices.size := by
      intro k hk
      rw [size_vertices_storeAt]
      exact hs k (List.mem_cons_of_mem _ hk)
    -- The other corners do not see what `v` stores.
    have hother : ∀ k ∈ rest, (c.storeAt v (c.cornerChange v p n)).outgoing k.1 = c.outgoing k.1 := by
      intro k hk
      have hkv : k.1 ≠ v := fun he => hn.1 (List.mem_map.2 ⟨k, hk, he⟩)
      rw [outgoing_storeAt hv, if_neg hkv]
    have hsame : ∀ k ∈ rest, (c.storeAt v (c.cornerChange v p n)).cornerChange k.1 k.2.1 k.2.2 =
        c.cornerChange k.1 k.2.1 k.2.2 :=
      fun k hk => cornerChange_congr (edges_storeAt _ _) (hother k hk)
    obtain ⟨hmap, hout⟩ := ih hn.2 hrest
    rw [changeCorners_cons]
    refine ⟨?_, ?_⟩
    · have hrestmap :=
        calc (changeCorners rest (c.storeAt v (c.cornerChange v p n))).1
            = rest.map fun k => (k.1, (c.storeAt v (c.cornerChange v p n)).cornerChange k.1 k.2.1 k.2.2) :=
              hmap
          _ = rest.map fun k => (k.1, c.cornerChange k.1 k.2.1 k.2.2) :=
              List.map_congr_left fun k hk => congrArg (Prod.mk k.1) (hsame k hk)
      rw [List.map_cons, ← hrestmap]
    · intro k hk
      rcases List.mem_cons.1 hk with rfl | hk
      · rw [outgoing_changeCorners_of_notMem hrest hn.1, outgoing_storeAt hv, if_pos rfl]
      · rw [hout k hk, hsame k hk, hother k hk]

/-! ## The facet of the sides -/

/-- Give halfedges a facet, or none, one after another. -/
def setFacets (c : Connectivity) (l : List Halfedge) (f : Option Facet) : Connectivity :=
  l.foldl (fun c h => c.setFacet h f) c

section SetFacets

variable (l : List Halfedge) (f : Option Facet)

/-- Which facet some halfedges have makes no difference to the vertices. -/
@[simp]
theorem vertices_setFacets : (c.setFacets l f).vertices = c.vertices := by
  unfold setFacets
  apply foldl_keeps Connectivity.vertices
  exact fun c h => vertices_setFacet c h f

/-- Which facet some halfedges have makes no difference to the records of the facets. -/
@[simp]
theorem facets_setFacets : (c.setFacets l f).facets = c.facets := by
  unfold setFacets
  apply foldl_keeps Connectivity.facets
  exact fun c h => facets_setFacet c h f

/-- No edge is added when some halfedges get a facet. -/
@[simp]
theorem size_edges_setFacets : (c.setFacets l f).edges.size = c.edges.size := by
  unfold setFacets
  apply foldl_keeps (fun c => c.edges.size)
  exact fun c h => size_edges_setFacet c h f

/-- The edges are as live as before when some halfedges get a facet. -/
@[simp]
theorem isLiveEdge_setFacets (e : Edge) : (c.setFacets l f).isLiveEdge e = c.isLiveEdge e := by
  unfold setFacets
  apply foldl_keeps (fun c => c.isLiveEdge e)
  exact fun c h => isLiveEdge_setFacet c h f e

/-- All halfedges end where they did when some get a facet. -/
@[simp]
theorem head_setFacets (g : Halfedge) : (c.setFacets l f).head g = c.head g := by
  unfold setFacets
  apply foldl_keeps (fun c => c.head g)
  exact fun c h => head_setFacet c h f g

/-- All halfedges are followed by the same ones when some get a facet. -/
@[simp]
theorem next_setFacets (g : Halfedge) : (c.setFacets l f).next g = c.next g := by
  unfold setFacets
  apply foldl_keeps (fun c => c.next g)
  exact fun c h => next_setFacet c h f g

/-- All halfedges follow the same ones when some get a facet. -/
@[simp]
theorem prev_setFacets (g : Halfedge) : (c.setFacets l f).prev g = c.prev g := by
  unfold setFacets
  apply foldl_keeps (fun c => c.prev g)
  exact fun c h => prev_setFacet c h f g

variable {l}

/-- Stored halfedges of the list have the facet, and the others what they had. -/
theorem facetOf_setFacets (hl : ∀ h ∈ l, h.edge.slot < c.edges.size) (g : Halfedge) :
    (c.setFacets l f).facetOf g = if g ∈ l then f else c.facetOf g := by
  obtain ⟨hon, hoff⟩ := foldl_sets Connectivity.facetOf id (fun _ => f)
    (fun c h => h.edge.slot < c.edges.size) (fun c h hs => facetOf_setFacet c hs f)
    (fun c h k hk => by rwa [size_edges_setFacet]) hl fun _ _ _ _ _ => rfl
  by_cases hg : g ∈ l
  · rw [if_pos hg]
    exact hon g hg
  · rw [if_neg hg]
    exact hoff g (by rwa [List.map_id])

end SetFacets

/-- Give the sides of a facet the facet. -/
def giveFacet (sides : List RingSide) (f : Facet) (c : Connectivity) : Connectivity :=
  sides.foldl (fun c s => c.setFacet s.inner (some f)) c

/-- The sides get their facet through their inner halfedges. -/
theorem giveFacet_eq (sides : List RingSide) (f : Facet) (c : Connectivity) :
    giveFacet sides f c = c.setFacets (sides.map RingSide.inner) (some f) := by
  unfold giveFacet setFacets
  rw [List.foldl_map]

/-! ## Links -/

section LinkAll

variable (links : List (Halfedge × Halfedge))

/-- Links leave the vertices as they are. -/
@[simp]
theorem vertices_linkAll : (c.linkAll links).vertices = c.vertices := by
  unfold linkAll
  apply foldl_keeps Connectivity.vertices
  exact fun c x => vertices_link c x.1 x.2

/-- Links leave the facets as they are. -/
@[simp]
theorem facets_linkAll : (c.linkAll links).facets = c.facets := by
  unfold linkAll
  apply foldl_keeps Connectivity.facets
  exact fun c x => facets_link c x.1 x.2

/-- Links add no edge. -/
@[simp]
theorem size_edges_linkAll : (c.linkAll links).edges.size = c.edges.size := by
  unfold linkAll
  apply foldl_keeps (fun c => c.edges.size)
  exact fun c x => size_edges_link c x.1 x.2

/-- The edges are as live as before some links. -/
@[simp]
theorem isLiveEdge_linkAll (e : Edge) : (c.linkAll links).isLiveEdge e = c.isLiveEdge e := by
  unfold linkAll
  apply foldl_keeps (fun c => c.isLiveEdge e)
  exact fun c x => isLiveEdge_link c x.1 x.2 e

/-- All halfedges end where they did before some links. -/
@[simp]
theorem head_linkAll (g : Halfedge) : (c.linkAll links).head g = c.head g := by
  unfold linkAll
  apply foldl_keeps (fun c => c.head g)
  exact fun c x => head_link c x.1 x.2 g

/-- All halfedges have the facet that they had before some links. -/
@[simp]
theorem facetOf_linkAll (g : Halfedge) : (c.linkAll links).facetOf g = c.facetOf g := by
  unfold linkAll
  apply foldl_keeps (fun c => c.facetOf g)
  exact fun c x => facetOf_link c x.1 x.2 g

variable {links}

/-- The links between stored halfedges set their next ones, if none gets two. -/
theorem next_linkAll
    (hs : ∀ x ∈ links, x.1.edge.slot < c.edges.size ∧ x.2.edge.slot < c.edges.size)
    (hf : ∀ x ∈ links, ∀ y ∈ links, x.1 = y.1 → x = y) :
    (∀ x ∈ links, (c.linkAll links).next x.1 = x.2) ∧
      ∀ g, g ∉ links.map Prod.fst → (c.linkAll links).next g = c.next g := by
  unfold linkAll
  refine foldl_sets Connectivity.next Prod.fst Prod.snd
    (fun c x => x.1.edge.slot < c.edges.size ∧ x.2.edge.slot < c.edges.size)
    (fun c x hx => next_link c hx.1 hx.2) (fun c x y hy => ?_) hs ?_
  · rwa [size_edges_link]
  · exact fun x hx y hy he => congrArg Prod.snd (hf x hx y hy he)

/-- The links between stored halfedges set their previous ones, if none gets two. -/
theorem prev_linkAll
    (hs : ∀ x ∈ links, x.1.edge.slot < c.edges.size ∧ x.2.edge.slot < c.edges.size)
    (hf : ∀ x ∈ links, ∀ y ∈ links, x.2 = y.2 → x = y) :
    (∀ x ∈ links, (c.linkAll links).prev x.2 = x.1) ∧
      ∀ g, g ∉ links.map Prod.snd → (c.linkAll links).prev g = c.prev g := by
  unfold linkAll
  refine foldl_sets Connectivity.prev Prod.snd Prod.fst
    (fun c x => x.1.edge.slot < c.edges.size ∧ x.2.edge.slot < c.edges.size)
    (fun c x hx => prev_link c hx.1 hx.2) (fun c x y hy => ?_) hs ?_
  · rwa [size_edges_link]
  · exact fun x hx y hy he => congrArg Prod.fst (hf x hx y hy he)

end LinkAll

/-! ## Halfedges on the border -/

/-- The links are the same, but for the halfedges that vertices store. -/
structure SameLinks (c c' : Connectivity) : Prop where
  /-- The edges are the same. -/
  edges : c'.edges = c.edges
  /-- The facets are the same. -/
  facets : c'.facets = c.facets
  /-- There are as many vertices. -/
  size : c'.vertices.size = c.vertices.size
  /-- The same vertices are live. -/
  live : ∀ v, c'.isLiveVertex v = c.isLiveVertex v

namespace SameLinks

variable {c' c'' : Connectivity}

/-- Links are the same as themselves. -/
theorem refl (c : Connectivity) : c.SameLinks c := ⟨rfl, rfl, rfl, fun _ => rfl⟩

/-- Links that are the same as the same links are the same. -/
theorem trans (h : c.SameLinks c') (h' : c'.SameLinks c'') : c.SameLinks c'' :=
  ⟨h'.edges.trans h.edges, h'.facets.trans h.facets, h'.size.trans h.size,
    fun v => (h'.live v).trans (h.live v)⟩

/-- Records are the same on links that are the same. -/
theorem record (h : c.SameLinks c') (g : Halfedge) : c'.record g = c.record g := by
  unfold Connectivity.record
  rw [h.edges]

/-- Halfedges end at the same vertices. -/
theorem head (h : c.SameLinks c') (g : Halfedge) : c'.head g = c.head g := by
  unfold Connectivity.head
  rw [h.record]

/-- Halfedges start at the same vertices. -/
theorem tail (h : c.SameLinks c') (g : Halfedge) : c'.tail g = c.tail g := h.head g.opposite

/-- Halfedges are followed by the same ones. -/
theorem next (h : c.SameLinks c') (g : Halfedge) : c'.next g = c.next g := by
  unfold Connectivity.next
  rw [h.record]

/-- Halfedges follow the same ones. -/
theorem prev (h : c.SameLinks c') (g : Halfedge) : c'.prev g = c.prev g := by
  unfold Connectivity.prev
  rw [h.record]

/-- Halfedges have the same facets. -/
theorem facetOf (h : c.SameLinks c') (g : Halfedge) : c'.facetOf g = c.facetOf g := by
  unfold Connectivity.facetOf
  rw [h.record]

/-- The same halfedges are live. -/
theorem isLive (h : c.SameLinks c') (g : Halfedge) : c'.IsLive g ↔ c.IsLive g := by
  unfold Connectivity.IsLive Connectivity.isLiveEdge
  rw [h.edges]

/-- The same facets are live. -/
theorem isLiveFacet (h : c.SameLinks c') (f : Facet) : c'.isLiveFacet f = c.isLiveFacet f := by
  unfold Connectivity.isLiveFacet
  rw [h.facets]

/-- Facets start at the same halfedges. -/
theorem start (h : c.SameLinks c') (f : Facet) : c'.start f = c.start f := by
  unfold Connectivity.start
  rw [h.facets]

/-- A ring stays a ring on links that are the same. -/
theorem ringOf (h : c.SameLinks c') {f : Facet} {l : List Halfedge} (hl : c.RingOf f l) :
    c'.RingOf f l := by
  refine ⟨hl.orbit.congr fun g _ => h.next g, ?_, hl.length, fun g => ?_⟩
  · rw [h.start, hl.head]
  · rw [h.isLive, h.facetOf, hl.mem]

/-- A vertex that stores what it stored still has a halfedge on the border first. -/
theorem borderFirst (h : c.SameLinks c') {v : Vertex} (ho : c'.outgoing v = c.outgoing v)
    (hv : c.BorderFirst v) : c'.BorderFirst v :=
  hv.congr ho (fun a _ => h.facetOf a) fun g hg ht =>
    ⟨(h.isLive g).1 hg, (h.tail g).symm.trans ht, h.facetOf g⟩

/-- Links that are in order stay so if the vertices store other halfedges that leave them. -/
theorem linked (h : c.SameLinks c') (hc : c.Linked)
    (hout : ∀ v g, c.isLiveVertex v = true → c'.outgoing v = some g → c.IsLive g ∧ c.tail g = v)
    (hnone : ∀ v, c.isLiveVertex v = true → c'.outgoing v = none → c.outgoing v = none) :
    c'.Linked := by
  refine hc.congr h.live h.isLive h.head h.next h.prev (fun g hg => ?_) hout hnone
  rw [h.facetOf, h.facetOf]
  exact hc.facet_next hg

end SameLinks

/-- What a vertex stores makes no difference to the links. -/
theorem sameLinks_setOutgoing (c : Connectivity) (v : Vertex) (h : Option Halfedge) :
    c.SameLinks (c.setOutgoing v h) :=
  ⟨rfl, rfl, size_vertices_setOutgoing c v h, fun w => isLiveVertex_setOutgoing c v w h⟩

/-- A vertex may choose a halfedge on the border without a difference to the links. -/
theorem sameLinks_preferBorder (c : Connectivity) (v : Vertex) : c.SameLinks (c.preferBorder v) := by
  unfold preferBorder
  split
  · exact sameLinks_setOutgoing c v _
  · exact SameLinks.refl c

/-- Some vertices may do so one after another. -/
theorem sameLinks_preferBorders (c : Connectivity) (vs : List Vertex) :
    c.SameLinks (vs.foldl preferBorder c) := by
  induction vs generalizing c with
  | nil => exact SameLinks.refl c
  | cons v rest ih => exact (c.sameLinks_preferBorder v).trans (ih _)

/-- A vertex that has a halfedge on the border stores one afterwards, and the other vertices store what they
stored. -/
theorem preferBorder_spec (hc : c.Linked) {v : Vertex} (hv : c.isLiveVertex v = true) :
    (c.preferBorder v).Linked ∧ (c.preferBorder v).BorderFirst v ∧
      ∀ w, w ≠ v → (c.preferBorder v).outgoing w = c.outgoing w := by
  have hsame := c.sameLinks_preferBorder v
  obtain ⟨-, -, hmem⟩ := hc.fan_spec hv
  have hslot := slot_lt_of_isLiveVertex hv
  cases hf : (c.fan v).path.find? c.isBorder with
  | none =>
    have hid : c.preferBorder v = c := by
      unfold preferBorder
      rw [hf]
    -- No halfedge on the border leaves the vertex, and it stores what it stored.
    rw [hid]
    refine ⟨hc, fun h _ _ g hg ht hgb => ?_, fun w _ => rfl⟩
    have hin := (hmem g).2 ⟨hg, ht⟩
    have hnot := List.find?_eq_none.1 hf g hin
    exact hnot ((isBorder_iff g).2 hgb)
  | some h =>
    have hset : c.preferBorder v = c.setOutgoing v (some h) := by
      unfold preferBorder
      rw [hf]
    obtain ⟨hlive, htail⟩ := (hmem h).1 (List.mem_of_find?_eq_some hf)
    have hborder : c.facetOf h = none := (isBorder_iff h).1 (List.find?_some hf)
    have hout : ∀ w, (c.preferBorder v).outgoing w = if w = v then some h else c.outgoing w := by
      intro w
      rw [hset, outgoing_setOutgoing c hslot]
    refine ⟨hsame.linked hc ?_ ?_, ?_, ?_⟩
    · intro w g hw ho
      rw [hout] at ho
      split at ho
      · rename_i hwv
        rw [← Option.some.inj ho, hwv]
        exact ⟨hlive, htail⟩
      · exact hc.outgoing hw ho
    · intro w hw ho
      rw [hout] at ho
      split at ho
      · cases ho
      · exact ho
    · intro g ho hg
      rw [hout, if_pos rfl] at ho
      rw [hsame.facetOf, ← Option.some.inj ho] at hg
      exact absurd hborder hg
    · intro w hw
      rw [hout, if_neg hw]

/-- When live vertices one after another choose a halfedge on the border, all of them store one if they have
one, and the other vertices store what they stored. -/
theorem preferBorders_spec (hc : c.Linked) {vs : List Vertex}
    (hvs : ∀ v ∈ vs, c.isLiveVertex v = true) :
    (vs.foldl preferBorder c).Linked ∧ (∀ v ∈ vs, (vs.foldl preferBorder c).BorderFirst v) ∧
      ∀ w, w ∉ vs → (vs.foldl preferBorder c).outgoing w = c.outgoing w := by
  induction vs generalizing c with
  | nil => exact ⟨hc, by simp, fun w _ => rfl⟩
  | cons v rest ih =>
    obtain ⟨hlinked, hfirst, hother⟩ := preferBorder_spec hc (hvs v List.mem_cons_self)
    have hsame := c.sameLinks_preferBorder v
    have hrest : ∀ w ∈ rest, (c.preferBorder v).isLiveVertex w = true := by
      intro w hw
      rw [hsame.live]
      exact hvs w (List.mem_cons_of_mem v hw)
    have hsame' := (c.preferBorder v).sameLinks_preferBorders rest
    obtain ⟨hlinked', hall, hkeep⟩ := ih hlinked hrest
    rw [List.foldl_cons]
    refine ⟨hlinked', ?_, ?_⟩
    · intro w hw
      by_cases hwr : w ∈ rest
      · exact hall w hwr
      · -- The later steps leave `v` and its halfedges as they are.
        obtain rfl : w = v := (List.mem_cons.1 hw).resolve_right hwr
        exact hsame'.borderFirst (hkeep w hwr) hfirst
    · intro w hw
      rw [List.mem_cons, not_or] at hw
      rw [hkeep w hw.2, hother w hw.1]

/-! ## All stages -/

/-- Attach a facet along at least two corners, for which no edge is refused (`attachAlong_eq`). -/
def attach (c : Connectivity) (vertices : List Vertex) (sides : List RingSide)
    (moved : List (Halfedge × Halfedge)) : Facet × Connectivity :=
  let facet : Facet := ⟨c.facets.size⟩
  let (changes, c) := changeCorners ((successors vertices).zip (cyclicPairs sides)) c
  let c := pushSides ((cyclicPairs vertices).zip sides) c
  let c := c.pushFacet (sides.getLast?.elim default RingSide.inner)
  let c := giveFacet sides facet c
  let c := c.linkAll (moved ++ changes.flatMap (·.2.links))
  let c := changes.foldl (fun c (v, change) => if change.adjust then c.preferBorder v else c) c
  (facet, c)

/-- Where a side that the facet brings ends, its inner halfedge and the one on the other side are linked. -/
theorem linked_behind {v : Vertex} {p n : RingSide} (hp : p.fresh = true) :
    (∃ x ∈ (c.cornerChange v p n).links, x.1 = p.inner) ∧
      ∃ x ∈ (c.cornerChange v p n).links, x.2 = p.outer := by
  unfold cornerChange
  rw [hp]
  cases n.fresh with
  | false => simp
  | true => cases c.outgoing v <;> simp

/-- Where a side that the facet brings starts, its inner halfedge and the one on the other side are linked. -/
theorem linked_before {v : Vertex} {p n : RingSide} (hn : n.fresh = true) :
    (∃ x ∈ (c.cornerChange v p n).links, x.2 = n.inner) ∧
      ∃ x ∈ (c.cornerChange v p n).links, x.1 = n.outer := by
  unfold cornerChange
  rw [hn]
  cases p.fresh with
  | false => simp
  | true => cases c.outgoing v <;> simp

/-- Every corner is changed as it is found when its turn comes. -/
theorem exists_change {corners : List (Vertex × RingSide × RingSide)} {k : Vertex × RingSide × RingSide}
    (hk : k ∈ corners) : ∃ c' : Connectivity,
      (k.1, c'.cornerChange k.1 k.2.1 k.2.2) ∈ (changeCorners corners c).1 := by
  induction corners generalizing c with
  | nil => cases hk
  | cons k' rest ih =>
    obtain ⟨v, p, n⟩ := k'
    rw [changeCorners_cons]
    rcases List.mem_cons.1 hk with rfl | hk
    · exact ⟨c, List.mem_cons_self⟩
    -- A later corner is changed on links on which those before it have been.
    · obtain ⟨c', hc'⟩ := ih (c := c.storeAt v (c.cornerChange v p n)) hk
      exact ⟨c', List.mem_cons_of_mem _ hc'⟩

/-- The corners where a side that the facet brings starts and ends link it on all ends. -/
theorem isLinked_of_corners {vs : List Vertex} {sides : List RingSide} (hlen : sides.length = vs.length)
    {x : (Vertex × Vertex) × RingSide} (hx : x ∈ (cyclicPairs vs).zip sides) (hfresh : x.2.fresh = true) :
    x.2.isLinked ((changeCorners ((successors vs).zip (cyclicPairs sides)) c).1.flatMap (·.2.links)) =
      true := by
  obtain ⟨⟨u, v⟩, s⟩ := x
  -- The inner halfedge is linked at both corners, and so is the outer one. Either corner is changed on links of its
  -- own.
  obtain ⟨n, hbehind⟩ := exists_corner_behind hlen hx
  obtain ⟨p, hbefore⟩ := exists_corner_before hlen hx
  obtain ⟨c₁, hc₁⟩ := exists_change (c := c) hbehind
  obtain ⟨c₂, hc₂⟩ := exists_change (c := c) hbefore
  obtain ⟨⟨a, ha, hainner⟩, b, hb, hbouter⟩ := linked_behind (c := c₁) (v := v) (n := n) hfresh
  obtain ⟨⟨d, hd, hdinner⟩, e, he, heouter⟩ := linked_before (c := c₂) (v := u) (p := p) hfresh
  have hmem : ∀ (k : Vertex × CornerChange) (y : Halfedge × Halfedge),
      k ∈ (changeCorners ((successors vs).zip (cyclicPairs sides)) c).1 → y ∈ k.2.links →
        y ∈ (changeCorners ((successors vs).zip (cyclicPairs sides)) c).1.flatMap (·.2.links) :=
    fun k y hk hy => List.mem_flatMap.2 ⟨k, hk, hy⟩
  have hainner' := hmem _ a hc₁ ha
  have hbouter' := hmem _ b hc₁ hb
  have hdinner' := hmem _ d hc₂ hd
  have heouter' := hmem _ e hc₂ he
  unfold RingSide.isLinked
  simp only [List.all_cons, List.all_nil, Bool.and_true, Bool.and_eq_true, List.any_eq_true,
    decide_eq_true_eq]
  exact ⟨⟨⟨a, hainner', hainner⟩, d, hdinner', hdinner⟩, ⟨e, heouter', heouter⟩, b, hbouter', hbouter⟩

/-- The edges that a facet brings leave the facets as they are. -/
@[simp]
theorem facets_pushSides (ends : List ((Vertex × Vertex) × RingSide)) (c : Connectivity) :
    (pushSides ends c).facets = c.facets := by
  unfold pushSides
  refine foldl_keeps Connectivity.facets (fun c x => ?_) ends c
  split <;> rfl

/-- No edge is refused if all those that are brought are linked on all ends. -/
theorem bringEdges_eq {links : List (Halfedge × Halfedge)} {ends : List ((Vertex × Vertex) × RingSide)}
    (h : ∀ x ∈ ends, x.2.fresh = true → x.2.isLinked links = true) :
    bringEdges links ends c = (.ok (), pushSides ends c) := by
  induction ends generalizing c with
  | nil => rfl
  | cons x rest ih =>
    obtain ⟨⟨u, v⟩, s⟩ := x
    have hrest := fun y hy => h y (List.mem_cons_of_mem _ hy)
    -- A side that exists already is passed over.
    cases hs : s.fresh with
    | false => simpa [bringEdges, pushSides, hs] using ih hrest
    | true =>
      have hlinked := h _ List.mem_cons_self hs
      simpa [bringEdges, pushSides, hs, hlinked] using ih hrest

/-- A facet with at least one side is attached. -/
theorem attachAlong_eq {vs : List Vertex} {sides : List RingSide} {moved : List (Halfedge × Halfedge)}
    (hlen : sides.length = vs.length) (hvs : vs ≠ []) : attachAlong vs sides moved c =
      (.ok (c.attach vs sides moved).1, (c.attach vs sides moved).2) := by
  have hsides : sides ≠ [] := by
    rintro rfl
    exact hvs (List.length_eq_zero_iff.1 hlen.symm)
  have hlast := List.getLast?_eq_some_getLast hsides
  have hbring := bringEdges_eq
    (c := (changeCorners ((successors vs).zip (cyclicPairs sides)) c).2)
    fun x hx hfresh => isLinked_of_corners (c := c) hlen hx hfresh
  -- Neither the changes at the corners nor the new edges touch the facets.
  have hfacets : (pushSides ((cyclicPairs vs).zip sides)
      (changeCorners ((successors vs).zip (cyclicPairs sides)) c).2).facets = c.facets := by
    rw [facets_pushSides, facets_changeCorners]
  unfold attachAlong attach closeRing
  simp only [hbring, hlast, hfacets, Option.elim_some]
  rfl

end Connectivity

end RegionMesh
