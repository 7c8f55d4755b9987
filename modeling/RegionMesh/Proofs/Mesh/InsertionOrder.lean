import RegionMesh.Proofs.Mesh.Adjacency
import RegionMesh.Proofs.Mesh.Fitting

/-!
# The order of insertions

Facets can be added to a mesh in any order (`addFacets_perm`). If they are accepted in one order, the facets of the
mesh that comes about fit together, and so do the facets of every mesh on the way there in another order. So they are
accepted in the other order as well. Different orders link the halfedges differently, but what lies where is determined
by the corners of the facets (`Mesh.Sound.sameAdjacency`).
-/

namespace RegionMesh

namespace Mesh

/-- Add facets with ids and corners one after another, up to the first one that is refused. -/
def addFacets (m : Mesh) (facets : List (ℕ × List Vertex)) : Except BuildError Mesh :=
  facets.foldlM (fun m x => match Mesh.addFacet x.2 x.1 m with
    | (.ok _, m') => .ok m'
    | (.error e, _) => .error e) m

/-- The id of the facet on the other side of the halfedge of a facet between two corners, or none on the border. -/
def neighborId? (m : Mesh) (f : Facet) (x : Vertex × Vertex) : Option ℕ :=
  ((m.links.ring f).path.find? (m.links.ends · = x)).bind fun h =>
    (m.links.facetOf h.opposite).map m.facetId

/-- Two meshes have the same facets, which lie to each other in the same way. -/
structure SameAdjacency (m m' : Mesh) : Prop where
  /-- Facets with the same id have the same corners. -/
  corners : ∀ id, m'.facetCorners id = m.facetCorners id
  /-- Facets with the same id have the same neighbours. -/
  neighbors : ∀ id f f', m.findFacet? id = some f → m'.findFacet? id = some f' →
    ∀ x ∈ cyclicPairs (m.links.corners f), m'.neighborId? f' x = m.neighborId? f x
  /-- There are as many halfedges on the border. -/
  border : m'.borderHalfedgeCount = m.borderHalfedgeCount

variable {m m' : Mesh} {f : Facet} {x : Vertex × Vertex} {id : ℕ}

/-! ## What the corners determine -/

/-- The sides of all facets are the pairs of consecutive corners that are found by some id. -/
theorem Sound.mem_sides (hm : m.Sound) :
    x ∈ m.links.sides ↔ ∃ id l, m.facetCorners id = some l ∧ x ∈ cyclicPairs l := by
  rw [Connectivity.mem_sides_iff_corners]
  constructor
  · rintro ⟨f, hf, hx⟩
    exact ⟨m.facetId f, _, hm.facetCorners_eq_some.2 ⟨f, hf, rfl, rfl⟩, hx⟩
  · rintro ⟨id, l, hl, hx⟩
    obtain ⟨f, hf, -, rfl⟩ := hm.facetCorners_eq_some.1 hl
    exact ⟨f, hf, hx⟩

/-- Across a side lies the facet that has it in the other direction. -/
theorem Sound.neighborId?_eq_some (hm : m.Sound) (hf : m.links.isLiveFacet f = true)
    (hx : x ∈ cyclicPairs (m.links.corners f)) :
    m.neighborId? f x = some id ↔ ∃ l, m.facetCorners id = some l ∧ x.swap ∈ cyclicPairs l := by
  have hc := hm.wellFormed
  obtain ⟨h, hh, hhf, rfl⟩ := (hc.mem_cyclicPairs_corners hf).1 hx
  have hring := hc.ringOf hf
  -- The search along the ring finds the only halfedge between the corners.
  have hfind : (m.links.ring f).path.find? (m.links.ends · = m.links.ends h) = some h := by
    obtain ⟨k, hk⟩ : ∃ k, (m.links.ring f).path.find? (m.links.ends · = m.links.ends h) = some k := by
      rw [← Option.isSome_iff_exists, List.find?_isSome]
      exact ⟨h, (hring.mem h).2 ⟨hh, hhf⟩, by simp⟩
    have hends : m.links.ends k = m.links.ends h := by simpa using List.find?_some hk
    have hklive := ((hring.mem k).1 (List.mem_of_find?_eq_some hk)).1
    rw [hk, hm.simple.ends_inj hklive hh hends]
  unfold neighborId?
  rw [hfind, Option.bind_some, Option.map_eq_some_iff]
  simp only [hc.facetOf_eq_some hm.simple (h := h.opposite) hh, Connectivity.ends_opposite,
    hm.facetCorners_eq_some]
  constructor
  · rintro ⟨g, ⟨hg, hmem⟩, rfl⟩
    exact ⟨_, ⟨g, hg, rfl, rfl⟩, hmem⟩
  · rintro ⟨_, ⟨g, hg, rfl, rfl⟩, hmem⟩
    exact ⟨g, ⟨hg, hmem⟩, rfl⟩

/-- In sound meshes with the same corners the facets lie to each other in the same way. -/
theorem Sound.sameAdjacency (hm : m.Sound) (hm' : m'.Sound)
    (h : ∀ id, m'.facetCorners id = m.facetCorners id) : m.SameAdjacency m' := by
  refine ⟨h, ?_, ?_⟩
  · intro id f f' hf hf' x hx
    have hcorners : m'.links.corners f' = m.links.corners f := by
      have hsame := h id
      unfold facetCorners at hsame
      rw [hf, hf'] at hsame
      exact Option.some.inj hsame
    refine Option.ext fun i => ?_
    rw [hm.neighborId?_eq_some (hm.findFacet?_eq_some.1 hf).1 hx,
      hm'.neighborId?_eq_some (hm'.findFacet?_eq_some.1 hf').1 (by rw [hcorners]; exact hx), h i]
  · -- The sides are the same, in another order.
    have hmem : ∀ x, x ∈ m'.links.sides ↔ x ∈ m.links.sides := by
      intro x
      rw [hm.mem_sides, hm'.mem_sides]
      simp only [h]
    have hperm : m'.links.sides.Perm m.links.sides :=
      (List.perm_ext_iff_of_nodup (hm'.wellFormed.nodup_sides hm'.simple hm'.nodup)
        (hm.wellFormed.nodup_sides hm.simple hm.nodup)).2 hmem
    rw [hm.borderHalfedgeCount_eq, hm'.borderHalfedgeCount_eq]
    simp only [hmem]
    exact (hperm.filter _).length_eq

/-! ## Adding facets one after another -/

variable {facets : List (ℕ × List Vertex)}

/-- Some facets are added one after another. -/
theorem addFacets_cons {y : ℕ × List Vertex} :
    m.addFacets (y :: facets) = .ok m' ↔
      ∃ g m₁, Mesh.addFacet y.2 y.1 m = (.ok g, m₁) ∧ m₁.addFacets facets = .ok m' := by
  unfold addFacets
  rw [List.foldlM_cons, bind_eq_ok]
  rcases hadd : Mesh.addFacet y.2 y.1 m with ⟨e | g, m₁⟩
  · simp
  · simp

/-- Facets that are accepted one after another have unused ids that differ from each other, and are added to the
others. -/
theorem Sound.addFacets (hm : m.Sound) (hlive : ∀ y ∈ facets, ∀ v ∈ y.2, m.links.isLiveVertex v = true)
    (h : m.addFacets facets = .ok m') :
    m'.Sound ∧ (∀ id l, m'.facetCorners id = some l ↔ (id, l) ∈ facets ∨ m.facetCorners id = some l) ∧
      (∀ y ∈ facets, m.facetCorners y.1 = none ∧ y.2.Nodup ∧ 3 ≤ y.2.length) ∧
      (facets.map Prod.fst).Nodup := by
  induction facets generalizing m with
  | nil =>
    obtain rfl : m = m' := Except.ok.inj h
    exact ⟨hm, by simp, by simp, by simp⟩
  | cons y rest ih =>
    obtain ⟨g, m₁, hadd, hrest⟩ := addFacets_cons.1 h
    rw [List.forall_mem_cons] at hlive
    obtain ⟨hm₁, hfree, -, hsame⟩ := hm.addFacet hlive.1 hadd
    have hcorners := hm.facetCorners_addFacet hlive.1 hadd
    obtain ⟨hthree, -, hn, -⟩ := addFacet_eq_ok.1 hadd
    obtain ⟨hm', hcorners', hall, hids⟩ := ih hm₁ (by simpa only [hsame] using hlive.2) hrest
    -- What is free behind the first facet was free before, and is not its id.
    have hother : ∀ id, m₁.facetCorners id = none → m.facetCorners id = none ∧ id ≠ y.1 := by
      intro id hid
      have hne : id ≠ y.1 := by
        rintro rfl
        rw [hcorners, Function.update_self] at hid
        cases hid
      rw [hcorners, Function.update_of_ne hne] at hid
      exact ⟨hid, hne⟩
    refine ⟨hm', fun id l => ?_, ?_, ?_⟩
    · rw [hcorners', hcorners, Function.update_apply, List.mem_cons, or_assoc, or_left_comm]
      refine or_congr_right ?_
      by_cases hid : id = y.1
      · subst hid
        rw [if_pos rfl, hfree]
        simp [Prod.ext_iff, eq_comm]
      · simp [hid, Prod.ext_iff]
    · rw [List.forall_mem_cons]
      exact ⟨⟨hfree, hn, hthree⟩, fun z hz => ⟨(hother z.1 (hall z hz).1).1, (hall z hz).2⟩⟩
    · rw [List.map_cons, List.nodup_cons]
      refine ⟨fun hmem => ?_, hids⟩
      obtain ⟨z, hz, he⟩ := List.mem_map.1 hmem
      exact (hother z.1 (hall z hz).1).2 he

/-- Facets that are among facets that fit together are accepted one after another. -/
theorem Sound.exists_addFacets (hm : m.Sound) {corners : ℕ → Option (List Vertex)} (hfits : Fits corners)
    (hle : ∀ id l, m.facetCorners id = some l → corners id = some l)
    (hlive : ∀ y ∈ facets, ∀ v ∈ y.2, m.links.isLiveVertex v = true)
    (hall : ∀ y ∈ facets, corners y.1 = some y.2 ∧ m.facetCorners y.1 = none ∧ y.2.Nodup ∧ 3 ≤ y.2.length)
    (hids : (facets.map Prod.fst).Nodup) : ∃ m', m.addFacets facets = .ok m' := by
  induction facets generalizing m with
  | nil => exact ⟨m, rfl⟩
  | cons y rest ih =>
    rw [List.forall_mem_cons] at hlive hall
    rw [List.map_cons, List.nodup_cons] at hids
    obtain ⟨⟨hy, hfree, hn, hthree⟩, hrestall⟩ := hall
    have hle' : ∀ id l, Function.update m.facetCorners y.1 (some y.2) id = some l → corners id = some l := by
      intro id l hl
      rw [Function.update_apply] at hl
      split at hl
      · rename_i hid
        rw [hid, hy, ← hl]
      · exact hle id l hl
    obtain ⟨g, m₁, hadd⟩ := hm.exists_addFacet hlive.1 hn hthree hfree (hfits.mono hle')
    obtain ⟨hm₁, -, -, hsame⟩ := hm.addFacet hlive.1 hadd
    have hcorners := hm.facetCorners_addFacet hlive.1 hadd
    -- The ids of the other facets are still free.
    have hstill : ∀ z ∈ rest, corners z.1 = some z.2 ∧ m₁.facetCorners z.1 = none ∧ z.2.Nodup ∧
        3 ≤ z.2.length := by
      intro z hz
      obtain ⟨hzc, hzfree, hznodup⟩ := hrestall z hz
      have hne : z.1 ≠ y.1 := fun he => hids.1 (he ▸ List.mem_map_of_mem hz)
      rw [hcorners, Function.update_of_ne hne]
      exact ⟨hzc, hzfree, hznodup⟩
    rw [← hcorners] at hle'
    obtain ⟨m', hm'⟩ := ih hm₁ hle' (by simpa only [hsame] using hlive.2) hstill hids.2
    exact ⟨m', addFacets_cons.2 ⟨g, m₁, hadd, hm'⟩⟩

end Mesh

/-- If facets on live vertices can be added to a mesh in one order, they can be added in any other order. Then all
facets have the same corners, the same neighbours and as many halfedges on the border. -/
theorem addFacets_perm {calls : List EditorCall} (hcalls : Orderly calls)
    {facets facets' : List (ℕ × List Vertex)} (hperm : facets'.Perm facets)
    (hlive : ∀ y ∈ facets, ∀ v ∈ y.2, (EditorCall.run calls {}).mesh.links.isLiveVertex v = true) {m : Mesh}
    (h : (EditorCall.run calls {}).mesh.addFacets facets = .ok m) :
    ∃ m', (EditorCall.run calls {}).mesh.addFacets facets' = .ok m' ∧ m.SameAdjacency m' := by
  have hmesh := hcalls.sound
  -- The facets of the mesh that comes about fit together, so those on the way there do in any order.
  obtain ⟨hm, hcorners, hall, hids⟩ := hmesh.addFacets hlive h
  have hlive' : ∀ y ∈ facets', ∀ v ∈ y.2, (EditorCall.run calls {}).mesh.links.isLiveVertex v = true :=
    fun y hy => hlive y (hperm.mem_iff.1 hy)
  obtain ⟨m', h'⟩ : ∃ m', (EditorCall.run calls {}).mesh.addFacets facets' = .ok m' := by
    refine hmesh.exists_addFacets hm.fits (fun id l hl => (hcorners id l).2 (Or.inr hl)) hlive' ?_
      ((hperm.map Prod.fst).nodup_iff.2 hids)
    intro y hy
    have hy' := hperm.mem_iff.1 hy
    exact ⟨(hcorners y.1 y.2).2 (Or.inl hy'), hall y hy'⟩
  -- Both meshes have the same corners, which determine the rest.
  obtain ⟨hm', hcorners', -⟩ := hmesh.addFacets hlive' h'
  refine ⟨m', h', hm.sameAdjacency hm' fun id => Option.ext fun l => ?_⟩
  rw [hcorners, hcorners', hperm.mem_iff]

/-- Two facets that close the fan of a corner of a triangle can be added in both orders. -/
theorem addFacets_erasedTriangle_swap : ∃ m m',
    (EditorCall.run EditorCall.erasedTriangle {}).mesh.addFacets
      [(5, [⟨0⟩, ⟨1⟩, ⟨3⟩]), (6, [⟨2⟩, ⟨0⟩, ⟨3⟩])] = .ok m ∧
    (EditorCall.run EditorCall.erasedTriangle {}).mesh.addFacets
      [(6, [⟨2⟩, ⟨0⟩, ⟨3⟩]), (5, [⟨0⟩, ⟨1⟩, ⟨3⟩])] = .ok m' ∧ m.SameAdjacency m' := by
  -- Only the first order is evaluated. The second one follows from it.
  have horderly : Orderly EditorCall.erasedTriangle := by decide +kernel
  have hlive : ∀ y ∈ [((5 : ℕ), [(⟨0⟩ : Vertex), ⟨1⟩, ⟨3⟩]), (6, [⟨2⟩, ⟨0⟩, ⟨3⟩])], ∀ v ∈ y.2,
      (EditorCall.run EditorCall.erasedTriangle {}).mesh.links.isLiveVertex v = true := by
    decide +kernel
  have hok : ((EditorCall.run EditorCall.erasedTriangle {}).mesh.addFacets
      [(5, [⟨0⟩, ⟨1⟩, ⟨3⟩]), (6, [⟨2⟩, ⟨0⟩, ⟨3⟩])]).isOk = true := by
    decide +kernel
  cases h : (EditorCall.run EditorCall.erasedTriangle {}).mesh.addFacets
      [(5, [⟨0⟩, ⟨1⟩, ⟨3⟩]), (6, [⟨2⟩, ⟨0⟩, ⟨3⟩])] with
  | error e =>
    rw [h] at hok
    cases hok
  | ok m =>
    obtain ⟨m', h', hsame⟩ := addFacets_perm horderly (List.Perm.swap _ _ []) hlive h
    exact ⟨m, m', rfl, h', hsame⟩

end RegionMesh
