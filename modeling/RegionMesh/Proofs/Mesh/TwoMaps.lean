import Mathlib.Data.Nat.Notation
import Mathlib.Logic.Function.Basic
import RegionMesh.Mesh.Basic

/-!
# The two maps of a mesh

What a user of a mesh knows of it: which vertices there are and where they lie, and which facets there are and
what their corners are, everything by id (`TwoMaps`). Handles, links and deleted records do not show.
`Mesh.maps` reads the two maps off a mesh.
-/

namespace RegionMesh

/-- The vertices and the facets of a mesh by id. -/
structure TwoMaps where
  /-- The positions of the vertices. -/
  points : ℕ → Option Point
  /-- The corners of the facets. -/
  corners : ℕ → Option (List ℕ)

namespace TwoMaps

/-- No vertices and no facets. -/
def empty : TwoMaps := ⟨fun _ => none, fun _ => none⟩

variable (t : TwoMaps)

/-- Enter a vertex. -/
def addVertex (id : ℕ) (p : Point) : TwoMaps :=
  { t with points := Function.update t.points id (some p) }

/-- Enter a facet. -/
def addFacet (id : ℕ) (corners : List ℕ) : TwoMaps :=
  { t with corners := Function.update t.corners id (some corners) }

/-- Whether a vertex is a corner of a facet and of no other one. -/
def OnlyIn (k v : ℕ) : Prop :=
  (∃ l, t.corners k = some l ∧ v ∈ l) ∧ ∀ j l, j ≠ k → t.corners j = some l → v ∉ l

open Classical in
/-- Strike out a facet and those of its corners that are corners of no other facet. -/
noncomputable def eraseFacet (k : ℕ) : TwoMaps where
  points v := if t.OnlyIn k v then none else t.points v
  corners := Function.update t.corners k none

variable {t}

/-- Maps with the same entries are the same. -/
theorem ext_some {t' : TwoMaps} (hpoints : ∀ i p, t.points i = some p ↔ t'.points i = some p)
    (hcorners : ∀ i l, t.corners i = some l ↔ t'.corners i = some l) : t = t' := by
  obtain ⟨points, corners⟩ := t
  obtain ⟨points', corners'⟩ := t'
  obtain rfl : points = points' := funext fun i => Option.ext (hpoints i)
  obtain rfl : corners = corners' := funext fun i => Option.ext (hcorners i)
  rfl

/-- A vertex goes with a facet if it has no other one. -/
theorem points_eraseFacet_eq_some {k i : ℕ} {p : Point} :
    (t.eraseFacet k).points i = some p ↔ ¬ t.OnlyIn k i ∧ t.points i = some p := by
  unfold eraseFacet
  by_cases honly : t.OnlyIn k i <;> simp [honly]

/-- The other facets keep their corners. -/
theorem corners_eraseFacet_eq_some {k i : ℕ} {l : List ℕ} :
    (t.eraseFacet k).corners i = some l ↔ i ≠ k ∧ t.corners i = some l := by
  unfold eraseFacet
  by_cases hi : i = k <;> simp [hi]

variable (t)

/-- Every facet has at least three corners, which are different vertices. -/
def Valid : Prop :=
  ∀ k l, t.corners k = some l → 3 ≤ l.length ∧ l.Nodup ∧ ∀ v ∈ l, t.points v ≠ none

end TwoMaps

/-- The corners of the facet with an id, as handles. -/
def Mesh.facetCorners (m : Mesh) (id : ℕ) : Option (List Vertex) := (m.findFacet? id).map m.links.corners

/-- The two maps of a mesh. -/
def Mesh.maps (m : Mesh) : TwoMaps where
  points id := (m.findVertex? id).map m.point
  corners id := (m.facetCorners id).map (·.map m.vertexId)

end RegionMesh
