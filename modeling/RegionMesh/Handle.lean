/-!
# Handles

A handle names an element of a mesh by the place of its record in the mesh's storage. Vertices, edges
and facets have one number. A halfedge is an edge together with one of its two sides, so that the
opposite halfedge is the other side of the same edge (`Halfedge.opposite_opposite`), and its number
is its position when the sides of all edges are written one after another
(`Halfedge.ofPosition_position`).

Outside the library a handle is an unsigned word of 32 bits.

`Vertex`, `Edge`, `Facet` and `Halfedge` are `VH`, `EH`, `FH` and `HH` of the source.
-/

namespace RegionMesh

/-- A vertex, named by the place of its record. -/
structure Vertex where
  /-- The place of the record. -/
  slot : Nat
deriving DecidableEq, Inhabited, Repr

/-- An undirected edge, named by the place of its record. -/
structure Edge where
  /-- The place of the record. -/
  slot : Nat
deriving DecidableEq, Inhabited, Repr

/-- A facet, named by the place of its record. -/
structure Facet where
  /-- The place of the record. -/
  slot : Nat
deriving DecidableEq, Inhabited, Repr

/-- A halfedge: one of the two directed sides of an edge. -/
structure Halfedge where
  /-- The edge that the halfedge is a side of. -/
  edge : Edge
  /-- Whether it is the second of the edge's two sides. -/
  back : Bool
deriving DecidableEq, Inhabited, Repr

/-- The text of a vertex handle. -/
def Vertex.text (v : Vertex) : String := s!"VH({v.slot})"

/-- The text of an edge handle. -/
def Edge.text (e : Edge) : String := s!"EH({e.slot})"

/-- The text of a facet handle. -/
def Facet.text (f : Facet) : String := s!"FH({f.slot})"

namespace Edge

/-- One side of an edge: the first for `false`, the second for `true`. -/
def side (e : Edge) (back : Bool) : Halfedge := ⟨e, back⟩

/-- Both sides of an edge, the first side first. -/
def sides (e : Edge) : List Halfedge := [e.side false, e.side true]

end Edge

namespace Halfedge

/-- The other side of the same edge. -/
def opposite (h : Halfedge) : Halfedge := ⟨h.edge, !h.back⟩

/-- The number of a halfedge when the sides of all edges are numbered in storage order. -/
def position (h : Halfedge) : Nat := 2 * h.edge.slot + h.back.toNat

/-- The halfedge at a position. -/
def ofPosition (n : Nat) : Halfedge := ⟨⟨n / 2⟩, n % 2 == 1⟩

/-- The word of 32 bits that stands for a halfedge outside the library. It is the position as long
as the edge's own number is below `2 ^ 31`; above, the number's top bit is lost. -/
def index (h : Halfedge) : Nat := h.position % UInt32.size

/-- The text of a halfedge handle. -/
def text (h : Halfedge) : String := s!"HH({h.index})"

/-- The opposite of the opposite of a halfedge is the halfedge. -/
@[simp]
theorem opposite_opposite (h : Halfedge) : h.opposite.opposite = h := by
  simp [opposite]

/-- Opposite halfedges have the same edge. -/
@[simp]
theorem edge_opposite (h : Halfedge) : h.opposite.edge = h.edge := rfl

/-- Opposite halfedges are the two sides of their edge. -/
@[simp]
theorem back_opposite (h : Halfedge) : h.opposite.back = !h.back := rfl

/-- Different halfedges have different opposites. -/
@[simp]
theorem opposite_inj {g h : Halfedge} : g.opposite = h.opposite ↔ g = h :=
  ⟨fun e => by simpa using congrArg opposite e, congrArg opposite⟩

/-- The sides of an edge differ. -/
@[simp]
theorem opposite_ne (h : Halfedge) : h.opposite ≠ h := fun e => by
  simpa using congrArg back e

/-- A position determines its halfedge. -/
@[simp]
theorem ofPosition_position (h : Halfedge) : ofPosition h.position = h := by
  obtain ⟨⟨e⟩, b⟩ := h
  cases b with
  | false => simp [ofPosition, position]
  | true =>
    have hdiv : (2 * e + 1) / 2 = e := by omega
    simp [ofPosition, position, hdiv]

/-- The halfedge in a position has this position. -/
@[simp]
theorem position_ofPosition (n : Nat) : (ofPosition n).position = n := by
  rcases Nat.mod_two_eq_zero_or_one n with h | h <;> simp [ofPosition, position, h] <;> omega

/-- Two halfedges at the same position are the same. -/
theorem position_inj {g h : Halfedge} : g.position = h.position ↔ g = h :=
  ⟨fun e => by simpa using congrArg ofPosition e, congrArg position⟩

/-- A halfedge is the first or the second side of its edge. -/
theorem mem_sides (h : Halfedge) (e : Edge) : h ∈ e.sides ↔ h.edge = e := by
  obtain ⟨d, b⟩ := h
  cases b <;> simp [Edge.sides, Edge.side]

end Halfedge

end RegionMesh
