import Std.Data.TreeSet
import RegionMesh.Connectivity.Walk

/-!
# Checking the links

`Connectivity.check` looks for the first fault in the links between the elements that are not deleted. The
vertices come first: the halfedges around each are the same in both directions, and no two vertices share
one. Then the edges: the links of a halfedge agree with those of its neighbours, and it is met on the
walks around its ends. Then the loops: each closes and belongs to one facet. The facets come last, as
their rings are known to close by then.

Halfedges that were met are marked, and a walk that meets a mark where there should be none has found a
fault. The passes over the vertices and over the loops share their marks.

`Connectivity.check` is `Topology::check` of the source, with its passes `check_vertices`
(`checkVertex`), `check_links` (`checkLinks`), `check_edges` (`checkHalfedge`, `checkLoop`) and
`check_faces` (`checkFacet`). `Marks` are the flags of its halfedges, and a walk without an end, on
which the source does not return, is the fault `endlessWalk` here.
-/

namespace RegionMesh

/-- A set of marked halfedges. -/
structure Marks where
  /-- The positions of the marked halfedges. -/
  positions : Std.TreeSet Nat := {}

namespace Marks

/-- Whether a halfedge is marked. -/
def contains (m : Marks) (h : Halfedge) : Bool := m.positions.contains h.position

/-- Mark a halfedge, or take its mark away. -/
def put (m : Marks) (h : Halfedge) (marked : Bool) : Marks :=
  ⟨if marked then m.positions.insert h.position else m.positions.erase h.position⟩

/-- Putting a mark changes the mark of that halfedge alone. -/
theorem contains_put (m : Marks) (g h : Halfedge) (marked : Bool) :
    (m.put g marked).contains h = if g = h then marked else m.contains h := by
  by_cases hgh : g = h
  · cases marked <;> simp [contains, put, hgh]
  · have hne : g.position ≠ h.position := fun e => hgh (Halfedge.position_inj.1 e)
    cases marked <;> simp [contains, put, hgh, hne]

end Marks

namespace Connectivity

variable (c : Connectivity)

/-- Give all halfedges of a walk the same mark. A halfedge that has this mark before the walk gets to it is
a fault, and so is one that `accepts` refuses after it got its mark. -/
def markAlong (marked : Bool) (again : Halfedge → LinkFault) (accepts : Halfedge → Except LinkFault Unit)
    (w : Walk) (m : Marks) : Except LinkFault Marks :=
  go w.path m
where
  /-- Mark the halfedges of the rest of the path. -/
  go : List Halfedge → Marks → Except LinkFault Marks
    | [], m => if w.closed then .ok m else .error .endlessWalk
    | h :: rest, m =>
      if m.contains h = marked then .error (again h)
      else
        match accepts h with
        | .error e => .error e
        | .ok () => go rest (m.put h marked)

/-- Check the halfedge that a vertex stores: it exists and leaves the vertex, and if it is not on the
border, no halfedge around the vertex is. -/
def checkOutgoing (v : Vertex) (h : Halfedge) : Except LinkFault Unit := do
  if c.edges.size ≤ h.edge.slot then throw (.invalidOutgoingHalfedges v)
  if !c.isLiveEdge h.edge then throw (.deletedHalfedge h)
  if !c.isBorder h then
    if ← (c.fan v).meets c.isBorder then throw (.invalidOutgoingHalfedges v)
  if c.tail h ≠ v then throw (.invalidOutgoingHalfedges v)

/-- Check the fan of a vertex: no halfedge is met twice, here or at an earlier vertex, and the clockwise
walk meets no other halfedges than the counterclockwise one. -/
def checkVertex (m : Marks) (v : Vertex) : Except LinkFault Marks := do
  if let some h := c.outgoing v then c.checkOutgoing v h
  let fault := fun _ => LinkFault.invalidOutgoingHalfedges v
  let m ← markAlong true fault (fun _ => .ok ()) (c.fan v) m
  markAlong false fault (fun _ => .ok ()) (c.fanRight v) m

/-- Check a halfedge against its neighbours in the loop and against the elements that it points to. -/
def checkLinks (h : Halfedge) : Except LinkFault Unit := do
  let r := c.record h
  if !c.isLiveEdge r.prev.edge then throw (.deletedHalfedge r.prev)
  if !c.isLiveEdge r.next.edge then throw (.deletedHalfedge r.next)
  if !c.isLiveVertex r.head then throw (.invalidHalfedgeLink h)
  if r.facet.any (!c.isLiveFacet ·) then throw (.invalidHalfedgeLink h)
  if c.next r.prev ≠ h ∨ c.prev r.next ≠ h ∨ c.head h ≠ c.tail r.next ∨ c.tail h ≠ c.head r.prev then
    throw (.invalidHalfedgeLink h)

/-- Check a halfedge: it joins two different vertices, its links are consistent, and it is met on the
walks around both of its ends. -/
def checkHalfedge (h : Halfedge) : Except LinkFault Unit := do
  if c.tail h = c.head h then throw (.degenerateHalfedge h)
  c.checkLinks h
  if !(← (c.fan (c.tail h)).meets (· = h)) then throw (.invalidHalfedgeLink h)
  if !(← (c.fanIn (c.head h)).meets (· = h)) then throw (.invalidHalfedgeLink h)

/-- Check the loop of a halfedge, unless the halfedge has the mark that this pass gives: the loop closes, and
all its halfedges have the same facet. -/
def checkLoop (marked : Bool) (m : Marks) (h : Halfedge) : Except LinkFault Marks :=
  if m.contains h = marked then .ok m
  else
    let facet := c.facetOf h
    let again := fun g => match facet with
      | some f => .openFacetRing f
      | none => .invalidHalfedgeLink g
    let accepts := fun g =>
      if c.facetOf g = facet then .ok () else .error (.inconsistentFacetInLoop g)
    markAlong marked again accepts (c.loop h) m

/-- Check a facet: its ring starts at a halfedge of its own and has at least three of them. -/
def checkFacet (f : Facet) : Except LinkFault Unit := do
  let h := c.start f
  if !c.isLiveEdge h.edge then throw (.deletedHalfedge h)
  if c.facetOf h ≠ some f then throw (.invalidFacetHalfedgeLink f h)
  let ring := c.ring f
  if !ring.closed then throw .endlessWalk
  if ring.path.length < 3 then throw (.ringTooShort f)

/-- Check the links between the elements that are not deleted. The loops are walked twice, once to mark
their halfedges and once to take the marks away. -/
def check : Except LinkFault Unit := do
  let m ← c.liveVertices.foldlM c.checkVertex {}
  c.liveHalfedges.forM c.checkHalfedge
  let m ← c.liveHalfedges.foldlM (c.checkLoop true) m
  let _ ← c.liveHalfedges.foldlM (c.checkLoop false) m
  c.liveFacets.forM c.checkFacet

end Connectivity

end RegionMesh
