import RegionMesh.Action
import RegionMesh.Connectivity.Walk
import RegionMesh.CyclicList

/-!
# Attaching a facet

A facet is attached along a closed list of vertices. Between two consecutive vertices there is already
a halfedge on the border, which becomes a side of the facet, or none, and then the facet brings an edge
of its own. At each corner the two sides that meet there are linked inside the facet, and what lies
around it is linked on the border outside.

Where both sides of a corner exist but the first is not followed by the second, other fans hang between
them on the border. They are moved to the other gap of the fan that the second side belongs to, and if
the sides bound the same fan there is no such gap and the facet does not fit.

Whether the sides fit is decided before anything is changed (`borderSide`, `relinks`). After that the
vertices at the corners are told what to store (`changeCorners`), and only then are the edges of the facet
stored, each if both of its halfedges are linked on both ends (`bringEdges`).

`Connectivity.addFacet` is `Topology::add_face` of the source. A `RingSide` is a `TentativeEdge` there,
and what is collected here, the links and the changes at the corners, is kept in a `TopolCache`.
-/

namespace RegionMesh

/-- A side of a facet that is being attached. -/
structure RingSide where
  /-- The halfedge that belongs to the facet. -/
  inner : Halfedge
  /-- Whether its edge is brought by the facet. -/
  fresh : Bool
deriving DecidableEq, Inhabited, Repr

/-- The halfedge on the other side of a side's edge. -/
def RingSide.outer (s : RingSide) : Halfedge := s.inner.opposite

/-- Whether both halfedges of a side are linked on both ends. -/
def RingSide.isLinked (s : RingSide) (links : List (Halfedge × Halfedge)) : Bool :=
  [s.inner, s.outer].all fun h => links.any (·.1 = h) && links.any (·.2 = h)

/-- What the attachment changes at one corner. -/
structure CornerChange where
  /-- The pairs of halfedges to be linked. -/
  links : List (Halfedge × Halfedge)
  /-- The halfedge that the vertex is to store, if the stored one changes. -/
  outgoing : Option Halfedge := none
  /-- Whether the stored halfedge ceases to be on the border. -/
  adjust : Bool := false
deriving DecidableEq, Inhabited, Repr

namespace Connectivity

variable (c : Connectivity)

/-- The halfedge on the border from one vertex to another, if there is an edge between them. Neither the
first vertex nor the halfedge may be enclosed by facets already. -/
def borderSide (p : Vertex × Vertex) : Except BuildError (Option Halfedge) :=
  if c.isBorderVertex p.1 then
    match c.find? p.1 p.2 with
    | some h => if c.isBorder h then .ok (some h) else .error (.complexHalfedge h)
    | none => .ok none
  else .error (.complexVertex p.1)

/-- The first halfedge on the border that is met when turning around the head of `h`, from facet to
facet. -/
def gapAfter (h : Halfedge) : Option Halfedge :=
  search c.halfedgeCount h
where
  /-- Turn from a halfedge to the next one with the same head, until it is on the border. -/
  search : Nat → Halfedge → Option Halfedge
    | 0, _ => none
    | fuel + 1, g =>
      let g' := (c.next g).opposite
      if c.isBorder g' then some g' else search fuel g'

/-- The links that move the fans between two existing sides `p` and `n` of a corner to the next gap
behind `n`. -/
def relink (p n : Halfedge) : Except BuildError (List (Halfedge × Halfedge)) :=
  match c.gapAfter n.opposite with
  | none => .error .patchRelinkingFailed
  | some gap =>
    if gap = p then .error .patchRelinkingFailed
    else .ok [(gap, c.next p), (c.prev n, c.next gap), (p, n)]

/-- The links that bring existing sides together at all corners. -/
def relinks (sides : List (Option Halfedge)) : Except BuildError (List (Halfedge × Halfedge)) := do
  let links ← (cyclicPairs sides).mapM fun
    | (some p, some n) => if c.next p = n then .ok [] else c.relink p n
    | _ => .ok []
  return links.flatten

/-- The sides of a facet, from the existing halfedges and the place of the next new edge. -/
def ringSides : List (Option Halfedge) → Nat → List RingSide
  | [], _ => []
  | some h :: rest, slot => ⟨h, false⟩ :: ringSides rest slot
  | none :: rest, slot => ⟨Edge.side ⟨slot⟩ false, true⟩ :: ringSides rest (slot + 1)

/-- What is linked at a vertex where side `p` of the facet ends and side `n` starts. Around an edge that
the facet brings, the border runs along its outer side. -/
def cornerChange (v : Vertex) (p n : RingSide) : CornerChange :=
  match p.fresh, n.fresh with
  | false, false => { links := [], adjust := c.outgoing v = some n.inner }
  | true, false =>
    { links := [(c.prev n.inner, p.outer), (p.inner, n.inner)], outgoing := some p.outer }
  | false, true =>
    { links := [(n.outer, c.next p.inner), (p.inner, n.inner)], outgoing := some (c.next p.inner) }
  | true, true =>
    match c.outgoing v with
    | some h => { links := [(c.prev h, p.outer), (n.outer, h), (p.inner, n.inner)] }
    | none => { links := [(n.outer, p.outer), (p.inner, n.inner)], outgoing := some p.outer }

/-- Carry out the changes at the corners one after another as far as the vertices are concerned, and
collect the changes. -/
def changeCorners : List (Vertex × RingSide × RingSide) → Connectivity →
    List (Vertex × CornerChange) × Connectivity
  | [], c => ([], c)
  | (v, p, n) :: rest, c =>
    let change := c.cornerChange v p n
    let c := match change.outgoing with
      | some h => c.setOutgoing v (some h)
      | none => c
    let (changes, c) := changeCorners rest c
    ((v, change) :: changes, c)

/-- Link pairs of halfedges, one after another. -/
def linkAll (links : List (Halfedge × Halfedge)) : Connectivity :=
  links.foldl (fun c l => c.link l.1 l.2) c

/-- Store the edges that a facet brings, one after another. An edge that is not linked on all ends is
refused, and the edges before it stay. -/
def bringEdges (links : List (Halfedge × Halfedge)) :
    List ((Vertex × Vertex) × RingSide) → Action BuildError Connectivity Unit
  | [] => pure ()
  | (ends, side) :: rest => fun c =>
    if !side.fresh then bringEdges links rest c
    else if side.isLinked links then bringEdges links rest (c.pushEdge ends.1 ends.2)
    else (.error .patchRelinkingFailed, c)

/-- Store a facet whose edges are stored, give it to its sides, and carry out the links and the changes at
its corners. -/
def closeRing (sides : List RingSide) (start : Halfedge) (links : List (Halfedge × Halfedge))
    (changes : List (Vertex × CornerChange)) : Facet × Connectivity :=
  let facet : Facet := ⟨c.facets.size⟩
  let c := c.pushFacet start
  let c := sides.foldl (fun c side => c.setFacet side.inner (some facet)) c
  let c := c.linkAll links
  let c := changes.foldl (fun c (v, change) => if change.adjust then c.preferBorder v else c) c
  (facet, c)

/-- Attach a facet with the given corners and sides, the first side leaving the first corner. The ring of
the facet starts at the side that comes back to the first corner, so a facet without sides is refused. -/
def attachAlong (vertices : List Vertex) (sides : List RingSide) (moved : List (Halfedge × Halfedge)) :
    Action BuildError Connectivity Facet := fun c =>
  let (changes, c) := changeCorners ((successors vertices).zip (cyclicPairs sides)) c
  let links := changes.flatMap (·.2.links)
  match bringEdges links ((cyclicPairs vertices).zip sides) c with
  | (.error e, c) => (.error e, c)
  | (.ok (), c) =>
    match sides.getLast? with
    | none => (.error .patchRelinkingFailed, c)
    | some last =>
      let (facet, c) := c.closeRing sides last.inner (moved ++ links) changes
      (.ok facet, c)

/-- Attach a facet along a closed list of vertices, or refuse it.

The list is meant to have two vertices at least, and to repeat only vertices that have halfedges. For a
single vertex the source stops with a panic, as its only side finds no second one to be linked with; here
the list is refused. The source also stops at the second corner of a vertex without halfedges that is
repeated. The vertex got an outgoing halfedge at its first corner, and the source looks up what comes
before that, although its edge is yet to be stored. Here a default record is read instead, and the links
that come of it mean nothing. -/
def addFacet (vertices : List Vertex) : Action BuildError Connectivity Facet := fun c =>
  match (cyclicPairs vertices).mapM c.borderSide with
  | .error e => (.error e, c)
  | .ok existing =>
    match c.relinks existing with
    | .error e => (.error e, c)
    | .ok moved =>
      if vertices.length = 1 then (.error .patchRelinkingFailed, c)
      else attachAlong vertices (ringSides existing c.edges.size) moved c

end Connectivity

end RegionMesh
