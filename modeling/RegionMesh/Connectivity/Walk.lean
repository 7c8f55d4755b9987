import RegionMesh.Connectivity.Basic
import RegionMesh.Failure

/-!
# Walks

A walk starts at a halfedge and takes the same step again and again until it would be back at its start:
around a vertex, or along the loop of a facet or of the border. On links that are not the inverse of
each other a walk may run into a cycle without its start and never end. So a walk (`Walk`) holds the
halfedges that it meets and says whether it closed. `Connectivity.walk` follows one more step than there
are halfedges, and a walk that has not closed by then has met some halfedge twice and goes round for
ever.

The walks are the circulators of the source: `Connectivity.fan`, `fanRight` and `fanIn` are
`voh_ccw_iter`, `voh_cw_iter` and `vih_ccw_iter`, `loop` is `loop_ccw_iter`, and `ring`, `corners` and
`neighbors` are `fh_ccw_iter`, `fv_ccw_iter` and `ff_ccw_iter`. `find?` is `find_halfedge`, and
`preferBorder` is `adjust_outgoing_halfedge`.
-/

namespace RegionMesh

/-- The halfedges that a walk meets, from its start on. -/
structure Walk where
  /-- The halfedges in the order in which they are met. -/
  path : List Halfedge
  /-- Whether the next step would be back at the start. -/
  closed : Bool
deriving DecidableEq, Inhabited, Repr

namespace Walk

/-- Go on from a halfedge until the next step would be at `start`, for at most a number of
halfedges. -/
def follow (step : Halfedge → Halfedge) (start : Halfedge) : Nat → Halfedge → Walk
  | 0, _ => ⟨[], false⟩
  | fuel + 1, h =>
    if step h = start then ⟨[h], true⟩
    else
      let rest := follow step start fuel (step h)
      ⟨h :: rest.path, rest.closed⟩

/-- The walk that meets nothing. -/
def nowhere : Walk := ⟨[], true⟩

/-- Whether a halfedge with a property is met. If none is and the walk does not close, the search
never ends. -/
def meets (w : Walk) (p : Halfedge → Bool) : Except LinkFault Bool :=
  if w.path.any p then .ok true
  else if w.closed then .ok false
  else .error .endlessWalk

end Walk

namespace Connectivity

variable (c : Connectivity)

/-- The walk from a halfedge by a step. -/
def walk (step : Halfedge → Halfedge) (start : Halfedge) : Walk :=
  Walk.follow step start (c.halfedgeCount + 1) start

/-- The step to the next halfedge that leaves the same vertex, counterclockwise. -/
def turnLeft (h : Halfedge) : Halfedge := (c.prev h).opposite

/-- The step to the next halfedge that leaves the same vertex, clockwise. -/
def turnRight (h : Halfedge) : Halfedge := c.next h.opposite

/-- The halfedges that leave a vertex, counterclockwise from the stored one on. -/
def fan (v : Vertex) : Walk :=
  match c.outgoing v with
  | some h => c.walk c.turnLeft h
  | none => .nowhere

/-- The halfedges that leave a vertex, clockwise from the stored one on. -/
def fanRight (v : Vertex) : Walk :=
  match c.outgoing v with
  | some h => c.walk c.turnRight h
  | none => .nowhere

/-- The halfedges that point to a vertex, counterclockwise from the opposite of the stored one on. -/
def fanIn (v : Vertex) : Walk :=
  let w := c.fan v
  ⟨w.path.map Halfedge.opposite, w.closed⟩

/-- The loop of a halfedge. -/
def loop (h : Halfedge) : Walk := c.walk c.next h

/-- The ring of a facet. -/
def ring (f : Facet) : Walk := c.loop (c.start f)

/-- The corners of a facet, counterclockwise from the head of the halfedge where its ring starts. -/
def corners (f : Facet) : List Vertex := (c.ring f).path.map c.head

/-- The facets on the other sides of the edges of a facet, in the order of its ring. -/
def neighbors (f : Facet) : List Facet :=
  (c.ring f).path.filterMap fun h => c.facetOf h.opposite

/-- The number of edges at a vertex. -/
def vertexValence (v : Vertex) : Nat := (c.fan v).path.length

/-- The number of corners of a facet. -/
def facetValence (f : Facet) : Nat := (c.ring f).path.length

/-- The first halfedge from one vertex to another, counterclockwise. -/
def find? (tail head : Vertex) : Option Halfedge := (c.fan tail).path.find? (c.head · = head)

/-- Let a vertex store its first outgoing halfedge on the border, if it has one. -/
def preferBorder (v : Vertex) : Connectivity :=
  match (c.fan v).path.find? c.isBorder with
  | some h => c.setOutgoing v (some h)
  | none => c

end Connectivity

end RegionMesh
