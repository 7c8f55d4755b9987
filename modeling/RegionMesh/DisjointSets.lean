import Std.Data.TreeMap
import Std.Data.TreeSet

/-!
# Disjoint sets

Sets of natural numbers that only grow together. Every tracked id has a parent, and an id that is its
own parent is the root that stands for its set. Two sets are united by giving one root to the other as
its parent: the root of lower rank goes below, and of two equal ranks the first stays on top and rises
by one. Looking up a root (`find?`) changes nothing; `compress` shortens the paths afterwards.

The structure is `DisjointSet` of the source, with `make_set` (`DisjointSets.insert`), `find`, `link`,
`union_set`, `compress_sets` and `count_sets`.
-/

namespace RegionMesh

/-- A family of disjoint sets of ids, each set a tree of parents. -/
structure DisjointSets where
  /-- The parent of every tracked id; a root is its own parent. -/
  parents : Std.TreeMap Nat Nat := {}
  /-- The ranks by which roots are compared; a missing rank counts as zero. -/
  ranks : Std.TreeMap Nat Nat := {}

namespace DisjointSets

/-- No sets. -/
def empty : DisjointSets := {}

/-- The number of tracked ids. -/
def size (s : DisjointSets) : Nat := s.parents.size

/-- Whether no id is tracked. -/
def isEmpty (s : DisjointSets) : Bool := s.parents.isEmpty

/-- Whether an id is tracked. -/
def contains (s : DisjointSets) (id : Nat) : Bool := s.parents.contains id

/-- The parent of a tracked id. -/
def parent? (s : DisjointSets) (id : Nat) : Option Nat := s.parents[id]?

/-- The rank of an id, zero if it has none. -/
def rank (s : DisjointSets) (id : Nat) : Nat := s.ranks.getD id 0

/-- Track an id as a set of its own. The answer says whether it is new; a tracked id is left as it
is. -/
def insert (s : DisjointSets) (id : Nat) : Bool × DisjointSets :=
  if s.contains id then (false, s)
  else (true, { parents := s.parents.insert id id, ranks := s.ranks.insert id 0 })

/-- The root above an id within a number of parent look-ups. -/
def climb (s : DisjointSets) : Nat → Nat → Option Nat
  | 0, _ => none
  | steps + 1, id =>
    match s.parent? id with
    | none => none
    | some p => if p = id then some id else s.climb steps p

/-- The root of the set that holds an id, `none` for an id that is not tracked. A path of parents
without a cycle meets every tracked id at most once, so there is a look-up for each. -/
def find? (s : DisjointSets) (id : Nat) : Option Nat := s.climb s.size id

/-- Unite the sets of two roots and answer with the root of the union. -/
def link (s : DisjointSets) (x y : Nat) : Nat × DisjointSets :=
  if x = y then (x, s)
  else if s.rank x < s.rank y then (y, { s with parents := s.parents.insert x y })
  else if s.rank y < s.rank x then (x, { s with parents := s.parents.insert y x })
  else (x, { parents := s.parents.insert y x, ranks := s.ranks.insert x (s.rank x + 1) })

/-- Unite the sets that hold two ids and answer with the root of the union. If one of the ids is not
tracked, nothing happens. -/
def union (s : DisjointSets) (x y : Nat) : Option Nat × DisjointSets :=
  match s.find? x, s.find? y with
  | some rx, some ry =>
    let (root, s') := s.link rx ry
    (some root, s')
  | _, _ => (none, s)

/-- Make the root of an id its parent. -/
def compressOne (s : DisjointSets) (id : Nat) : DisjointSets :=
  match s.find? id with
  | some root => { s with parents := s.parents.insert id root }
  | none => s

/-- Make the root of every listed id its parent, one id after another. -/
def compress (s : DisjointSets) (ids : List Nat) : DisjointSets :=
  ids.foldl compressOne s

/-- The number of sets that hold a listed id. -/
def countSets (s : DisjointSets) (ids : List Nat) : Nat :=
  (Std.TreeSet.ofList (ids.filterMap s.find?)).size

end DisjointSets

end RegionMesh
