import RegionMesh.DisjointSets
import RegionMesh.Mesh.Summary
import RegionMesh.Region.FacetClasses

/-!
# Regions

The facets of a mesh fall into regions: two facets that share an edge are in the same region if a
relation on their ids says that they are alike, in one order or the other. The relation need not be
transitive; a region is a connected component of the facets under it.

`Mesh.joinAlike` unites the sets of alike neighbours, and each region is then collected from its first
facet by a breadth first search through the neighbours with the same root (`Mesh.grow`).

`Mesh.regions` and `regionsByClass` are `cluster` and `cluster_by_class` of the source, `Region` and
`RegionReport` are `Cluster` and `ClusterReport`, `joinAlike` is `union_equivalent`, and `collect` is
`collect_cluster`, with `grow` as the loop of its search.
-/

namespace RegionMesh

/-- A maximal connected set of facets that are alike. -/
structure Region where
  /-- The id of the facet that stands for the region. -/
  root : Nat
  /-- The ids of the facets, in increasing order. -/
  members : List Nat
  /-- The mean of the centroids of the facets. -/
  centroid : Point
  /-- The id of the facet whose centroid is nearest to the centroid of the region; of equally near ones,
  the least id. -/
  representative : Nat
  /-- The roots of the regions that share an edge with this one, in increasing order. -/
  neighbors : List Nat
  /-- Whether a facet of the region has an edge on the border. -/
  touchesBorder : Bool
deriving Inhabited

/-- The regions of a mesh, in the order of the first facet of each. -/
structure RegionReport where
  /-- The regions. -/
  regions : Array Region := #[]
  /-- The root of the region of every facet, by facet id. -/
  roots : Std.TreeMap Nat Nat := {}
  /-- The place of every region, by root. -/
  places : Std.TreeMap Nat Nat := {}
deriving Inhabited

namespace RegionReport

/-- The root of the region of a facet. -/
def rootOf? (r : RegionReport) (facet : Nat) : Option Nat := r.roots[facet]?

/-- The region of a facet. -/
def regionOf? (r : RegionReport) (facet : Nat) : Option Region :=
  (r.rootOf? facet).bind fun root => r.places[root]?.bind fun place => r.regions[place]?

/-- Whether one list of ids comes before another one or is the same: the first ids that differ decide, and
a list comes before its extensions. -/
def leIds : List Nat → List Nat → Bool
  | [], _ => true
  | _ :: _, [] => false
  | a :: s, b :: t => a < b || (a == b && leIds s t)

/-- The members of each region, in increasing order of the lists. -/
def partition (r : RegionReport) : List (List Nat) :=
  (r.regions.toList.map (·.members)).mergeSort leIds

/-- Add a region behind the others. -/
def push (r : RegionReport) (region : Region) : RegionReport where
  regions := r.regions.push region
  roots := region.members.foldl (fun t id => t.insert id region.root) r.roots
  places := r.places.insert region.root r.regions.size

end RegionReport

/-- Of a list of facets with their centroids, the id of the one nearest to a point; of equally near ones,
the least id. -/
def nearest? (p : Point) (facets : List (Nat × Point)) : Option Nat :=
  (facets.foldl closer none).map (·.2)
where
  /-- The better of the nearest facet so far and another one, each with the rank of its distance. -/
  closer : Option (Nat × Nat) → Nat × Point → Option (Nat × Nat)
    | none, (id, q) => some (doubleRank (q.distanceSq p), id)
    | some best, (id, q) =>
      let rank := doubleRank (q.distanceSq p)
      if rank < best.1 ∨ (rank = best.1 ∧ id < best.2) then some (rank, id) else some best

/-- The state of the search that collects a region. -/
structure Growth where
  /-- The facets that were met and not yet looked at, the next one first. -/
  queue : List Facet
  /-- The slots of the facets that were met, in this or in an earlier region. -/
  visited : Std.TreeSet Nat
  /-- The ids and centroids of the facets that were looked at, the last one first. -/
  found : List (Nat × Point) := []
  /-- The roots of other regions across an edge. -/
  neighbors : Std.TreeSet Nat := {}
  /-- Whether an edge on the border was met. -/
  touchesBorder : Bool := false

namespace Mesh

variable (m : Mesh)

/-- The ids of the neighbours of a facet, in the order of its ring. -/
def neighborIds (f : Facet) : List Nat := (m.links.neighbors f).map m.facetId

/-- The pairs of ids of neighbouring facets, each adjacency seen from both of its facets. -/
def adjacentIds : List (Nat × Nat) :=
  m.links.liveFacets.flatMap fun f => (m.neighborIds f).map fun id => (m.facetId f, id)

/-- Unite the sets of a facet and of a neighbour if they are alike. -/
def joinPair (alike : Nat → Nat → Bool) (sets : DisjointSets) (a b : Nat) : DisjointSets :=
  let sets := (sets.insert b).2
  if alike a b then (sets.union a b).2 else sets

/-- The sets of facets that result from uniting alike neighbours, facet by facet. -/
def joinAlike (alike : Nat → Nat → Bool) : DisjointSets :=
  m.links.liveFacets.foldl (fun sets f =>
    let id := m.facetId f
    (m.neighborIds f).foldl (fun sets g => joinPair alike sets id g) (sets.insert id).2) {}

/-- The id that stands for the set of a facet, when every tracked id has a root as its parent. -/
def rootIn (sets : DisjointSets) (f : Facet) : Nat := (sets.parent? (m.facetId f)).getD (m.facetId f)

/-- Look across a halfedge of a facet whose set has the given root. -/
def cross (sets : DisjointSets) (root : Nat) (g : Growth) (h : Halfedge) : Growth :=
  match m.links.facetOf h.opposite with
  | none => { g with touchesBorder := true }
  | some f =>
    if m.rootIn sets f ≠ root then { g with neighbors := g.neighbors.insert (m.rootIn sets f) }
    else if g.visited.contains f.slot then g
    else { g with queue := g.queue ++ [f], visited := g.visited.insert f.slot }

/-- Look at the facets in the queue, and at those that are met from them, for at most a number of
facets. -/
def grow (sets : DisjointSets) (root : Nat) : Nat → Growth → Growth
  | 0, g => g
  | bound + 1, g =>
    match g.queue with
    | [] => g
    | f :: queue =>
      let g := { g with queue, found := (m.facetId f, m.centroid f) :: g.found }
      grow sets root bound ((m.links.ring f).path.foldl (m.cross sets root) g)

/-- Collect the region of a facet. No facet is met twice, so there is a look for each. The answer comes
with the facets that were met. -/
def collect (sets : DisjointSets) (seed : Facet) (visited : Std.TreeSet Nat) :
    Region × Std.TreeSet Nat :=
  let root := m.rootIn sets seed
  let g := m.grow sets root m.facetCount { queue := [seed], visited := visited.insert seed.slot }
  let found := g.found.reverse
  let centroid := Point.mean (found.map (·.2))
  let region : Region :=
    { root
      members := (found.map (·.1)).mergeSort
      centroid
      representative := (nearest? centroid found).getD (m.facetId seed)
      neighbors := g.neighbors.toList
      touchesBorder := g.touchesBorder }
  (region, g.visited)

/-- The regions of the facets under a relation on their ids. The links and the ids of the mesh are checked
first. -/
def regions (alike : Nat → Nat → Bool) : Except LinkFault RegionReport := do
  m.checkLinks
  m.checkFacetIds
  let sets := (m.joinAlike alike).compress (m.links.liveFacets.map m.facetId)
  let step := fun (s : RegionReport × Std.TreeSet Nat) f =>
    if s.2.contains f.slot then s
    else
      let (region, visited) := m.collect sets f s.2
      (s.1.push region, visited)
  return (m.links.liveFacets.foldl step ({}, {})).1

/-- The regions of facets of equal class. A facet without a class is a region of its own. -/
def regionsByClass {α : Type} [BEq α] (classes : FacetClasses α) : Except LinkFault RegionReport :=
  m.regions classes.alike

end Mesh

end RegionMesh
