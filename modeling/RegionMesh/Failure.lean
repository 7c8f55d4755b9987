import RegionMesh.Handle
import RegionMesh.Indexing

/-!
# Failures

The causes for which an operation of this library fails, in three families: building a mesh, reading a
raster, and inconsistent links between the elements of a mesh. Each family says its causes in words
through one function `message`.

The families are `ConstructionError`, `SourceError` and `LogicError` of the source, and `Failure` is
its `Error`. The messages are those that the source displays.
-/

namespace RegionMesh

/-- Why a call that builds a mesh is refused. -/
inductive BuildError where
  /-- A surface is open already. -/
  | surfaceAlreadyOpen
  /-- The call needs an open surface. -/
  | surfaceNotOpen
  /-- A facet is open already. -/
  | facetAlreadyOpen
  /-- A surface cannot end inside a facet. -/
  | facetNotClosed
  /-- The call needs an open facet. -/
  | noOpenFacet
  /-- The surface is open in the other indexing mode. -/
  | wrongIndexingMode (mode : Indexing)
  /-- A corner's index is not below the number of vertices that the mode addresses, or names a
  deleted vertex. -/
  | vertexIndexOutOfRange (index count : Nat)
  /-- A facet's corner has an id that no vertex reported so far has. -/
  | unindexedVertexId (id facet : Nat)
  /-- A vertex with this id exists. -/
  | duplicateVertexId (id : Nat)
  /-- A facet with this id exists. -/
  | duplicateFacetId (id : Nat)
  /-- A facet needs three corners. -/
  | degenerateFacet (id corners : Nat)
  /-- A facet's corners are different vertices. -/
  | repeatedCorner (id : Nat) (vertex : Vertex)
  /-- No facet fits at a vertex whose halfedges all have facets. -/
  | complexVertex (vertex : Vertex)
  /-- No second facet fits on a halfedge. -/
  | complexHalfedge (halfedge : Halfedge)
  /-- The border around the new facet would fall apart. -/
  | patchRelinkingFailed
  /-- There is no facet with this id. -/
  | unknownFacetId (id : Nat)
  /-- A grid has at least one cell. -/
  | invalidGridSize (w h : Nat)
deriving DecidableEq, Inhabited, Repr

/-- Why a raster cannot be set up or read. -/
inductive RasterError where
  /-- The raster has no samples. -/
  | emptyRaster
  /-- A band has one value for every sample. -/
  | bandSizeMismatch (expected found : Nat)
  /-- A block is at least one sample wide and high. -/
  | invalidBlockSize (width height : Nat)
  /-- A row is read from the current block, and there is none. -/
  | noBlockLoaded
  /-- The raster ends before this row. -/
  | rowOutOfRange (y height : Nat)
  /-- The grid of blocks ends before this block. -/
  | blockOutOfRange (column row : Nat)
  /-- Every block is visited once. -/
  | repeatedBlock (column row : Nat)
  /-- A row ends before the columns of its block. -/
  | shortRow (y expected found : Nat)
  /-- The device that holds the raster failed. -/
  | device (reason : String)
deriving DecidableEq, Inhabited, Repr

/-- What is wrong with the links between the elements of a mesh. -/
inductive LinkFault where
  /-- The ring of a facet does not come back to its start. -/
  | openFacetRing (facet : Facet)
  /-- A facet's ring has at least three halfedges. -/
  | ringTooShort (facet : Facet)
  /-- The halfedges of a loop have the same facet. -/
  | inconsistentFacetInLoop (halfedge : Halfedge)
  /-- A halfedge's links to its neighbours or to its elements disagree with theirs. -/
  | invalidHalfedgeLink (halfedge : Halfedge)
  /-- A halfedge joins different vertices. -/
  | degenerateHalfedge (halfedge : Halfedge)
  /-- A facet starts at a halfedge that is not one of its own. -/
  | invalidFacetHalfedgeLink (facet : Facet) (halfedge : Halfedge)
  /-- The halfedges around a vertex do not form one fan of its own. -/
  | invalidOutgoingHalfedges (vertex : Vertex)
  /-- An element points to a halfedge of a deleted edge. -/
  | deletedHalfedge (halfedge : Halfedge)
  /-- Two facets have this id. -/
  | duplicateFacetId (id : Nat)
  /-- A walk over the links runs into a cycle without its start, and would go on for ever. -/
  | endlessWalk
deriving DecidableEq, Inhabited, Repr

/-- A failure of any of the three families. -/
inductive Failure where
  /-- A call that builds a mesh was refused. -/
  | build (cause : BuildError)
  /-- A raster could not be set up or read. -/
  | raster (cause : RasterError)
  /-- The links of a mesh are inconsistent. -/
  | links (cause : LinkFault)
deriving DecidableEq, Inhabited, Repr

namespace BuildError

/-- The cause in words. -/
def message : BuildError → String
  | surfaceAlreadyOpen => "a surface is already open"
  | surfaceNotOpen => "no surface is open"
  | facetAlreadyOpen => "a facet is already open"
  | facetNotClosed => "facet is still open when ending the surface"
  | noOpenFacet => "no facet is open"
  | wrongIndexingMode mode => s!"the surface is open in {mode.text} indexing mode"
  | vertexIndexOutOfRange index count =>
    s!"vertex index {index} is out of range, {count} vertices are addressable"
  | unindexedVertexId id facet => s!"facet {facet} references vertex id {id} which is not indexed"
  | duplicateVertexId id => s!"vertex id {id} already exists"
  | duplicateFacetId id => s!"facet id {id} already exists"
  | degenerateFacet id corners => s!"facet {id} has {corners} corners, at least 3 are required"
  | repeatedCorner id vertex => s!"facet {id} uses vertex {vertex.text} more than once"
  | complexVertex vertex =>
    s!"vertex {vertex.text} is not on the boundary, cannot attach a facet"
  | complexHalfedge halfedge => s!"halfedge {halfedge.text} already has a facet"
  | patchRelinkingFailed => "failed to relink the boundary around a new facet"
  | unknownFacetId id => s!"no facet with id {id}"
  | invalidGridSize w h => s!"invalid grid size {w} x {h}"

end BuildError

namespace RasterError

/-- The cause in words. -/
def message : RasterError → String
  | emptyRaster => "raster has no samples"
  | bandSizeMismatch expected found => s!"band has {found} samples, expected {expected}"
  | invalidBlockSize width height => s!"invalid block size {width} x {height}"
  | noBlockLoaded => "no block has been loaded"
  | rowOutOfRange y height => s!"row {y} is outside the raster of height {height}"
  | blockOutOfRange column row => s!"block ({column}, {row}) is outside the block grid"
  | repeatedBlock column row => s!"block ({column}, {row}) is visited more than once"
  | shortRow y expected found => s!"row {y} has {found} samples, expected at least {expected}"
  | device reason => s!"raster I/O failed: {reason}"

end RasterError

namespace LinkFault

/-- The cause in words. -/
def message : LinkFault → String
  | openFacetRing facet => s!"ring of facet {facet.text} does not close"
  | ringTooShort facet => s!"ring of facet {facet.text} has fewer than 3 halfedges"
  | inconsistentFacetInLoop halfedge =>
    s!"halfedge {halfedge.text} belongs to a loop with a different face"
  | invalidHalfedgeLink halfedge =>
    s!"halfedge {halfedge.text} has inconsistent next / prev links"
  | degenerateHalfedge halfedge =>
    s!"halfedge {halfedge.text} starts and ends at the same vertex"
  | invalidFacetHalfedgeLink facet halfedge =>
    s!"facet {facet.text} points to halfedge {halfedge.text} which does not belong to it"
  | invalidOutgoingHalfedges vertex =>
    s!"outgoing halfedges of vertex {vertex.text} are inconsistent"
  | deletedHalfedge halfedge => s!"element refers to deleted halfedge {halfedge.text}"
  | duplicateFacetId id => s!"facet id {id} occurs more than once"
  | endlessWalk => "a walk over the halfedges does not end"

end LinkFault

/-- The cause in words, whatever its family. -/
def Failure.message : Failure → String
  | build cause => cause.message
  | raster cause => cause.message
  | links cause => cause.message

end RegionMesh
