/-!
# Indexing

How the corners of a facet are addressed while a surface is open.

This is `IndexingMode` of the source.
-/

namespace RegionMesh

/-- How an open surface reads the vertex indices of its facets. -/
inductive Indexing where
  /-- An index counts the vertices added since the surface was opened. -/
  | relative
  /-- An index counts all vertices of the mesh. -/
  | absolute
deriving DecidableEq, Inhabited, Repr

/-- The name of an indexing mode in messages. -/
def Indexing.text : Indexing → String
  | relative => "Relative"
  | absolute => "Absolute"

end RegionMesh
