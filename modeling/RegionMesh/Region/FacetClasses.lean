import Std.Data.TreeMap

/-!
# Classes of facets

A class for some of the facets, by facet id. Facets of equal class are alike, and a facet without a
class is like no facet, not even itself.

This is `ClassMap` of the source, and `FacetClasses.alike` its `equivalent`.
-/

namespace RegionMesh

/-- The classes of facets by facet id. -/
structure FacetClasses (α : Type) where
  /-- The class of every facet that has one. -/
  classes : Std.TreeMap Nat α := {}

namespace FacetClasses

variable {α : Type}

/-- No facet has a class. -/
def empty : FacetClasses α := {}

/-- Give a facet a class in place of the one it had. -/
def insert (m : FacetClasses α) (facet : Nat) (c : α) : FacetClasses α := ⟨m.classes.insert facet c⟩

/-- The classes of a list of facets; of two entries for one facet the later one counts. -/
def ofList (entries : List (Nat × α)) : FacetClasses α :=
  entries.foldl (fun m e => m.insert e.1 e.2) empty

/-- The class of a facet. -/
def get? (m : FacetClasses α) (facet : Nat) : Option α := m.classes[facet]?

/-- The number of facets with a class. -/
def size (m : FacetClasses α) : Nat := m.classes.size

/-- Whether no facet has a class. -/
def isEmpty (m : FacetClasses α) : Bool := m.classes.isEmpty

/-- The facets with a class, by increasing facet id. -/
def toList (m : FacetClasses α) : List (Nat × α) := m.classes.toList

/-- Whether two facets both have a class and the classes are equal. -/
def alike [BEq α] (m : FacetClasses α) (a b : Nat) : Bool :=
  match m.get? a, m.get? b with
  | some ca, some cb => ca == cb
  | _, _ => false

end FacetClasses

end RegionMesh
