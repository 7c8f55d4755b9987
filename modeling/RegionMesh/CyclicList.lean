/-!
# Cyclic lists

A closed ring is written as a list whose last element is followed by the first one.
-/

namespace RegionMesh

/-- The list with its first element moved behind the others, so that every element stands where its
predecessor stood. -/
def successors {α : Type} : List α → List α
  | [] => []
  | a :: rest => rest ++ [a]

/-- The pairs of an element and its successor, the last one paired with the first at the end. -/
def cyclicPairs {α : Type} (l : List α) : List (α × α) := l.zip (successors l)

/-- Every element has a successor. -/
@[simp]
theorem length_successors {α : Type} (l : List α) : (successors l).length = l.length := by
  cases l <;> simp [successors]

/-- There are as many pairs as elements. -/
@[simp]
theorem length_cyclicPairs {α : Type} (l : List α) : (cyclicPairs l).length = l.length := by
  simp [cyclicPairs]

end RegionMesh
