/-!
# Points

Positions in space with double precision coordinates. Sums, means and distances are evaluated in a
fixed order, coordinate by coordinate, so that equal inputs give bit for bit equal results.

`Point` is `DVec3` of `glam` in the source, with those of its operations that the source uses: `+`
(`Point.add`), `-` (`Point.sub`), division by a number (`Point.div`) and `distance_squared`
(`Point.distanceSq`). The first three work on each coordinate by itself, and a division divides, it does
not multiply by an inverse. `distance_squared` subtracts, squares each coordinate of the difference, and
adds the square of the third one to the sum of the first two. Each of these steps rounds, none is fused
with another. `Point.mean` is how the centroids of facets and regions are folded.
-/

namespace RegionMesh

/-- The double nearest to a count that fits into a word of 64 bits; of two equally near ones the one
with the even significand. -/
def doubleOfCount (n : Nat) : Float := n.toUInt64.toFloat

/-- The place of a double in the total order of all doubles, `total_cmp` of the source: negative before
positive numbers, `-0.0` before `0.0`. A double without a sign bit keeps the order of its bit pattern,
and one with a sign bit reverses it. A NaN comes last. `Float` has a single NaN, which has no sign bit,
where the source leaves the sign of a NaN open and would put one with a sign bit first. -/
def doubleRank (d : Float) : Nat :=
  let bits := d.toBits.toNat
  let signBit := UInt64.size / 2
  if bits < signBit then bits + signBit else UInt64.size - 1 - bits

/-- A position in space. -/
structure Point where
  /-- The first coordinate. -/
  x : Float
  /-- The second coordinate. -/
  y : Float
  /-- The third coordinate, the elevation of a raster's sample. -/
  z : Float
deriving Inhabited

namespace Point

/-- The point whose coordinates are all zero. -/
def origin : Point := ⟨0, 0, 0⟩

/-- The sum, coordinate by coordinate. -/
def add (p q : Point) : Point := ⟨p.x + q.x, p.y + q.y, p.z + q.z⟩

/-- The difference, coordinate by coordinate. -/
def sub (p q : Point) : Point := ⟨p.x - q.x, p.y - q.y, p.z - q.z⟩

/-- Every coordinate divided by the same number. -/
def div (p : Point) (d : Float) : Point := ⟨p.x / d, p.y / d, p.z / d⟩

/-- The square of the distance of two points, with the squares added from the first to the last. -/
def distanceSq (p q : Point) : Float :=
  let d := p.sub q
  (d.x * d.x + d.y * d.y) + d.z * d.z

/-- The mean of some points: their sum from the origin on in list order, divided by their number. -/
def mean (ps : List Point) : Point :=
  (ps.foldl add origin).div (doubleOfCount ps.length)

end Point

end RegionMesh
