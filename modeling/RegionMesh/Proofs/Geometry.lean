import Mathlib.Algebra.Group.Int.Defs
import Mathlib.Algebra.Group.Nat.Defs
import RegionMesh.Geometry

/-!
# The order of doubles

`doubleRank` gives every double a place in a total order (`Double.Precedes`, `doubleRank_lt_iff`): a double with a sign
bit comes before one without, and the remaining bits, read as a number, are compared, the other way round where the
sign bit is set. No two doubles share a place (`doubleRank_eq_iff`).

The order goes by the bits alone, and still it is an order of numbers: a double that is less than another one comes
before it (`Double.precedes_of_lt`). This is because the bits hold the exponent before the significand, and leave out
the leading bit of the significand, so that they count up from each number to the next greater one
(`Double.Encodes`, `Double.unpacks`).
-/

namespace RegionMesh

open Float.Model (UnpackedFloat Format)
open Float.Model.UnpackedFloat (Sign unpackExponent unpackMantissa unpackSign)

namespace Double

variable {a b : Float}

/-- Whether the sign bit of a double is set. -/
def HasSign (d : Float) : Prop := 2 ^ 63 ≤ d.toBits.toNat

instance (d : Float) : Decidable (HasSign d) := inferInstanceAs (Decidable (_ ≤ _))

/-- The bits of a double without its sign bit, as a number. -/
def magnitude (d : Float) : ℕ := d.toBits.toNat % 2 ^ 63

/-- The total order of doubles. It tells the two zeros apart, and has a place for what is not a number. -/
inductive Precedes (a b : Float) : Prop
  /-- A double with a sign comes before one without. -/
  | apart (ha : HasSign a) (hb : ¬ HasSign b)
  /-- Of two doubles with a sign the one of greater magnitude comes first. -/
  | below (ha : HasSign a) (hb : HasSign b) (h : magnitude b < magnitude a)
  /-- Of two doubles without a sign the one of less magnitude comes first. -/
  | above (ha : ¬ HasSign a) (hb : ¬ HasSign b) (h : magnitude a < magnitude b)

/-- A double is known by its bits. -/
theorem toBits_inj : a.toBits = b.toBits ↔ a = b := by
  refine ⟨fun h => ?_, congrArg Float.toBits⟩
  obtain ⟨⟨a, ha⟩⟩ := a
  obtain ⟨⟨b, hb⟩⟩ := b
  obtain rfl : a = b := h
  rfl

end Double

open Double

section Rank

variable {a b : Float}

/-- The doubles without a sign have the upper half of the places, and those with one fill the lower half from its
end. -/
theorem doubleRank_cases (d : Float) : (HasSign d ∧ doubleRank d + magnitude d + 1 = 2 ^ 63) ∨
    (¬ HasSign d ∧ doubleRank d = 2 ^ 63 + magnitude d) := by
  have hbits := d.toBits.toNat_lt
  have hrank : doubleRank d =
      if d.toBits.toNat < 2 ^ 63 then d.toBits.toNat + 2 ^ 63 else 2 ^ 64 - 1 - d.toBits.toNat := rfl
  unfold HasSign magnitude
  split at hrank <;> omega

/-- A double has a lower place if it comes before the other one. -/
theorem doubleRank_lt_iff : doubleRank a < doubleRank b ↔ Precedes a b := by
  constructor
  · intro hlt
    -- The places with a sign run down and end below those without one, which run up.
    rcases doubleRank_cases a with ⟨ha, hranka⟩ | ⟨ha, hranka⟩ <;>
      rcases doubleRank_cases b with ⟨hb, hrankb⟩ | ⟨hb, hrankb⟩
    · exact .below ha hb (by omega)
    · exact .apart ha hb
    · omega
    · exact .above ha hb (by omega)
  · intro h
    cases h with
    | apart ha hb => grind [doubleRank_cases a, doubleRank_cases b]
    | below ha hb h => grind [doubleRank_cases a, doubleRank_cases b]
    | above ha hb h => grind [doubleRank_cases a, doubleRank_cases b]

instance (a b : Float) : Decidable (Precedes a b) := decidable_of_iff _ doubleRank_lt_iff

/-- Two doubles share a place only if they are the same. -/
theorem doubleRank_eq_iff : doubleRank a = doubleRank b ↔ a = b := by
  refine ⟨fun h => ?_, congrArg doubleRank⟩
  rw [← toBits_inj, ← UInt64.toNat_inj]
  have hbits := And.intro a.toBits.toNat_lt b.toBits.toNat_lt
  have ha := doubleRank_cases a
  have hb := doubleRank_cases b
  unfold HasSign magnitude at ha hb
  omega

end Rank

namespace Double

/-! ## The order of numbers -/

/-- The exponent of a double is in the eleven bits behind the sign. -/
theorem toNat_unpackExponent (b : BitVec 64) :
    (@unpackExponent Format.binary64 b).toNat = b.toNat / 2 ^ 52 % 2 ^ 11 := by
  simp [unpackExponent, Nat.shiftRight_eq_div_pow]

/-- The significand is in the remaining bits. -/
theorem toNat_unpackMantissa (b : BitVec 64) :
    (@unpackMantissa Format.binary64 b).toNat = b.toNat % 2 ^ 52 := by
  simp [unpackMantissa]

/-- The first bit of a double is its sign. -/
theorem ofBitVec_unpackSign (d : Float) : Sign.ofBitVec (@unpackSign Format.binary64 d.toBits.toBitVec) =
    if HasSign d then .negative else .positive := by
  have hbits := d.toBits.toNat_lt
  -- The first bit is what is left of the number when all other bits are shifted out.
  have hsign : (@unpackSign Format.binary64 d.toBits.toBitVec).toNat = d.toBits.toNat / 2 ^ 63 := by
    change (d.toBits.toBitVec.extractLsb 63 63).toNat = d.toBits.toBitVec.toNat / 2 ^ 63
    rw [BitVec.extractLsb_toNat, Nat.shiftRight_eq_div_pow]
    exact Nat.mod_eq_of_lt (by omega)
  unfold Sign.ofBitVec
  by_cases hd : HasSign d
  · rw [if_pos hd, if_neg]
    unfold HasSign at hd
    bv_omega
  · rw [if_neg hd, if_pos]
    unfold HasSign at hd
    bv_omega

/-- A magnitude stands for a significand and an exponent, of which it is the sum. The leading bit of the significand
is added to the bits of the exponent, and there is none if the exponent is the least one. -/
structure Encodes (n m : ℕ) (e : ℤ) : Prop where
  sum : (n : ℤ) = (e + 1074) * 2 ^ 52 + m
  exponent : -1074 ≤ e ∧ e < 972
  mantissa : m < 2 ^ 53
  leading : e = -1074 ∨ 2 ^ 52 ≤ m

namespace Encodes

variable {n n' m m' : ℕ} {e e' : ℤ}

/-- Of two magnitudes the exponents decide, and then the significands. -/
theorem lt_iff (h : Encodes n m e) (h' : Encodes n' m' e') : n < n' ↔ e < e' ∨ (e = e' ∧ m < m') := by
  obtain ⟨hn, he, hm, hleading⟩ := h
  obtain ⟨hn', he', hm', hleading'⟩ := h'
  omega

/-- A finite number other than zero has a magnitude between that of the zeros and that of the infinities. -/
theorem bounds (h : Encodes n m e) (hm : 0 < m) : 0 < n ∧ n < 2047 * 2 ^ 52 := by
  obtain ⟨hn, he, hm, hleading⟩ := h
  omega

end Encodes

/-- What a double of a given sign and magnitude is unpacked to. -/
inductive Unpacks (s : Sign) : ℕ → UnpackedFloat → Prop
  | infinity : Unpacks s (2047 * 2 ^ 52) (.infinity s)
  | notANumber {n : ℕ} : Unpacks s n .notANumber
  | zero : Unpacks s 0 (.zero s)
  | finite {n m : ℕ} {e : ℤ} (hm : 0 < m) (h : Encodes n m e) : Unpacks s n (.finite s m e hm)

/-- A double is unpacked into its sign and its magnitude. -/
theorem unpacks (d : Float) :
    Unpacks (if HasSign d then .negative else .positive) (magnitude d) d.toModel.unpack := by
  rw [← ofBitVec_unpackSign]
  change Unpacks _ (d.toBits.toBitVec.toNat % 2 ^ 63) (UnpackedFloat.unpack Format.binary64 d.toBits.toBitVec)
  generalize d.toBits.toBitVec = b
  have hexponent := toNat_unpackExponent b
  have hmantissa := toNat_unpackMantissa b
  -- The leading bit is put before the others.
  have hleading : (1#1 ++ @unpackMantissa Format.binary64 b).toNat = 2 ^ 52 + b.toNat % 2 ^ 52 := by
    rw [BitVec.toNat_append, hmantissa]
    exact (Nat.shiftLeft_add_eq_or_of_lt (Nat.mod_lt _ (Nat.two_pow_pos 52)) _).symm
  have hbias : Format.binary64.exponentBias = 1023 := rfl
  delta UnpackedFloat.unpack
  dsimp only
  generalize Sign.ofBitVec (@unpackSign Format.binary64 b) = s
  by_cases hgreatest : @unpackExponent Format.binary64 b = -1#_
  · -- The greatest exponent is that of the infinities.
    rw [if_pos hgreatest]
    by_cases hzero : @unpackMantissa Format.binary64 b = 0#_
    · have hn : b.toNat % 2 ^ 63 = 2047 * 2 ^ 52 := by bv_omega
      rw [if_pos hzero, hn]
      exact .infinity
    · rw [if_neg hzero]
      exact .notANumber
  rw [if_neg hgreatest]
  by_cases hleast : @unpackExponent Format.binary64 b = 0#_
  · -- Numbers with the least exponent have no leading bit.
    rw [if_pos hleast]
    by_cases hzero : @unpackMantissa Format.binary64 b = 0#_
    · have hn : b.toNat % 2 ^ 63 = 0 := by bv_omega
      rw [dif_pos hzero, hn]
      exact .zero
    · rw [dif_neg hzero]
      refine .finite _ ⟨?_, ?_, ?_, ?_⟩ <;> bv_omega
  · rw [if_neg hleast]
    refine .finite _ ⟨?_, ?_, ?_, ?_⟩ <;> bv_omega

/-- Where one of two doubles is less, so is its magnitude with its sign. -/
theorem Unpacks.apply_lt {s t : Sign} {m n : ℕ} {x y : UnpackedFloat} (hx : Unpacks s m x) (hy : Unpacks t n y)
    (h : x.compare y = some .lt) : s.apply m < t.apply n := by
  delta UnpackedFloat.compare Sign.apply at *
  cases hx with
  | notANumber => cases h
  | finite hm hencodes =>
    have hbounds := hencodes.bounds hm
    cases hy with
    | finite hm' hencodes' =>
      -- Of two negative numbers the one of greater magnitude is less, so both orders are needed.
      have hbounds' := hencodes'.bounds hm'
      have hlt := hencodes.lt_iff hencodes'
      have hgt := hencodes'.lt_iff hencodes
      cases s <;> cases t <;> dsimp only at h ⊢ <;>
        simp [Ordering.then_eq_lt, Ordering.then_eq_gt, Int.compare_eq_lt, Int.compare_eq_gt, Nat.compare_eq_lt,
          Nat.compare_eq_gt] at h ⊢ <;> omega
    | _ => cases s <;> cases t <;> dsimp only at h ⊢ <;> simp at h ⊢ <;> omega
  | _ =>
    cases hy with
    | finite hm hencodes =>
      have hbounds := hencodes.bounds hm
      cases s <;> cases t <;> dsimp only at h ⊢ <;> simp at h ⊢ <;> omega
    | _ => cases s <;> cases t <;> dsimp only at h ⊢ <;> simp [compare] at h ⊢

/-- A double that is less than another one comes before it. -/
theorem precedes_of_lt (h : a < b) : Precedes a b := by
  have hcompare : a.toModel.unpack.compare b.toModel.unpack = some .lt := by
    change decide (a.toModel < b.toModel) = true at h
    exact beq_iff_eq.1 (of_decide_eq_true h)
  have hlt := (unpacks a).apply_lt (unpacks b) hcompare
  -- A number with a sign is the negative of its magnitude.
  by_cases ha : HasSign a <;> by_cases hb : HasSign b <;> simp only [ha, hb, if_true, if_false, Sign.apply] at hlt
  · exact .below ha hb (by omega)
  · exact .apart ha hb
  · omega
  · exact .above ha hb (by omega)

/-- The doubles in their order: infinity and a number with a sign, the two zeros, a number, infinity, and a NaN. -/
example : [-1 / 0, -1, -0, 0, 1, 1 / 0, 0 / 0].Pairwise Precedes := by
  decide +kernel

end Double

end RegionMesh
