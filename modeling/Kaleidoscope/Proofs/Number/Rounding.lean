import Kaleidoscope.Number.Double
import Mathlib.Tactic.Ring

/-! Rounding to the nearest double. What is nearest depends on the quotient alone, so a number may
be expanded by any factor before it is rounded, and rounding returns every finite magnitude as it is. -/
namespace Kaleidoscope.Double

theorem twoTo_eq (n : Nat) : twoTo n = 2 ^ n := rfl

theorem twoTo_pos (n : Nat) : 0 < twoTo n := Nat.two_pow_pos n

theorem tenTo_eq (n : Nat) : tenTo n = 10 ^ n := rfl

theorem tenTo_pos (n : Nat) : 0 < tenTo n := Nat.pow_pos (by decide)

theorem binade_pos : 0 < binade := twoTo_pos 52

theorem divRoundEven_mul {den : Nat} (positive : 0 < den) (q : Nat) :
    divRoundEven (q * den) den = q := by
  simp [divRoundEven, Nat.mul_div_cancel q positive]
  omega

theorem divRoundEven_expand {k : Nat} (positive : 0 < k) (num den : Nat) :
    divRoundEven (num * k) (den * k) = divRoundEven num den := by
  have below : den * k < 2 * (num * k % (den * k)) ↔ den < 2 * (num % den) := by
    rw [Nat.mul_mod_mul_right, ← Nat.mul_assoc]
    exact Nat.mul_lt_mul_right positive
  have tie : 2 * (num * k % (den * k)) = den * k ↔ 2 * (num % den) = den := by
    rw [Nat.mul_mod_mul_right, ← Nat.mul_assoc]
    exact Nat.mul_left_inj (Nat.ne_of_gt positive)
  simp only [divRoundEven, Nat.mul_div_mul_right _ _ positive, Bool.or_eq_true, decide_eq_true_eq,
    Bool.and_eq_true, beq_iff_eq, below, tie]

theorem nearestRank_expand {k : Nat} (positive : 0 < k) (num den : Nat) :
    nearestRank (num * k) (den * k) = nearestRank num den := by
  have scaled : num * k * unitsPerOne = num * unitsPerOne * k := by ring
  have spaced (s : Nat) : den * k * s = den * s * k := by ring
  simp only [nearestRank, scaled, spaced, Nat.mul_div_mul_right _ _ positive,
    divRoundEven_expand positive]

theorem nearest_congr {num den num' den' : Nat} (positive : 0 < den) (positive' : 0 < den')
    (same : num * den' = num' * den) : nearest num den = nearest num' den' := by
  have ranks : nearestRank num den = nearestRank num' den' := by
    rw [← nearestRank_expand positive' num den, ← nearestRank_expand positive num' den', same,
      Nat.mul_comm den]
  exact congrArg ofRank ranks

theorem nearestRank_le (num den : Nat) : nearestRank num den ≤ infinityRank := Nat.min_le_right _ _

theorem infinityRank_lt : infinityRank < twoTo 63 := by decide

theorem toNat_bits_ofRank {n : Nat} (h : n < twoTo 63) : (ofRank n).bits.toNat = n := by
  have small : n < 2 ^ 64 := Nat.lt_trans h (by decide)
  simpa [ofRank] using Nat.mod_eq_of_lt small

theorem rank_ofRank {n : Nat} (h : n < twoTo 63) : (ofRank n).rank = n := by
  rw [rank, toNat_bits_ofRank h, Nat.mod_eq_of_lt h]

theorem isNegative_ofRank {n : Nat} (h : n < twoTo 63) : (ofRank n).isNegative = false := by
  rw [isNegative, toNat_bits_ofRank h]
  exact decide_eq_false (Nat.not_le.mpr h)

theorem ofRank_rank {x : Double} (positive : x.isNegative = false) : ofRank x.rank = x := by
  have small : x.bits.toNat < twoTo 63 := Nat.not_le.mp (of_decide_eq_false positive)
  rw [rank, Nat.mod_eq_of_lt small, ofRank, UInt64.ofNat_toNat]

theorem isNegative_nearest (num den : Nat) : (nearest num den).isNegative = false :=
  isNegative_ofRank (Nat.lt_of_le_of_lt (nearestRank_le num den) infinityRank_lt)

theorem isNaN_nearest (num den : Nat) : (nearest num den).isNaN = false := by
  have bound := nearestRank_le num den
  rw [isNaN, nearest, rank_ofRank (Nat.lt_of_le_of_lt bound infinityRank_lt)]
  exact decide_eq_false (Nat.not_lt.mpr bound)

def significand (x : Double) : Nat := x.rank - spacingAt x.rank * binade

theorem units_eq (x : Double) : x.units = x.significand * 2 ^ spacingAt x.rank := rfl

theorem rank_eq (x : Double) : x.rank = spacingAt x.rank * binade + x.significand := by
  have whole := Nat.div_mul_le_self x.rank binade
  have less : spacingAt x.rank * binade ≤ x.rank / binade * binade :=
    Nat.mul_le_mul_right _ (Nat.sub_le _ _)
  rw [significand]
  omega

theorem significand_lt (x : Double) : x.significand < 2 ^ 53 := by
  have split := Nat.div_add_mod x.rank binade
  have small : x.rank % binade < binade := Nat.mod_lt _ binade_pos
  simp only [significand, spacingAt, binade, twoTo_eq] at *
  omega

theorem le_significand {x : Double} (wide : spacingAt x.rank ≠ 0) : 2 ^ 52 ≤ x.significand := by
  have split := Nat.div_add_mod x.rank binade
  simp only [significand, spacingAt, binade, twoTo_eq] at *
  omega

/-- The width of a magnitude gives away its spacing. -/
theorem log2_units (x : Double) : x.units.log2 - 52 = spacingAt x.rank := by
  have above := x.significand_lt
  rw [units_eq]
  by_cases narrow : spacingAt x.rank = 0
  · by_cases zero : x.significand = 0
    · simp [narrow, zero]
    · have := (Nat.log2_lt zero).mpr above
      simp only [narrow, Nat.pow_zero, Nat.mul_one]
      omega
  · have below := le_significand narrow
    have lower : 2 ^ (52 + spacingAt x.rank) ≤ x.significand * 2 ^ spacingAt x.rank := by
      rw [Nat.pow_add]
      exact Nat.mul_le_mul_right _ below
    have upper : x.significand * 2 ^ spacingAt x.rank < 2 ^ (53 + spacingAt x.rank) := by
      rw [Nat.pow_add]
      exact Nat.mul_lt_mul_of_pos_right above (Nat.two_pow_pos _)
    have positive := Nat.ne_of_gt (Nat.lt_of_lt_of_le (Nat.two_pow_pos _) lower)
    have atLeast := (Nat.le_log2 positive).mpr lower
    have atMost := (Nat.log2_lt positive).mpr upper
    omega

theorem nearestRank_units {x : Double} (finite : x.isFinite = true) {num den : Nat}
    (positive : 0 < den) (same : num * unitsPerOne = x.units * den) :
    nearestRank num den = x.rank := by
  have quotient : x.units * den / den = x.units := Nat.mul_div_cancel _ positive
  have regroup : x.units * den = x.significand * (den * twoTo (spacingAt x.rank)) := by
    rw [units_eq, twoTo_eq]
    ring
  have bound : x.rank ≤ infinityRank := Nat.le_of_lt (of_decide_eq_true finite)
  have rounded : divRoundEven (x.units * den) (den * twoTo (spacingAt x.rank)) = x.significand := by
    rw [regroup]
    exact divRoundEven_mul (Nat.mul_pos positive (twoTo_pos _)) _
  simp only [nearestRank, same, quotient, log2_units, rounded, ← rank_eq]
  exact Nat.min_eq_left bound

theorem nearest_units {x : Double} (sign : x.isNegative = false) (finite : x.isFinite = true)
    {num den : Nat} (positive : 0 < den) (same : num * unitsPerOne = x.units * den) :
    nearest num den = x := by
  rw [nearest, nearestRank_units finite positive same, ofRank_rank sign]

end Kaleidoscope.Double
