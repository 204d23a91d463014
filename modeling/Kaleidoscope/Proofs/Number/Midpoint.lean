import Kaleidoscope.Proofs.Number.Rounding
import Mathlib.Order.Monotone.Basic

/-! The magnitudes by their positions, and where rounding goes past one. The magnitudes increase with the positions,
and a quotient is rounded past a position just when it is beyond the midpoint to the next one, or at this midpoint and
the position is odd. -/
namespace Kaleidoscope.Double

/-- The magnitude at a position, as a multiple of 2^-1074. -/
def unitsAt (n : Nat) : Nat := (n - spacingAt n * binade) * twoTo (spacingAt n)

section Positions

variable {s m n k : Nat}

/-- A position is a spacing and a significand. The last one of a binade may also be counted with the next. -/
theorem unitsAt_add (small : m ≤ 2 * binade) (hidden : s = 0 ∨ binade ≤ m) :
    unitsAt (s * binade + m) = m * 2 ^ s := by
  have quotient : (s * binade + m) / binade = s + m / binade := by
    rw [Nat.add_comm, Nat.add_mul_div_right _ _ binade_pos, Nat.add_comm]
  rcases Nat.eq_or_lt_of_le small with rfl | less
  · have spacing : spacingAt (s * binade + 2 * binade) = s + 1 := by
      rw [spacingAt, quotient, Nat.mul_div_cancel _ binade_pos]
      rfl
    have rest : s * binade + 2 * binade - (s + 1) * binade = binade := by
      rw [← Nat.add_mul, ← Nat.sub_mul, show s + 2 - (s + 1) = 1 by omega, Nat.one_mul]
    rw [unitsAt, spacing, rest, twoTo_eq, Nat.pow_succ]
    ring
  · have spacing : spacingAt (s * binade + m) = s := by
      rw [spacingAt, quotient]
      rcases hidden with rfl | above
      · have := Nat.div_le_of_le_mul (Nat.le_of_lt_succ (Nat.lt_succ_of_lt less) |>.trans_eq (Nat.mul_comm _ _))
        have : m / binade < 2 := (Nat.div_lt_iff_lt_mul binade_pos).mpr less
        omega
      · have one : m / binade = 1 := by
          rw [Nat.div_eq_iff binade_pos]
          omega
        rw [one, Nat.add_sub_cancel]
    rw [unitsAt, spacing, Nat.add_sub_cancel_left, twoTo_eq]

theorem exists_position (n : Nat) :
    ∃ m, n = spacingAt n * binade + m ∧ m < 2 * binade ∧ (spacingAt n = 0 ∨ binade ≤ m) := by
  have split := Nat.div_add_mod n binade
  have small : n % binade < binade := Nat.mod_lt _ binade_pos
  refine ⟨n - spacingAt n * binade, ?_⟩
  simp only [spacingAt, binade, twoTo_eq] at *
  omega

/-- The next magnitude is farther by the spacing of this one, also where a binade ends. -/
theorem unitsAt_succ (n : Nat) : unitsAt (n + 1) = unitsAt n + 2 ^ spacingAt n := by
  obtain ⟨m, place, small, hidden⟩ := exists_position n
  have here : unitsAt n = m * 2 ^ spacingAt n := by
    conv_lhs => rw [place]
    exact unitsAt_add (Nat.le_of_lt small) hidden
  have next : unitsAt (n + 1) = (m + 1) * 2 ^ spacingAt n := by
    conv_lhs => rw [place, Nat.add_assoc]
    exact unitsAt_add small (hidden.imp_right fun above => Nat.le_succ_of_le above)
  rw [here, next, Nat.succ_mul]

theorem unitsAt_strictMono : StrictMono unitsAt := by
  apply strictMono_nat_of_lt_succ
  intro n
  rw [unitsAt_succ]
  exact Nat.lt_add_of_pos_right (Nat.two_pow_pos _)

end Positions

section Midpoints

variable {scaled num den : Nat}

/-- Rounding to a whole number goes up beyond the half, and at the half from an odd number. -/
theorem lt_divRoundEven_iff (num den : Nat) :
    num / den < divRoundEven num den ↔
      (2 * (num / den) + 1) * den < 2 * num ∨
        (2 * (num / den) + 1) * den = 2 * num ∧ num / den % 2 = 1 := by
  have split := Nat.div_add_mod num den
  have expand : (2 * (num / den) + 1) * den = 2 * (den * (num / den)) + den := by ring
  simp only [divRoundEven, Bool.or_eq_true, decide_eq_true_eq, Bool.and_eq_true, beq_iff_eq]
  split <;> omega

theorem divRoundEven_cases (num den : Nat) :
    divRoundEven num den = num / den ∨ divRoundEven num den = num / den + 1 := by
  simp only [divRoundEven]
  split
  · exact .inr rfl
  · exact .inl rfl

/-- The spacing at a number leaves it a significand that has its hidden bit, unless the spacing is the least. -/
theorem significand_bounds (n : Nat) :
    n / 2 ^ (n.log2 - 52) < 2 * binade ∧ (n.log2 - 52 = 0 ∨ binade ≤ n / 2 ^ (n.log2 - 52)) := by
  have positive := Nat.two_pow_pos (n.log2 - 52)
  constructor
  · apply (Nat.div_lt_iff_lt_mul positive).mpr
    calc n < 2 ^ (n.log2 + 1) := Nat.lt_log2_self
      _ ≤ 2 ^ (53 + (n.log2 - 52)) := Nat.pow_le_pow_right (by decide) (by omega)
      _ = 2 * binade * 2 ^ (n.log2 - 52) := Nat.pow_add ..
  · refine (Nat.eq_zero_or_pos _).imp_right fun wide => ?_
    have some : n ≠ 0 := by
      rintro rfl
      simp at wide
    apply (Nat.le_div_iff_mul_le positive).mpr
    calc binade * 2 ^ (n.log2 - 52) = 2 ^ (52 + (n.log2 - 52)) := (Nat.pow_add ..).symm
      _ = 2 ^ n.log2 := by rw [show 52 + (n.log2 - 52) = n.log2 by omega]
      _ ≤ n := Nat.log2_self_le some

/-- The position that a quotient of units is rounded to, as if there were one for every magnitude. -/
def uncappedRank (scaled den : Nat) : Nat :=
  let spacing := (scaled / den).log2 - 52
  spacing * binade + divRoundEven scaled (den * twoTo spacing)

theorem nearestRank_eq (num den : Nat) :
    nearestRank num den = min (uncappedRank (num * unitsPerOne) den) infinityRank := rfl

def twiceMidpoint (k : Nat) : Nat := unitsAt k + unitsAt (k + 1)

/-- A quotient is at least the magnitude at some position and less than the next one. It is rounded to one of the
two, to the greater one beyond their midpoint and, if this is the even one, at their midpoint. -/
theorem exists_uncappedRank_eq (positive : 0 < den) (scaled : Nat) :
    ∃ p, unitsAt p * den ≤ scaled ∧ scaled < unitsAt (p + 1) * den ∧
      (uncappedRank scaled den = p ∨ uncappedRank scaled den = p + 1) ∧
      (p < uncappedRank scaled den ↔ twiceMidpoint p * den < 2 * scaled ∨
        twiceMidpoint p * den = 2 * scaled ∧ p % 2 = 1) := by
  obtain ⟨small, hidden⟩ := significand_bounds (scaled / den)
  rw [Nat.div_div_eq_div_mul] at small hidden
  unfold uncappedRank
  generalize (scaled / den).log2 - 52 = s at small hidden ⊢
  have wide : 0 < den * 2 ^ s := Nat.mul_pos positive (Nat.two_pow_pos s)
  have floor := Nat.div_mul_le_self scaled (den * 2 ^ s)
  have above := Nat.lt_mul_of_div_lt (Nat.lt_succ_self (scaled / (den * 2 ^ s))) wide
  have goesUp := lt_divRoundEven_iff scaled (den * 2 ^ s)
  have near := divRoundEven_cases scaled (den * 2 ^ s)
  simp only [twoTo_eq]
  generalize scaled / (den * 2 ^ s) = f at small hidden floor above goesUp near
  have here : unitsAt (s * binade + f) = f * 2 ^ s := unitsAt_add (Nat.le_of_lt small) hidden
  have next : unitsAt (s * binade + f + 1) = (f + 1) * 2 ^ s := by
    rw [Nat.add_assoc]
    exact unitsAt_add small (hidden.imp_right fun above => Nat.le_succ_of_le above)
  have even : (s * binade + f) % 2 = f % 2 := by
    rw [Nat.add_mod, Nat.mul_mod, show binade % 2 = 0 by decide]
    simp
  have middle : twiceMidpoint (s * binade + f) * den = (2 * f + 1) * (den * 2 ^ s) := by
    rw [twiceMidpoint, here, next]
    ring
  refine ⟨s * binade + f, ?_, ?_, ?_, ?_⟩
  · calc unitsAt (s * binade + f) * den = f * (den * 2 ^ s) := by rw [here]; ring
      _ ≤ scaled := floor
  · calc scaled < (f + 1) * (den * 2 ^ s) := above
      _ = unitsAt (s * binade + f + 1) * den := by rw [next]; ring
  · rw [Nat.add_left_cancel_iff, Nat.add_assoc, Nat.add_left_cancel_iff]
    exact near
  · rw [Nat.add_lt_add_iff_left, goesUp, middle, even]

theorem lt_uncappedRank_iff (positive : 0 < den) (k : Nat) :
    k < uncappedRank scaled den ↔ twiceMidpoint k * den < 2 * scaled ∨
      twiceMidpoint k * den = 2 * scaled ∧ k % 2 = 1 := by
  obtain ⟨p, atLeast, less, near, goesUp⟩ := exists_uncappedRank_eq positive scaled
  rcases Nat.lt_trichotomy k p with before | rfl | behind
  · -- Both ends of the midpoint are at most the magnitude at `p`, and the lower one is less.
    have lower := unitsAt_strictMono before
    have upper : unitsAt (k + 1) ≤ unitsAt p := unitsAt_strictMono.monotone before
    have midpoint : twiceMidpoint k * den < 2 * unitsAt p * den :=
      Nat.mul_lt_mul_of_pos_right (by rw [twiceMidpoint]; omega) positive
    rw [Nat.mul_assoc] at midpoint
    exact iff_of_true (by omega) (.inl (by omega))
  · exact goesUp
  · have lower : unitsAt (p + 1) ≤ unitsAt k := unitsAt_strictMono.monotone behind
    have upper : unitsAt k < unitsAt (k + 1) := unitsAt_strictMono (Nat.lt_succ_self k)
    have midpoint : 2 * unitsAt (p + 1) * den ≤ twiceMidpoint k * den :=
      Nat.mul_le_mul_right _ (by rw [twiceMidpoint]; omega)
    rw [Nat.mul_assoc] at midpoint
    exact iff_of_false (by omega) (by omega)

end Midpoints

end Kaleidoscope.Double
