import Kaleidoscope.Proofs.Number.Midpoint
import Mathlib.Algebra.Order.Field.Rat
import Mathlib.Tactic.FieldSimp
import Mathlib.Tactic.Linarith
import Mathlib.Tactic.NormNum
import Mathlib.Tactic.Positivity

/-! The doubles as rational numbers, and which of them is nearest to one. A finite double is nearest if no finite one
is at a smaller distance and, of two at the same distance, if its last bit is zero; there is just one such double for
each number without a sign, and it is what the number is rounded to. -/
namespace Kaleidoscope.Double

section Rational

def ratAt (n : Nat) : ℚ := unitsAt n / 2 ^ 1074

/-- The number a finite datum stands for, by its fields: the sign, the exponent with a bias of 1023, and 52 bits of
fraction behind a one, or behind a zero where the exponent field is zero. -/
def toRat (x : Double) : ℚ :=
  let exponent := x.rank / binade
  let fraction : ℚ := (x.rank % binade : Nat) / 2 ^ 52
  let magnitude := if exponent = 0 then fraction / 2 ^ 1022 else (1 + fraction) * 2 ^ exponent / 2 ^ 1023
  if x.isNegative then -magnitude else magnitude

variable {x y : Double} {n num den : Nat} {q : ℚ}

theorem ratAt_eq_fields (n : Nat) :
    ratAt n = if n / binade = 0 then ((n % binade : Nat) : ℚ) / 2 ^ 52 / 2 ^ 1022
      else (1 + ((n % binade : Nat) : ℚ) / 2 ^ 52) * 2 ^ (n / binade) / 2 ^ 1023 := by
  have split := Nat.div_add_mod n binade
  have small : n % binade < binade := Nat.mod_lt _ binade_pos
  have least : (2 : ℚ) ^ 1074 = 2 ^ 52 * 2 ^ 1022 := pow_add 2 52 1022
  cases field : n / binade with
  | zero =>
    rw [field, Nat.mul_zero, Nat.zero_add] at split
    have units : unitsAt n = n := by simp [unitsAt, spacingAt, field, twoTo_eq]
    rw [if_pos rfl, split, ratAt, units, least, div_div]
  | succ s =>
    rw [field] at split
    have place : n = s * binade + (binade + n % binade) := by
      rw [Nat.mul_comm, Nat.succ_mul] at split
      omega
    have units : unitsAt n = (binade + n % binade) * 2 ^ s := by
      conv_lhs => rw [place]
      exact unitsAt_add (by omega) (.inr (Nat.le_add_right _ _))
    have bias : (2 : ℚ) ^ 1023 = 2 ^ 1022 * 2 := pow_succ 2 1022
    have hidden : ((binade : Nat) : ℚ) = 2 ^ 52 := Nat.cast_pow 2 52
    have positive : (0 : ℚ) < 2 ^ 1022 := pow_pos two_pos 1022
    have positive' : (0 : ℚ) < 2 ^ 52 := pow_pos two_pos 52
    rw [if_neg (Nat.succ_ne_zero s), ratAt, units, least, bias, Nat.cast_mul, Nat.cast_add, hidden, Nat.cast_pow]
    generalize (2 : ℚ) ^ 1022 = unit at positive
    generalize (2 : ℚ) ^ 52 = wide at positive'
    field_simp
    push_cast
    ring

theorem toRat_eq (x : Double) : x.toRat = if x.isNegative then -ratAt x.rank else ratAt x.rank := by
  rw [ratAt_eq_fields]
  rfl

theorem ratAt_strictMono : StrictMono ratAt := by
  intro m n less
  exact div_lt_div_of_pos_right (Nat.cast_lt.mpr (unitsAt_strictMono less)) (pow_pos two_pos _)

theorem ratAt_nonneg (n : Nat) : 0 ≤ ratAt n := div_nonneg (Nat.cast_nonneg _) (pow_nonneg zero_le_two _)

/-- The number is past the midpoint between a position and the next one; it is also when it lies at the midpoint and
the position is odd. -/
def PastMidpoint (q : ℚ) (k : Nat) : Prop :=
  ratAt k + ratAt (k + 1) < 2 * q ∨ ratAt k + ratAt (k + 1) = 2 * q ∧ k % 2 = 1

theorem lt_nearestRank_iff (positive : 0 < den) (k : Nat) :
    k < nearestRank num den ↔ k < infinityRank ∧ PastMidpoint (num / den) k := by
  have unit_pos : (0 : ℚ) < 2 ^ 1074 := pow_pos two_pos _
  have den_pos : (0 : ℚ) < den := Nat.cast_pos.mpr positive
  have unit : ((unitsPerOne : Nat) : ℚ) = 2 ^ 1074 := by
    rw [unitsPerOne, twoTo_eq, Nat.cast_pow, Nat.cast_ofNat]
  have middle : ratAt k + ratAt (k + 1) = (twiceMidpoint k : ℚ) / 2 ^ 1074 := by
    rw [twiceMidpoint, Nat.cast_add, add_div]
    rfl
  have quotient : 2 * ((num : ℚ) / den) = ((2 * num : Nat) : ℚ) / den := by
    rw [Nat.cast_mul, mul_div_assoc]
    rfl
  rw [nearestRank_eq, lt_min_iff, lt_uncappedRank_iff positive, and_comm, PastMidpoint, middle, quotient,
    div_lt_div_iff₀ unit_pos den_pos, div_eq_div_iff unit_pos.ne' den_pos.ne', ← unit, ← Nat.cast_mul, ← Nat.cast_mul,
    Nat.cast_lt, Nat.cast_inj, Nat.mul_assoc]

/-- Rounding gives infinity from half a spacing past the greatest finite magnitude on. -/
theorem ratAt_add_ratAt_infinityRank :
    ratAt (infinityRank - 1) + ratAt infinityRank = 2 * (2 ^ 1024 - 2 ^ 970) := by
  have last : unitsAt (infinityRank - 1) = (2 * binade - 1) * 2 ^ 2045 := by
    rw [show infinityRank - 1 = 2045 * binade + (2 * binade - 1) by decide]
    exact unitsAt_add (by decide) (by decide)
  have next : unitsAt infinityRank = 2 * binade * 2 ^ 2045 := by
    rw [show infinityRank = 2045 * binade + 2 * binade by decide]
    exact unitsAt_add (by decide) (by decide)
  have unit_pos : (0 : ℚ) < 2 ^ 1074 := pow_pos two_pos _
  have spacing : (2 : ℚ) ^ 2045 = 2 * 2 ^ 970 * 2 ^ 1074 := by
    rw [← pow_succ', ← pow_add]
  have bound : (2 : ℚ) ^ 1024 = 2 ^ 54 * 2 ^ 970 := pow_add 2 54 970
  have most : ((2 * binade - 1 : Nat) : ℚ) = 2 ^ 53 - 1 := by
    rw [show 2 * binade - 1 = 2 ^ 53 - 1 by decide]
    norm_num
  have whole : ((2 * binade : Nat) : ℚ) = 2 ^ 53 := Nat.cast_pow 2 53
  rw [ratAt, ratAt, last, next, Nat.cast_mul, Nat.cast_mul, most, whole, Nat.cast_pow, Nat.cast_ofNat, spacing, bound]
  generalize (2 : ℚ) ^ 1074 = unit at unit_pos
  generalize (2 : ℚ) ^ 970 = half
  field_simp
  ring

end Rational

section Rounding

variable {x y : Double} {q : ℚ} {r k num den : Nat}

def RoundsTo (q : ℚ) (r : Nat) : Prop := ∀ k, k < r ↔ k < infinityRank ∧ PastMidpoint q k

theorem roundsTo_nearestRank (positive : 0 < den) (num : Nat) : RoundsTo (num / den) (nearestRank num den) :=
  lt_nearestRank_iff positive

theorem RoundsTo.add_le (rounds : RoundsTo q r) (before : k < r) :
    ratAt k + ratAt r ≤ 2 * q ∧ (ratAt k + ratAt r = 2 * q → r % 2 = 0) := by
  obtain ⟨p, rfl⟩ : ∃ p, r = p + 1 := ⟨r - 1, by omega⟩
  have lower : ratAt k ≤ ratAt p := ratAt_strictMono.monotone (Nat.le_of_lt_succ before)
  rcases ((rounds p).mp (Nat.lt_succ_self p)).2 with beyond | ⟨tie, odd⟩
  · exact ⟨by linarith, fun same => by linarith⟩
  · exact ⟨by linarith, fun _ => by omega⟩

theorem RoundsTo.le_add (rounds : RoundsTo q r) (finite : r < infinityRank) (behind : r < k) :
    2 * q ≤ ratAt r + ratAt k ∧ (ratAt r + ratAt k = 2 * q → r % 2 = 0) := by
  have upper : ratAt (r + 1) ≤ ratAt k := ratAt_strictMono.monotone behind
  have stays : ¬ PastMidpoint q r := fun past => Nat.lt_irrefl r ((rounds r).mpr ⟨finite, past⟩)
  obtain ⟨notBeyond, notOdd⟩ := not_or.mp stays
  have atMost := not_lt.mp notBeyond
  refine ⟨by linarith, fun same => ?_⟩
  have tie : ratAt r + ratAt (r + 1) = 2 * q := by linarith
  exact Nat.mod_two_ne_one.mp fun odd => notOdd ⟨tie, odd⟩

theorem RoundsTo.dist_le (rounds : RoundsTo q r) (finite : r < infinityRank) (k : Nat) :
    |ratAt r - q| ≤ |ratAt k - q| ∧ (k ≠ r → |ratAt r - q| = |ratAt k - q| → r % 2 = 0) := by
  rcases Nat.lt_trichotomy k r with before | rfl | behind
  · obtain ⟨sum, even⟩ := rounds.add_le before
    have less := ratAt_strictMono before
    refine ⟨?_, fun _ same => even ?_⟩
    · calc |ratAt r - q| ≤ q - ratAt k := abs_le.mpr ⟨by linarith, by linarith⟩
        _ ≤ |q - ratAt k| := le_abs_self _
        _ = |ratAt k - q| := abs_sub_comm _ _
    · rcases abs_eq_abs.mp same with same | opposite <;> linarith
  · exact ⟨le_refl _, fun differs => absurd rfl differs⟩
  · obtain ⟨sum, even⟩ := rounds.le_add finite behind
    have less := ratAt_strictMono behind
    refine ⟨?_, fun _ same => even ?_⟩
    · calc |ratAt r - q| ≤ ratAt k - q := abs_le.mpr ⟨by linarith, by linarith⟩
        _ ≤ |ratAt k - q| := le_abs_self _
    · rcases abs_eq_abs.mp same with same | opposite <;> linarith

theorem RoundsTo.le_infinityRank (rounds : RoundsTo q r) : r ≤ infinityRank := by
  by_contra beyond
  exact Nat.lt_irrefl _ ((rounds infinityRank).mp (Nat.not_le.mp beyond)).1

theorem RoundsTo.lt_infinityRank_iff (rounds : RoundsTo q r) : r < infinityRank ↔ q < 2 ^ 1024 - 2 ^ 970 := by
  have sum := ratAt_add_ratAt_infinityRank
  have last : infinityRank - 1 < r ↔ PastMidpoint q (infinityRank - 1) :=
    (rounds _).trans (and_iff_right (by decide))
  have odd : (infinityRank - 1) % 2 = 1 := by decide
  rw [PastMidpoint, show infinityRank - 1 + 1 = infinityRank by decide, sum, and_iff_left odd, ← le_iff_lt_or_eq,
    mul_le_mul_iff_right₀ two_pos] at last
  rw [← not_le (b := q), ← last]
  have := rounds.le_infinityRank
  have : 0 < infinityRank := by decide
  omega

theorem RoundsTo.eq_zero_iff (rounds : RoundsTo q r) : r = 0 ↔ q ≤ 1 / 2 ^ 1075 := by
  have zero : ratAt 0 = 0 := by simp [ratAt, unitsAt]
  have one : ratAt (0 + 1) = 2 * (1 / 2 ^ 1075) := by
    have least : unitsAt (0 + 1) = 1 := by decide
    rw [ratAt, least, Nat.cast_one, pow_succ (2 : ℚ) 1074]
    field_simp
  have first := rounds 0
  rw [and_iff_right (by decide), PastMidpoint, zero, one, zero_add, mul_lt_mul_iff_right₀ two_pos] at first
  simp only [Nat.zero_mod, Nat.zero_ne_one, and_false, or_false] at first
  rw [← not_lt, ← first, Nat.pos_iff_ne_zero, not_not]

/-- A double that a number without a sign may be rounded to: of the finite ones none is nearer to it, and of two
equally near ones it is the one whose last bit is zero. Far enough past the greatest one, it is infinity. -/
structure IsNearest (q : ℚ) (x : Double) : Prop where
  sign : x.isNegative = false
  number : x.isNaN = false
  finite_iff : x.isFinite = true ↔ q < 2 ^ 1024 - 2 ^ 970
  least : x.isFinite = true → ∀ y : Double, y.isFinite = true → |x.toRat - q| ≤ |y.toRat - q|
  even : x.isFinite = true → ∀ y : Double, y.isFinite = true → y.toRat ≠ x.toRat →
    |x.toRat - q| = |y.toRat - q| → x.bits.toNat % 2 = 0

theorem rank_eq_toNat_bits (sign : x.isNegative = false) : x.rank = x.bits.toNat :=
  Nat.mod_eq_of_lt (Nat.not_le.mp (of_decide_eq_false sign))

theorem toRat_of_not_isNegative (sign : x.isNegative = false) : x.toRat = ratAt x.rank := by
  rw [toRat_eq, sign]
  rfl

theorem toRat_eq_or_neg (x : Double) : x.toRat = ratAt x.rank ∨ x.toRat = -ratAt x.rank := by
  rw [toRat_eq]
  cases x.isNegative
  · exact .inl rfl
  · exact .inr rfl

/-- With a sign no double is nearer to a number without one. -/
theorem abs_ratAt_sub_le (natural : 0 ≤ q) (y : Double) : |ratAt y.rank - q| ≤ |y.toRat - q| := by
  have magnitude := ratAt_nonneg y.rank
  rcases toRat_eq_or_neg y with same | opposite
  · rw [same]
  · calc |ratAt y.rank - q| ≤ ratAt y.rank + q := abs_le.mpr ⟨by linarith, by linarith⟩
      _ = -(y.toRat - q) := by rw [opposite]; ring
      _ ≤ |y.toRat - q| := neg_le_abs _

theorem RoundsTo.isNearest (rounds : RoundsTo q r) (natural : 0 ≤ q) : IsNearest q (ofRank r) := by
  have small : r < twoTo 63 := Nat.lt_of_le_of_lt rounds.le_infinityRank infinityRank_lt
  have sign := isNegative_ofRank small
  have rank := rank_ofRank small
  have value : (ofRank r).toRat = ratAt r := by rw [toRat_of_not_isNegative sign, rank]
  have finite_iff : (ofRank r).isFinite = true ↔ r < infinityRank := by simp [isFinite, rank]
  refine ⟨sign, ?_, finite_iff.trans rounds.lt_infinityRank_iff, ?_, ?_⟩
  · simpa [isNaN, rank] using rounds.le_infinityRank
  · intro finite y _
    rw [value]
    exact (rounds.dist_le (finite_iff.mp finite) y.rank).1.trans (abs_ratAt_sub_le natural y)
  · intro finite y _ differs same
    rw [value] at differs same
    rw [toNat_bits_ofRank small]
    have nearest := rounds.dist_le (finite_iff.mp finite)
    by_cases equal : y.rank = r
    · -- Then `y` is the same magnitude with a sign, and both can only be as near to zero.
      exfalso
      have zero : ratAt 0 = 0 := by simp [ratAt, unitsAt]
      rcases toRat_eq_or_neg y with plain | signed
      · exact differs (by rw [plain, equal])
      · rw [signed, equal] at differs same
        rcases abs_eq_abs.mp same with one | other
        · exact differs (by linarith)
        · have none : q = 0 := by linarith
          have atZero := (nearest 0).1
          rw [none, zero, sub_zero, sub_zero, abs_zero] at atZero
          have : ratAt r = 0 := abs_eq_zero.mp (le_antisymm atZero (abs_nonneg _))
          exact differs (by rw [this, neg_zero])
    · exact (nearest y.rank).2 equal (le_antisymm (nearest y.rank).1 (same ▸ abs_ratAt_sub_le natural y))

theorem abs_sub_lt_of_between {u v w : ℚ} (lower : u < v) (upper : v < w) (same : |u - q| = |w - q|) :
    |v - q| < |u - q| := by
  rcases abs_eq_abs.mp same with equal | opposite
  · linarith
  · calc |v - q| < q - u := abs_lt.mpr ⟨by linarith, by linarith⟩
      _ ≤ |q - u| := le_abs_self _
      _ = |u - q| := abs_sub_comm _ _

theorem IsNearest.eq (h : IsNearest q x) (k : IsNearest q y) : x = y := by
  suffices x.rank = y.rank by rw [← ofRank_rank h.sign, this, ofRank_rank k.sign]
  have finite_iff := h.finite_iff.trans k.finite_iff.symm
  by_cases finite : x.isFinite = true
  · have finite' := finite_iff.mp finite
    have same := le_antisymm (h.least finite y finite') (k.least finite' x finite)
    wlog less : x.rank < y.rank generalizing x y with symm
    · rcases Nat.eq_or_lt_of_le (Nat.not_lt.mp less) with equal | more
      · exact equal.symm
      · exact (symm k h finite_iff.symm finite' finite same.symm more).symm
    · exfalso
      -- Both last bits are zero, so there is a position between the two, and it is nearer.
      have below : y.rank < infinityRank := of_decide_eq_true finite'
      have value := toRat_of_not_isNegative h.sign
      have value' := toRat_of_not_isNegative k.sign
      have order := ratAt_strictMono less
      have evenX := h.even finite y finite' (by rw [value, value']; exact order.ne') same
      have evenY := k.even finite' x finite (by rw [value, value']; exact order.ne) same.symm
      rw [← rank_eq_toNat_bits h.sign] at evenX
      rw [← rank_eq_toNat_bits k.sign] at evenY
      have small : x.rank + 1 < twoTo 63 := by have := infinityRank_lt; omega
      have between := ratAt_strictMono (Nat.lt_succ_self x.rank)
      have between' := ratAt_strictMono (show x.rank + 1 < y.rank by omega)
      have rank := rank_ofRank small
      have least := h.least finite (ofRank (x.rank + 1)) (by simp [isFinite, rank]; omega)
      rw [toRat_of_not_isNegative (isNegative_ofRank small), rank] at least
      rw [value, value'] at same
      rw [value] at least
      exact absurd (abs_sub_lt_of_between between between' same) (not_lt.mpr least)
  · have atMost := of_decide_eq_false h.number
    have atMost' := of_decide_eq_false k.number
    have atLeast := of_decide_eq_false (Bool.eq_false_of_not_eq_true finite)
    have atLeast' := of_decide_eq_false (Bool.eq_false_of_not_eq_true (finite ∘ finite_iff.mpr))
    omega

theorem IsNearest.eq_infinity_iff (h : IsNearest q x) : x = ofRank infinityRank ↔ 2 ^ 1024 - 2 ^ 970 ≤ q := by
  rw [← not_lt, ← h.finite_iff]
  constructor
  · rintro rfl
    simp [isFinite, rank_ofRank infinityRank_lt]
  · intro infinite
    have atMost := of_decide_eq_false h.number
    have atLeast := of_decide_eq_false (Bool.eq_false_of_not_eq_true infinite)
    rw [← ofRank_rank h.sign, Nat.le_antisymm (Nat.not_lt.mp atMost) (Nat.not_lt.mp atLeast)]

theorem isNearest_iff_eq_nearest (positive : 0 < den) (num : Nat) (x : Double) :
    IsNearest ((num : ℚ) / den) x ↔ x = nearest num den := by
  have holds : IsNearest ((num : ℚ) / den) (nearest num den) :=
    (roundsTo_nearestRank positive num).isNearest (div_nonneg (Nat.cast_nonneg _) (Nat.cast_nonneg _))
  exact ⟨fun also => also.eq holds, fun same => same ▸ holds⟩

theorem nearest_eq_zero_iff (positive : 0 < den) (num : Nat) :
    nearest num den = ofRank 0 ↔ (num : ℚ) / den ≤ 1 / 2 ^ 1075 := by
  have small : nearestRank num den < twoTo 63 := Nat.lt_of_le_of_lt (nearestRank_le num den) infinityRank_lt
  rw [← (roundsTo_nearestRank positive num).eq_zero_iff]
  refine ⟨fun same => ?_, fun zero => congrArg ofRank zero⟩
  rw [← rank_ofRank small, ← rank_ofRank (twoTo_pos 63)]
  exact congrArg rank same

theorem nearest_zero (positive : 0 < den) : nearest 0 den = ofRank 0 := by
  apply (nearest_eq_zero_iff positive 0).mpr
  rw [Nat.cast_zero, zero_div]
  positivity

end Rounding

end Kaleidoscope.Double
