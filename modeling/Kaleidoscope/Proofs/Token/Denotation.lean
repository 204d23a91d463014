import Kaleidoscope.Proofs.Number.Nearest
import Kaleidoscope.Proofs.Token.LongestMatch

/-! What a run of digits and points denotes. The longest front of it that is a number in decimal notation is used;
its value is the double nearest to this number, and the rest of the run plays no part. -/
namespace Kaleidoscope.Literal

open Double (ofRank infinityRank)

/-- Digits with at most one point among them denote a number; there need be none on either side of the point. -/
inductive Denotes : List Char → ℚ → Prop where
  | natural {whole : List Char} (digits : ∀ c ∈ whole, c.isDigit = true) : Denotes whole (Nat.ofDigitChars 10 whole 0)
  | decimal {whole part : List Char} (digits : ∀ c ∈ whole ++ part, c.isDigit = true) : Denotes (whole ++ '.' :: part)
      (Nat.ofDigitChars 10 whole 0 + Nat.ofDigitChars 10 part 0 / 10 ^ part.length)

/-- The front of a run that is used: it denotes a number, and nothing longer does. -/
structure IsUsed (run used : List Char) (q : ℚ) : Prop where
  front : used <+: run
  denotes : Denotes used q
  longest : ∀ other r, other <+: run → Denotes other r → other.length ≤ used.length

/-- What is left over is nothing, or starts with a second point. -/
def EndsAt (used ignored : List Char) : Prop := ignored = [] ∨ '.' ∈ used ∧ ∃ rest, ignored = '.' :: rest

variable {run used ignored whole part : List Char} {q r : ℚ}

theorem count_point_of_digits (digits : ∀ c ∈ whole, c.isDigit = true) : whole.count '.' = 0 := by
  apply List.count_eq_zero.mpr
  intro point
  cases digits '.' point

theorem Denotes.count_point_le (h : Denotes used q) : used.count '.' ≤ 1 := by
  cases h with
  | natural digits => simp [count_point_of_digits digits]
  | decimal digits =>
    obtain ⟨front, back⟩ := List.forall_mem_append.mp digits
    simp [count_point_of_digits front, count_point_of_digits back]

theorem Denotes.isUsed (h : Denotes used q) (ends : EndsAt used ignored) : IsUsed (used ++ ignored) used q := by
  refine ⟨List.prefix_append _ _, h, fun other r front denotes => ?_⟩
  rcases ends with rfl | ⟨point, rest, rfl⟩
  · simpa using front.length_le
  · -- A longer front would have two points.
    by_contra longer
    have two : used ++ ['.'] <+: other :=
      List.prefix_of_prefix_length_le (by simp) front (by simpa using Nat.succ_le_of_lt (Nat.not_le.mp longer))
    have counted := two.sublist.count_le '.'
    have one := denotes.count_point_le
    have first := List.count_pos_iff.mpr point
    simp only [List.count_append, List.count_singleton_self] at counted
    omega

theorem exists_denotes (numerals : ∀ c ∈ run, isNumeral c = true) :
    ∃ used ignored q, run = used ++ ignored ∧ Denotes used q ∧ EndsAt used ignored := by
  have digitsOf {digits rest : List Char} (all : ∀ c ∈ digits ++ rest, isNumeral c = true)
      (none : digits.count '.' = 0) : ∀ c ∈ digits, c.isDigit = true := by
    intro c member
    have numeral := all c (List.mem_append_left _ member)
    by_contra other
    obtain rfl := (isDecimalDigit_of_isNumeral numeral).2.mp (Bool.eq_false_of_not_eq_true other)
    exact List.count_eq_zero.mp none member
  obtain ⟨whole, rest, rfl, -, -, none, rfl | ⟨behind, rfl⟩⟩ := run_cases numerals
  · exact ⟨whole, [], _, rfl, .natural (digitsOf numerals none), .inl rfl⟩
  · have after : ∀ c ∈ behind, isNumeral c = true := fun c member =>
      numerals c (List.mem_append_right _ (List.mem_cons_of_mem _ member))
    obtain ⟨part, ignored, rfl, -, -, none', ends⟩ := run_cases after
    refine ⟨whole ++ '.' :: part, ignored, _, by simp, .decimal (List.forall_mem_append.mpr
      ⟨digitsOf numerals none, digitsOf after none'⟩), ends.imp_right fun ends => ⟨by simp, ends⟩⟩

theorem stops_of_endsAt (ends : ignored = [] ∨ ∃ rest, ignored = '.' :: rest) :
    ignored.takeWhile Text.isDecimalDigit = [] ∧ ignored.dropWhile Text.isDecimalDigit = ignored := by
  have point : Text.isDecimalDigit '.' = false := by decide
  rcases ends with rfl | ⟨rest, rfl⟩ <;> simp [point]

theorem exists_isDigit_iff (digits : ∀ c ∈ whole, c.isDigit = true) :
    (∃ c ∈ whole, c.isDigit = true) ↔ whole ≠ [] := by
  constructor
  · rintro ⟨c, member, -⟩
    exact List.ne_nil_of_mem member
  · intro some
    obtain ⟨c, rest, rfl⟩ := List.exists_cons_of_ne_nil some
    exact ⟨c, List.mem_cons_self, digits c List.mem_cons_self⟩

/-- The digits that are read are those of the front that is used. -/
theorem Denotes.read (h : Denotes used q) (ends : EndsAt used ignored) :
    ∃ whole part, ofText (used ++ ignored) = ⟨whole, part, ignored⟩ ∧ (∀ c ∈ whole ++ part, c.isDigit = true) ∧
      q = (Nat.ofDigitChars 10 (whole ++ part) 0 : Nat) / (tenTo part.length : Nat) ∧
      ((∃ c ∈ used, c.isDigit = true) ↔ whole ++ part ≠ []) := by
  have decimal {digits : List Char} (all : ∀ c ∈ digits, c.isDigit = true) :
      ∀ c ∈ digits, Text.isDecimalDigit c = true := fun c member => Text.isDecimalDigit_of_isDigit (all c member)
  have point : Text.isDecimalDigit '.' = false := by decide
  cases h with
  | natural digits =>
    obtain rfl : ignored = [] := by
      rcases ends with none | ⟨member, -⟩
      · exact none
      · cases digits '.' member
    refine ⟨used, [], ?_, by simpa using digits, by simp [Double.tenTo_eq], ?_⟩
    · simp [ofText, List.takeWhile_eq_self_iff.mpr (decimal digits), List.dropWhile_eq_nil_iff.mpr (decimal digits)]
    · rw [List.append_nil]
      exact exists_isDigit_iff digits
  | @decimal whole part digits =>
    obtain ⟨front, back⟩ := List.forall_mem_append.mp digits
    obtain ⟨taken, dropped⟩ := stops_of_endsAt (ends.imp_right And.right)
    refine ⟨whole, part, ?_, digits, ?_, ?_⟩
    · rw [List.append_assoc, List.cons_append, ofText, List.takeWhile_append_of_pos (decimal front),
        List.dropWhile_append_of_pos (decimal front), List.takeWhile_cons_of_neg (by simp [point]),
        List.dropWhile_cons_of_neg (by simp [point])]
      simp only [List.takeWhile_append_of_pos (decimal back), List.dropWhile_append_of_pos (decimal back), taken,
        dropped, List.append_nil]
    · have wide : (0 : ℚ) < 10 ^ part.length := pow_pos (by norm_num) _
      have moved : Nat.ofDigitChars 10 part (Nat.ofDigitChars 10 whole 0) =
          10 ^ part.length * Nat.ofDigitChars 10 whole 0 + Nat.ofDigitChars 10 part 0 :=
        Nat.ofDigitChars_eq_ofDigitChars_zero
      rw [Nat.ofDigitChars_append, moved, Double.tenTo_eq]
      push_cast
      field_simp
    · rw [← exists_isDigit_iff digits]
      have none : Char.isDigit '.' = false := by decide
      simp [none, or_and_right, exists_or]

/-- The value of a run is the nearest double to what its front denotes, and all of the run is a number just when the
front is the whole of it and has a digit. -/
theorem Denotes.value_ofText (h : Denotes used q) (ends : EndsAt used ignored) :
    ∃ num den, 0 < den ∧ q = (num : Nat) / (den : Nat) ∧ (ofText (used ++ ignored)).value = Double.nearest num den ∧
      ((ofText (used ++ ignored)).isExact = true ↔ (∃ c ∈ used, c.isDigit = true) ∧ ignored = []) := by
  obtain ⟨whole, part, read, digits, same, some⟩ := h.read ends
  have numeric : (whole ++ part).any Char.isDigit = true ↔ ∃ c ∈ used, c.isDigit = true := by
    rw [List.any_eq_true, exists_isDigit_iff digits, some]
  refine ⟨_, _, Double.tenTo_pos _, same, ?_, ?_⟩
  · by_cases any : (whole ++ part).any Char.isDigit = true
    · simp only [read, value, isNumeric, Literal.digits, any, if_true, Text.digitsValue_eq digits]
    · have empty := not_not.mp (mt some.mpr (mt numeric.mpr any))
      obtain ⟨rfl, rfl⟩ := List.append_eq_nil_iff.mp empty
      simp [read, value, isNumeric, Literal.digits, Double.nearest_zero (Double.tenTo_pos 0)]
  · simp [read, isExact, isNumeric, Literal.digits, ← numeric]

theorem Denotes.value_isNearest (h : Denotes used q) (ends : EndsAt used ignored) (x : Double) :
    x.IsNearest q ↔ x = (ofText (used ++ ignored)).value := by
  obtain ⟨num, den, positive, rfl, same, -⟩ := h.value_ofText ends
  rw [same]
  exact Double.isNearest_iff_eq_nearest positive num x

theorem isDigit_of_mem_zeros {zeros : Nat} : ∀ c ∈ List.replicate zeros '0', c.isDigit = true := by
  intro c member
  rw [List.eq_of_mem_replicate member]
  rfl

theorem Denotes.leading_zeros (h : Denotes used q) (zeros : Nat) : Denotes (List.replicate zeros '0' ++ used) q := by
  have same (digits : List Char) :
      Nat.ofDigitChars 10 (List.replicate zeros '0' ++ digits) 0 = Nat.ofDigitChars 10 digits 0 := by
    rw [Nat.ofDigitChars_append, Nat.ofDigitChars_replicate_zero, Nat.mul_zero]
  cases h with
  | natural digits =>
    rw [← same]
    exact .natural (List.forall_mem_append.mpr ⟨isDigit_of_mem_zeros, digits⟩)
  | decimal digits =>
    rw [← same, ← List.append_assoc]
    exact .decimal (by rw [List.append_assoc]; exact List.forall_mem_append.mpr ⟨isDigit_of_mem_zeros, digits⟩)

theorem Denotes.trailing_zeros (h : Denotes used q) (point : '.' ∈ used) (zeros : Nat) :
    Denotes (used ++ List.replicate zeros '0') q := by
  cases h with
  | natural digits => cases digits '.' point
  | @decimal whole part digits =>
    have same : (Nat.ofDigitChars 10 part 0 : ℚ) / 10 ^ part.length =
        Nat.ofDigitChars 10 (part ++ List.replicate zeros '0') 0 / 10 ^ (part ++ List.replicate zeros '0').length := by
      have : (0 : ℚ) < 10 ^ zeros := pow_pos (by norm_num) _
      rw [Nat.ofDigitChars_append, Nat.ofDigitChars_replicate_zero, List.length_append, List.length_replicate, pow_add]
      push_cast
      field_simp
    rw [same, List.append_assoc, List.cons_append]
    exact .decimal (by rw [← List.append_assoc]; exact List.forall_mem_append.mpr ⟨digits, isDigit_of_mem_zeros⟩)

theorem IsUsed.exists_append (h : IsUsed run used q) (numerals : ∀ c ∈ run, isNumeral c = true) :
    ∃ ignored, run = used ++ ignored ∧ EndsAt used ignored := by
  obtain ⟨front, ignored, r, rfl, denotes, ends⟩ := exists_denotes numerals
  have atLeast := h.longest front r (List.prefix_append _ _) denotes
  have atMost := (denotes.isUsed ends).longest used q h.front h.denotes
  have same : used = front :=
    (List.prefix_of_prefix_length_le h.front (List.prefix_append _ _) atMost).eq_of_length
      (Nat.le_antisymm atMost atLeast)
  exact ⟨ignored, by rw [same], same ▸ ends⟩

theorem IsUsed.isFinite_value_iff (h : IsUsed run used q) (numerals : ∀ c ∈ run, isNumeral c = true) :
    (ofText run).value.isFinite = true ↔ q < 2 ^ 1024 - 2 ^ 970 := by
  obtain ⟨ignored, rfl, ends⟩ := h.exists_append numerals
  exact ((h.denotes.value_isNearest ends _).mpr rfl).finite_iff

/-- A run of digits and points, however long, is used up to its second point. Without a digit there it is zero and not
a number. Otherwise its value is the one double nearest to the rational number that the used part denotes, and it is
all a number just when all of it is used. The value has no sign and is a number, it is zero up to half the least
positive double and infinity from half a spacing past the greatest one, and zeros in front of the run or behind the
used digits after a point do not change it. -/
theorem value_nearest_of_longest_front (numerals : ∀ c ∈ run, isNumeral c = true) :
    (∃ used q, IsUsed run used q) ∧ ∀ used q, IsUsed run used q →
      (∃ ignored, run = used ++ ignored ∧ (ignored = [] ∨ '.' ∈ used ∧ ∃ rest, ignored = '.' :: rest)) ∧
      ((∀ c ∈ used, c.isDigit = false) → (ofText run).value = ofRank 0 ∧ (ofText run).isExact = false) ∧
      ((∃ c ∈ used, c.isDigit = true) →
        (∀ x : Double, x.IsNearest q ↔ x = (ofText run).value) ∧ ((ofText run).isExact = true ↔ used = run)) ∧
      ((ofText run).value = ofRank 0 ↔ q ≤ 1 / 2 ^ 1075) ∧
      ((ofText run).value = ofRank infinityRank ↔ 2 ^ 1024 - 2 ^ 970 ≤ q) ∧
      (ofText run).value.isNegative = false ∧ (ofText run).value.isNaN = false ∧
      (∀ zeros, (ofText (List.replicate zeros '0' ++ run)).value = (ofText run).value) ∧
      ∀ zeros ignored, run = used ++ ignored → '.' ∈ used →
        (ofText (used ++ List.replicate zeros '0' ++ ignored)).value = (ofText run).value := by
  constructor
  · obtain ⟨used, ignored, q, rfl, denotes, ends⟩ := exists_denotes numerals
    exact ⟨used, q, denotes.isUsed ends⟩
  intro used q isUsed
  obtain ⟨ignored, rfl, ends⟩ := isUsed.exists_append numerals
  have denotes := isUsed.denotes
  obtain ⟨num, den, positive, same, value, exact_iff⟩ := denotes.value_ofText ends
  have nearest := (denotes.value_isNearest ends _).mpr rfl
  refine ⟨⟨ignored, rfl, ends⟩, ?_, ?_, ?_, nearest.eq_infinity_iff, nearest.sign, nearest.number, ?_, ?_⟩
  · intro none
    have noDigit : ¬ ∃ c ∈ used, c.isDigit = true := by
      rintro ⟨c, member, digit⟩
      rw [none c member] at digit
      cases digit
    obtain ⟨whole, part, read, digits, -, some⟩ := denotes.read ends
    have empty := not_not.mp (mt some.mpr noDigit)
    exact ⟨by simp [read, Literal.value, isNumeric, Literal.digits, empty],
      Bool.eq_false_of_not_eq_true fun exact => noDigit (exact_iff.mp exact).1⟩
  · intro digit
    refine ⟨denotes.value_isNearest ends, ?_⟩
    rw [exact_iff, and_iff_right digit]
    simp
  · rw [value, same]
    exact Double.nearest_eq_zero_iff positive num
  · intro zeros
    have wider : EndsAt (List.replicate zeros '0' ++ used) ignored :=
      ends.imp_right (And.imp_left (List.mem_append_right _))
    rw [← List.append_assoc]
    exact (((denotes.leading_zeros zeros).value_isNearest wider _).mp nearest).symm
  · intro zeros other split point
    obtain rfl := List.append_cancel_left split
    have wider : EndsAt (used ++ List.replicate zeros '0') ignored :=
      ends.imp_right (And.imp_left (List.mem_append_left _))
    exact (((denotes.trailing_zeros point zeros).value_isNearest wider _).mp nearest).symm

/-- Of `0.5.7` the front `0.5` is used. -/
theorem value_nearest_of_half :
    (∀ c ∈ ['0', '.', '5', '.', '7'], isNumeral c = true) ∧
      IsUsed ['0', '.', '5', '.', '7'] ['0', '.', '5'] (1 / 2) ∧
      (∀ x : Double, x.IsNearest (1 / 2) ↔ x = (ofText ['0', '.', '5', '.', '7']).value) ∧
      (ofText ['0', '.', '5', '.', '7']).isExact = false := by
  have numerals : ∀ c ∈ ['0', '.', '5', '.', '7'], isNumeral c = true := List.all_eq_true.mp rfl
  have denotes : Denotes ['0', '.', '5'] (1 / 2) := by
    have half : (1 / 2 : ℚ) =
        (Nat.ofDigitChars 10 ['0'] 0 : Nat) + (Nat.ofDigitChars 10 ['5'] 0 : Nat) / 10 ^ ['5'].length := by
      rw [show Nat.ofDigitChars 10 ['0'] 0 = 0 from rfl, show Nat.ofDigitChars 10 ['5'] 0 = 5 from rfl]
      norm_num
    rw [half]
    exact Denotes.decimal (show ∀ c ∈ ['0'] ++ ['5'], c.isDigit = true from List.all_eq_true.mp rfl)
  have used : IsUsed ['0', '.', '5', '.', '7'] ['0', '.', '5'] (1 / 2) :=
    denotes.isUsed (.inr ⟨by decide, ['7'], rfl⟩)
  obtain ⟨nearest, exact_iff⟩ := ((value_nearest_of_longest_front numerals).2 _ _ used).2.2.1 ⟨'0', by decide, rfl⟩
  exact ⟨numerals, used, nearest, Bool.eq_false_of_not_eq_true fun exact => by cases exact_iff.mp exact⟩

end Kaleidoscope.Literal
