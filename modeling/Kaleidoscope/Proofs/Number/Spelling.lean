import Kaleidoscope.Number.Literal
import Kaleidoscope.Proofs.Number.Rounding
import Mathlib.Data.List.TakeWhile

/-! Spelt numbers read back. A decimal denotes a quotient of naturals, and its positional notation is a
literal of the same quotient; the digits of a double are chosen so that this quotient rounds to it. -/
namespace Kaleidoscope

namespace Text

theorem digitValue?_of_isDigit {c : Char} (h : c.isDigit = true) :
    digitValue? c = some (c.toNat - '0'.toNat) := by
  have ascii : 48 ≤ c.toNat ∧ c.toNat < 48 + 10 := by
    simp only [Char.isDigit, Bool.and_eq_true, decide_eq_true_eq, ge_iff_le,
      UInt32.le_iff_toNat_le] at h
    exact ⟨h.1, Nat.lt_succ_of_le h.2⟩
  simp [digitValue?, digitZeros, ascii]

theorem isDecimalDigit_of_isDigit {c : Char} (h : c.isDigit = true) : isDecimalDigit c = true := by
  rw [isDecimalDigit, digitValue?_of_isDigit h]
  rfl

theorem digitsValue_eq {digits : List Char} (h : ∀ c ∈ digits, c.isDigit = true) :
    digitsValue digits = Nat.ofDigitChars 10 digits 0 := by
  suffices ∀ init, digits.foldl (fun n c => 10 * n + (digitValue? c).getD 0) init =
      Nat.ofDigitChars 10 digits init from this 0
  induction digits with
  | nil => simp
  | cons c rest ih =>
    intro init
    have first := digitValue?_of_isDigit (h c List.mem_cons_self)
    rw [List.foldl_cons, Nat.ofDigitChars_cons, first]
    exact ih (fun c member => h c (List.mem_cons_of_mem _ member)) _

end Text

namespace Literal

/-- A whole part and a fraction as they are written; without fraction there is no point. -/
def written (whole part : List Char) : List Char :=
  whole ++ if part.isEmpty then [] else '.' :: part

theorem ofText_written {whole part : List Char} (digits : ∀ c ∈ whole ++ part, c.isDigit = true) :
    ofText (written whole part) = ⟨whole, part, []⟩ := by
  have front : ∀ c ∈ whole, Text.isDecimalDigit c = true := fun c member =>
    Text.isDecimalDigit_of_isDigit (digits c (List.mem_append_left _ member))
  have back : ∀ c ∈ part, Text.isDecimalDigit c = true := fun c member =>
    Text.isDecimalDigit_of_isDigit (digits c (List.mem_append_right _ member))
  have point : Text.isDecimalDigit '.' = false := by decide
  rw [ofText, written, List.takeWhile_append_of_pos front, List.dropWhile_append_of_pos front]
  cases part with
  | nil => simp
  | cons c rest =>
    have takenBack := List.takeWhile_eq_self_iff.mpr back
    have droppedBack := List.dropWhile_eq_nil_iff.mpr back
    simp [point, takenBack, droppedBack]

/-- A text of digits, with at most one point among them, that is rounded to a number. -/
def Spells (text : List Char) (x : Double) : Prop :=
  ∃ whole part, text = written whole part ∧ whole ≠ [] ∧ (∀ c ∈ whole ++ part, c.isDigit = true) ∧
    Double.nearest (Nat.ofDigitChars 10 (whole ++ part) 0) (tenTo part.length) = x

theorem spells_natural (n : Nat) : Spells (toString n).toList (Double.nearest n 1) := by
  have text : (toString n).toList = written (Nat.toDigits 10 n) [] := by simp [written]
  refine ⟨Nat.toDigits 10 n, [], text, Nat.toDigits_ne_nil, ?_, ?_⟩
  · intro c member
    rw [List.append_nil] at member
    exact Nat.isDigit_of_mem_toDigits (by decide) (Nat.le_refl 10) member
  · rw [List.append_nil, Nat.ofDigitChars_ten_toDigits]
    rfl

theorem Spells.value_eq {text : List Char} {x : Double} (h : Spells text x) :
    (ofText text).value = x ∧ (ofText text).isExact = true := by
  obtain ⟨whole, part, rfl, some, digits, nearest⟩ := h
  have numeric : (whole ++ part).any Char.isDigit = true := by
    obtain ⟨c, rest, rfl⟩ := List.exists_cons_of_ne_nil some
    simp [digits c (by simp)]
  rw [ofText_written digits]
  simp [value, isExact, isNumeric, Literal.digits, numeric, Text.digitsValue_eq digits, nearest]

theorem Spells.head_isDigit {text : List Char} {x : Double} (h : Spells text x) :
    ∃ c rest, text = c :: rest ∧ c.isDigit = true := by
  obtain ⟨whole, part, rfl, some, digits, _⟩ := h
  obtain ⟨c, rest, rfl⟩ := List.exists_cons_of_ne_nil some
  exact ⟨c, _, rfl, digits c (by simp)⟩

theorem Spells.digit_or_point {text : List Char} {x : Double} (h : Spells text x) :
    ∀ c ∈ text, c.isDigit = true ∨ c = '.' := by
  obtain ⟨whole, part, rfl, _, digits, _⟩ := h
  intro c member
  rcases List.mem_append.mp member with front | back
  · exact .inl (digits c (List.mem_append_left _ front))
  · cases part with
    | nil => cases back
    | cons d rest =>
      rcases List.mem_cons.mp back with point | digit
      · exact .inr point
      · exact .inl (digits c (List.mem_append_right _ digit))

end Literal

namespace Decimal

def Denotes (d : Decimal) (num den : Nat) : Prop :=
  Nat.ofDigitChars 10 d.digits 0 * 10 ^ (d.point - d.digits.length).toNat * den =
    num * 10 ^ (d.digits.length - d.point).toNat

def whole (d : Decimal) : List Char :=
  d.digits.take d.point.toNat ++ List.replicate (d.point.toNat - d.digits.length) '0'

def part (d : Decimal) : List Char :=
  List.replicate (-d.point).toNat '0' ++ d.digits.drop d.point.toNat

theorem positional_eq (d : Decimal) :
    d.positional.toList = Literal.written (if d.whole.isEmpty then ['0'] else d.whole) d.part :=
  String.toList_ofList

/-- The digits of the notation without its point count the decimal in units of its last place. -/
theorem value_whole_part (d : Decimal) :
    Nat.ofDigitChars 10 (d.whole ++ d.part) 0 * 10 ^ (d.digits.length - d.point).toNat =
      Nat.ofDigitChars 10 d.digits 0 * 10 ^ (d.point - d.digits.length).toNat *
        10 ^ d.part.length := by
  rcases d with ⟨digits, point⟩
  rcases Int.lt_or_le point 0 with small | large
  · have none : point.toNat = 0 := by omega
    have shift : (point - digits.length).toNat = 0 := by omega
    have places : (digits.length - point).toNat = (-point).toNat + digits.length := by omega
    simp [whole, part, none, shift, places, Nat.ofDigitChars_append]
  · obtain ⟨places, rfl⟩ := Int.eq_ofNat_of_zero_le large
    rcases Nat.le_total places digits.length with inside | outside
    · have shift : ((places : Int) - digits.length).toNat = 0 := by omega
      have back : ((digits.length : Int) - places).toNat = digits.length - places := by omega
      simp [whole, part, Nat.sub_eq_zero_of_le inside, shift, back]
    · have shift : ((places : Int) - digits.length).toNat = places - digits.length := by omega
      have back : ((digits.length : Int) - places).toNat = 0 := by omega
      simp [whole, part, List.take_of_length_le outside, List.drop_of_length_le outside, shift, back,
        Nat.ofDigitChars_append, Nat.mul_comm]

theorem isDigit_of_mem_whole_part {d : Decimal} (digits : ∀ c ∈ d.digits, c.isDigit = true) :
    ∀ c ∈ d.whole ++ d.part, c.isDigit = true := by
  intro c member
  simp only [whole, part, List.mem_append, List.mem_replicate] at member
  rcases member with (taken | ⟨_, rfl⟩) | (⟨_, rfl⟩ | dropped)
  · exact digits c (List.mem_of_mem_take taken)
  · rfl
  · rfl
  · exact digits c (List.mem_of_mem_drop dropped)

theorem spells_positional {d : Decimal} (digits : ∀ c ∈ d.digits, c.isDigit = true) {num den : Nat}
    (positive : 0 < den) (denotes : d.Denotes num den) :
    Literal.Spells d.positional.toList (Double.nearest num den) := by
  let front := if d.whole.isEmpty then ['0'] else d.whole
  have some : front ≠ [] := by
    simp only [front]
    split <;> simp_all
  have allDigits : ∀ c ∈ front ++ d.part, c.isDigit = true := by
    have plain := isDigit_of_mem_whole_part digits
    simp only [front]
    split <;> simp_all
  have same : Nat.ofDigitChars 10 (front ++ d.part) 0 = Nat.ofDigitChars 10 (d.whole ++ d.part) 0 := by
    simp only [front]
    split <;> simp_all [Nat.ofDigitChars_cons]
  refine ⟨front, d.part, positional_eq d, some, allDigits,
    Double.nearest_congr (Double.tenTo_pos _) positive ?_⟩
  -- Both quotients are those of `d`, so they are compared at its places.
  apply Nat.eq_of_mul_eq_mul_right (Nat.pow_pos (n := (d.digits.length - d.point).toNat) (show 0 < 10 by decide))
  calc Nat.ofDigitChars 10 (front ++ d.part) 0 * den * 10 ^ (d.digits.length - d.point).toNat
      = Nat.ofDigitChars 10 (d.whole ++ d.part) 0 * 10 ^ (d.digits.length - d.point).toNat * den := by
        rw [same]; ring
    _ = Nat.ofDigitChars 10 d.digits 0 * 10 ^ (d.point - d.digits.length).toNat * den *
          10 ^ d.part.length := by rw [value_whole_part]; ring
    _ = num * tenTo d.part.length * 10 ^ (d.digits.length - d.point).toNat := by
        rw [denotes, Double.tenTo_eq]; ring

theorem isDigit_of_mem_ofScaled {significand : Nat} {exponent : Int} {c : Char}
    (member : c ∈ (ofScaled significand exponent).digits) : c.isDigit = true := by
  apply Nat.isDigit_of_mem_toDigits (by decide) (Nat.le_refl 10)
  exact List.mem_reverse.mp ((List.dropWhile_suffix _).mem (List.mem_reverse.mp member))

/-- The digits left out at the end are zeros. -/
theorem toDigits_eq_ofScaled (significand : Nat) (exponent : Int) :
    ∃ zeros, Nat.toDigits 10 significand =
      (ofScaled significand exponent).digits ++ List.replicate zeros '0' := by
  let reversed := (Nat.toDigits 10 significand).reverse
  refine ⟨(reversed.takeWhile (· == '0')).length, ?_⟩
  have zeros : reversed.takeWhile (· == '0') =
      List.replicate (reversed.takeWhile (· == '0')).length '0' :=
    List.eq_replicate_of_mem fun c member => by simpa using List.mem_takeWhile_imp member
  have split : reversed = reversed.takeWhile (· == '0') ++ reversed.dropWhile (· == '0') :=
    List.takeWhile_append_dropWhile.symm
  calc Nat.toDigits 10 significand
      = reversed.reverse := (List.reverse_reverse _).symm
    _ = (reversed.dropWhile (· == '0')).reverse ++ (reversed.takeWhile (· == '0')).reverse := by
        rw [← List.reverse_append, ← split]
    _ = _ := by rw [zeros, List.reverse_replicate, List.length_replicate]; rfl

theorem denotes_ofScaled (significand : Nat) (exponent : Int) :
    (ofScaled significand exponent).Denotes (significand * tenTo exponent.toNat)
      (tenTo (-exponent).toNat) := by
  obtain ⟨zeros, split⟩ := toDigits_eq_ofScaled significand exponent
  have value : Nat.ofDigitChars 10 (ofScaled significand exponent).digits 0 * 10 ^ zeros =
      significand := by
    have read := Nat.ofDigitChars_ten_toDigits (n := significand)
    rw [split, Nat.ofDigitChars_append, Nat.ofDigitChars_replicate_zero] at read
    rw [Nat.mul_comm, read]
  have point : (ofScaled significand exponent).point =
      (ofScaled significand exponent).digits.length + zeros + exponent := by
    have length := congrArg List.length split
    rw [List.length_append, List.length_replicate] at length
    simp only [ofScaled] at length ⊢
    omega
  generalize ofScaled significand exponent = d at value point
  have powers : (d.point - d.digits.length).toNat + (-exponent).toNat =
      zeros + exponent.toNat + (d.digits.length - d.point).toNat := by omega
  rw [Denotes, ← value, Double.tenTo_eq, Double.tenTo_eq, Nat.mul_assoc, ← Nat.pow_add, powers]
  ring

end Decimal

namespace Double

theorem readBack_of_onGrid? {x : Double} {exponent : Int} {d : Decimal}
    (h : Decimal.onGrid? x exponent = some d) :
    ∃ significand, d = Decimal.ofScaled significand exponent ∧
      Decimal.readBack significand exponent = x := by
  unfold Decimal.onGrid? at h
  generalize Decimal.gridFraction x.units exponent = fraction at h
  simp only [beq_iff_eq] at h
  generalize (if divRoundEven fraction.1 fraction.2 = fraction.1 / fraction.2 then
    fraction.1 / fraction.2 + 1 else fraction.1 / fraction.2) = farther at h
  split at h
  · next reads => exact ⟨_, (Option.some.inj h).symm, reads⟩
  split at h
  · next reads => exact ⟨_, (Option.some.inj h).symm, reads⟩
  · cases h

theorem readBack_neg (significand places : Nat) :
    Decimal.readBack significand (-(places : Int)) = nearest significand (tenTo places) := by
  have none : (-(places : Int)).toNat = 0 := by omega
  rw [Decimal.readBack, none, Int.neg_neg, Int.toNat_natCast, tenTo_eq 0, Nat.pow_zero, Nat.mul_one]

theorem fives_mul_twos (n : Nat) : Nat.pow 5 n * twoTo n = tenTo n := (Nat.mul_pow 5 2 n).symm

/-- Two and five make ten, so with as many places as the unit has twos every magnitude is a decimal. -/
theorem exact_reads {x : Double} (sign : x.isNegative = false) (finite : x.isFinite = true) :
    ∃ significand exponent, Decimal.exact x.units = Decimal.ofScaled significand exponent ∧
      Decimal.readBack significand exponent = x := by
  have unit : unitsPerOne = twoTo 1074 := rfl
  have least : (-1074 : Int) = -((1074 : Nat) : Int) := rfl
  unfold Decimal.exact
  generalize 1074 = places at unit least ⊢
  refine ⟨_, _, rfl, ?_⟩
  rw [least, readBack_neg]
  apply nearest_units sign finite (tenTo_pos _)
  rw [unit, Nat.mul_assoc, fives_mul_twos]

/-- Whether or not seventeen digits are enough, the digits of a number read back. -/
theorem shortest_reads {x : Double} (sign : x.isNegative = false) (finite : x.isFinite = true) :
    ∃ significand exponent, Decimal.shortest x = Decimal.ofScaled significand exponent ∧
      Decimal.readBack significand exponent = x := by
  simp only [Decimal.shortest]
  cases found : (List.range Decimal.mostDigits).findSome? fun (more : Nat) =>
      Decimal.onGrid? x (Decimal.leadingExponent x.units - more) with
  | none => exact exact_reads sign finite
  | some d =>
    obtain ⟨more, _, grid⟩ := List.exists_of_findSome?_eq_some found
    obtain ⟨significand, same, reads⟩ := readBack_of_onGrid? grid
    exact ⟨significand, _, same, reads⟩

theorem isSome_spelling?_iff {x : Double} :
    x.spelling?.isSome = true ↔ x.isNegative = false ∧ x.isFinite = true := by
  unfold spelling?
  cases x.isNegative <;> cases x.isFinite <;> simp
  split <;> rfl

theorem spells_spelling {x : Double} {text : String} (h : x.spelling? = some text) :
    Literal.Spells text.toList x := by
  obtain ⟨sign, finite⟩ := isSome_spelling?_iff.mp (Option.isSome_of_eq_some h)
  simp only [spelling?, sign, finite, Bool.not_true, Bool.or_self, Bool.false_eq_true, if_false] at h
  split at h
  · next whole =>
    obtain rfl := Option.some.inj h
    have divides := Nat.div_mul_cancel (Nat.dvd_of_mod_eq_zero (eq_of_beq whole))
    have same : nearest (x.units / unitsPerOne) 1 = x :=
      nearest_units sign finite Nat.one_pos (by rw [divides, Nat.mul_one])
    have spells := Literal.spells_natural (x.units / unitsPerOne)
    rwa [same] at spells
  · obtain rfl := Option.some.inj h
    obtain ⟨significand, exponent, same, reads⟩ := shortest_reads sign finite
    have spells := Decimal.spells_positional
      (fun c (member : c ∈ (Decimal.ofScaled significand exponent).digits) =>
        Decimal.isDigit_of_mem_ofScaled member)
      (tenTo_pos _) (Decimal.denotes_ofScaled significand exponent)
    rw [same, ← reads]
    exact spells

end Double

/-- The characters that numbers are shown with. -/
def Decimal.IsFigure (c : Char) : Prop := c.isAlphanum = true ∨ c = '.' ∨ c = '+' ∨ c = '-'

namespace Decimal

variable {d : Decimal} {c : Char}

theorem isFigure_of_isDigit (digit : c.isDigit = true) : IsFigure c := .inl (by simp [Char.isAlphanum, digit])

theorem isFigure_of_mem_positional (digits : ∀ c ∈ d.digits, c.isDigit = true) (member : c ∈ d.positional.toList) :
    IsFigure c := by
  have inner := isDigit_of_mem_whole_part digits
  simp only [positional_eq, Literal.written, List.mem_append] at member inner
  rcases member with front | back
  · split at front
    · exact isFigure_of_isDigit (by simp_all)
    · exact isFigure_of_isDigit (inner c (.inl front))
  · split at back
    · cases back
    · rcases List.mem_cons.mp back with rfl | digit
      · exact .inr (.inl rfl)
      · exact isFigure_of_isDigit (inner c (.inr digit))

theorem isFigure_of_mem_scientific (digits : ∀ c ∈ d.digits, c.isDigit = true) (member : c ∈ d.scientific.toList) :
    IsFigure c := by
  have power : ∀ c ∈ (toString (d.point - 1).natAbs).toList, IsFigure c := by
    intro c member
    have digit : c ∈ Nat.toDigits 10 (d.point - 1).natAbs := by simpa using member
    exact isFigure_of_isDigit (Nat.isDigit_of_mem_toDigits (by decide) (Nat.le_refl 10) digit)
  simp only [scientific, String.toList_append, List.mem_append, String.toList_ofList] at member
  rcases member with (((lead | point) | e) | sign) | exponent
  · exact isFigure_of_isDigit (digits c (List.mem_of_mem_take lead))
  · split at point
    · cases point
    · rcases List.mem_cons.mp point with rfl | digit
      · exact .inr (.inl rfl)
      · exact isFigure_of_isDigit (digits c (List.mem_of_mem_drop digit))
  · obtain rfl : c = 'e' := by simpa using e
    exact .inl rfl
  · split at sign
    · exact .inr (.inr (.inr (by simpa using sign)))
    · exact .inr (.inr (.inl (by simpa using sign)))
  · split at exponent
    · rcases List.mem_append.mp (String.toList_append ▸ exponent) with zero | digit
      · obtain rfl : c = '0' := by simpa using zero
        exact .inl rfl
      · exact power c digit
    · exact power c exponent

theorem isFigure_of_mem_text {style : Notation} (digits : ∀ c ∈ d.digits, c.isDigit = true)
    (member : c ∈ (d.text style).toList) : IsFigure c := by
  unfold text at member
  split at member
  · split at member
    · rcases List.mem_append.mp (String.toList_append ▸ member) with front | zero
      · exact isFigure_of_mem_positional digits front
      · obtain rfl | rfl : c = '.' ∨ c = '0' := by simpa using zero
        · exact .inr (.inl rfl)
        · exact .inl rfl
    · exact isFigure_of_mem_positional digits member
  · exact isFigure_of_mem_scientific digits member

end Decimal

namespace Double

variable {x : Double} {c : Char}

theorem isFigure_of_mem_textWith {style : Decimal.Notation} {digits : Double → Decimal} {d : Decimal}
    (same : digits x = d) (all : ∀ c ∈ d.digits, c.isDigit = true) (member : c ∈ (x.textWith style digits).toList) :
    Decimal.IsFigure c := by
  subst same
  have word : ∀ text : List Char, (∀ c ∈ text, c.isAlphanum = true ∨ c = '.') → c ∈ text → Decimal.IsFigure c :=
    fun text plain member => (plain c member).imp_right .inl
  have magnitude (shown : c ∈ (if !x.isFinite then "inf"
      else if x.units == 0 then (if style.fractionShown then "0.0" else "0") else (digits x).text style).toList) :
      Decimal.IsFigure c := by
    split at shown
    · exact word _ (by simp) shown
    split at shown
    · split at shown
      · exact word _ (by simp) shown
      · exact word _ (by simp) shown
    · exact Decimal.isFigure_of_mem_text all shown
  unfold textWith at member
  split at member
  · exact word _ (by simp) member
  · dsimp only at member
    split at member
    · rcases List.mem_append.mp (String.toList_append ▸ member) with sign | shown
      · exact .inr (.inr (.inr (by simpa using sign)))
      · exact magnitude shown
    · exact magnitude member

theorem isFigure_of_mem_briefText (member : c ∈ x.briefText.toList) : Decimal.IsFigure c :=
  isFigure_of_mem_textWith rfl (fun _ digit => Decimal.isDigit_of_mem_ofScaled digit) member

theorem isDigit_of_mem_shortest (member : c ∈ (Decimal.shortest x).digits) : c.isDigit = true := by
  simp only [Decimal.shortest] at member
  cases found : (List.range Decimal.mostDigits).findSome? fun (more : Nat) =>
      Decimal.onGrid? x (Decimal.leadingExponent x.units - more) with
  | none =>
    rw [found] at member
    exact Decimal.isDigit_of_mem_ofScaled member
  | some d =>
    obtain ⟨more, _, grid⟩ := List.exists_of_findSome?_eq_some found
    obtain ⟨significand, same, -⟩ := readBack_of_onGrid? grid
    rw [found, Option.getD_some, same] at member
    exact Decimal.isDigit_of_mem_ofScaled member

theorem isFigure_of_mem_fullText (member : c ∈ x.fullText.toList) : Decimal.IsFigure c := by
  rw [fullText] at member
  refine isFigure_of_mem_textWith rfl ?_ member
  intro c digit
  exact isDigit_of_mem_shortest digit

end Double

end Kaleidoscope
