import Kaleidoscope.Proofs.Number.Spelling
import Kaleidoscope.Proofs.Operator.Merging

/-! Written tables read back. The comma never is an operator and an integer has no colon in it, so every item is found
again. Only blanks are lost: an operator that is one does not come back. -/
namespace Kaleidoscope

namespace Text

variable {c : Char} {text digits : List Char} {drop : Char → Bool}

theorem not_isBlank_of_isDigit (digit : c.isDigit = true) : isBlank c = false := by
  have ascii : 48 ≤ c.toNat ∧ c.toNat ≤ 57 := by
    simpa [Char.isDigit, UInt32.le_iff_toNat_le] using digit
  simp [isBlank]
  omega

theorem not_isBlankAroundInteger (mark : isBlank c = false) : isBlankAroundInteger c = false := by
  simp [isBlankAroundInteger, mark]

theorem trimBoth_eq_self (kept : ∀ c ∈ text, drop c = false) : trimBoth drop text = text := by
  have front : text.dropWhile drop = text := List.dropWhile_eq_self_iff.mpr fun some => by
    rw [kept _ (List.getElem_mem some)]
    exact Bool.false_ne_true
  have back : text.reverse.dropWhile drop = text.reverse := List.dropWhile_eq_self_iff.mpr fun some => by
    rw [kept _ (List.mem_reverse.mp (List.getElem_mem some))]
    exact Bool.false_ne_true
  rw [trimBoth, front, back, List.reverse_reverse]

theorem trimBoth_cons (dropped : drop c = true) (text : List Char) :
    trimBoth drop (c :: text) = trimBoth drop text := by
  rw [trimBoth, List.dropWhile_cons_of_pos dropped]
  rfl

theorem ungroupedDigits?_eq (some : digits ≠ []) (decimal : ∀ c ∈ digits, isDecimalDigit c = true) :
    ungroupedDigits? digits = .some digits := by
  induction digits with
  | nil => contradiction
  | cons c rest ih =>
    obtain ⟨first, others⟩ := List.forall_mem_cons.mp decimal
    cases rest with
    | nil => simp [ungroupedDigits?, first]
    | cons d rest =>
      have digit : d ≠ '_' := by
        rintro rfl
        exact absurd (others '_' List.mem_cons_self) (by decide)
      rw [ungroupedDigits?, if_pos first, ih (by simp) others]
      · rfl
      · exact List.cons_ne_nil d rest
      · exact fun _ same => digit (List.cons.inj same).1

theorem natural?_toDigits {n : Nat} (short : n < 10 ^ maxIntegerDigits) :
    natural? (Nat.toDigits 10 n) = some n := by
  have digits : ∀ c ∈ Nat.toDigits 10 n, c.isDigit = true := fun c member =>
    Nat.isDigit_of_mem_toDigits (by decide) (Nat.le_refl 10) member
  have few : (Nat.toDigits 10 n).length ≤ maxIntegerDigits :=
    (Nat.length_toDigits_le_iff (by decide) (by decide)).mpr short
  rw [natural?, ungroupedDigits?_eq Nat.toDigits_ne_nil fun c member => isDecimalDigit_of_isDigit (digits c member)]
  simp [few, digitsValue_eq digits, Nat.ofDigitChars_ten_toDigits]

theorem toList_toString_integer (n : Int) :
    (toString n).toList = if n < 0 then '-' :: Nat.toDigits 10 n.natAbs else Nat.toDigits 10 n.natAbs := by
  cases n with
  | ofNat n => simp [Int.repr]
  | negSucc n => simp [Int.repr]

theorem mem_toString_integer {n : Int} (member : c ∈ (toString n).toList) : c = '-' ∨ c.isDigit = true := by
  have digits : c ∈ Nat.toDigits 10 n.natAbs → c.isDigit = true :=
    Nat.isDigit_of_mem_toDigits (by decide) (Nat.le_refl 10)
  rw [toList_toString_integer] at member
  split at member
  · exact (List.mem_cons.mp member).imp_right digits
  · exact .inr (digits member)

theorem not_isBlank_of_mem_toString {n : Int} (member : c ∈ (toString n).toList) : isBlank c = false := by
  rcases mem_toString_integer member with rfl | digit
  · decide
  · exact not_isBlank_of_isDigit digit

theorem integer?_toString {n : Int} (short : n.natAbs < 10 ^ maxIntegerDigits) : integer? (toString n) = some n := by
  have untrimmed : trimBoth isBlankAroundInteger (toString n).toList = (toString n).toList :=
    trimBoth_eq_self fun c member => not_isBlankAroundInteger (not_isBlank_of_mem_toString member)
  rw [integer?, untrimmed, toList_toString_integer]
  by_cases negative : n < 0
  · have value : -(n.natAbs : Int) = n := by omega
    rw [if_pos negative]
    change (natural? (Nat.toDigits 10 n.natAbs)).map (fun n => -Int.ofNat n) = some n
    rw [natural?_toDigits short, Option.map_some, Int.ofNat_eq_natCast, value]
  · have value : (n.natAbs : Int) = n := by omega
    obtain ⟨d, rest, digits⟩ := List.exists_cons_of_ne_nil (Nat.toDigits_ne_nil (b := 10) (n := n.natAbs))
    have digit : d.isDigit = true :=
      Nat.isDigit_of_mem_toDigits (by decide) (Nat.le_refl 10) (digits ▸ List.mem_cons_self)
    rw [if_neg negative]
    split
    · next plus =>
      cases digits.symm.trans plus
      exact absurd digit (by decide)
    · next minus =>
      cases digits.symm.trans minus
      exact absurd digit (by decide)
    · rw [natural?_toDigits short, Option.map_some, Int.ofNat_eq_natCast, value]

end Text

namespace OperatorSpec

variable {c op : Char} {text front back : List Char}

theorem fields_eq_splitOn (separator : Char) (text : List Char) : fields separator text = text.splitOn separator := by
  induction text with
  | nil => rfl
  | cons c rest ih =>
    rw [fields, List.splitOn_cons_eq_if_modifyHead, ih]
    simp only [beq_iff_eq]
    split
    · rfl
    · cases split : rest.splitOn separator with
      | nil => exact absurd split (List.splitOn_ne_nil _ _)
      | cons first more => rfl

theorem splitLast?_eq (separator : Char) (front : List Char) (free : separator ∉ back) :
    splitLast? separator (front ++ separator :: back) = some (front, back) := by
  have others : ∀ c ∈ back.reverse, (c != separator) = true := by
    intro c member
    simpa using fun same : c = separator => free (same ▸ List.mem_reverse.mp member)
  have reversed : (front ++ separator :: back).reverse = back.reverse ++ separator :: front.reverse := by simp
  rw [splitLast?, reversed, List.dropWhile_append_of_pos others, List.takeWhile_append_of_pos others]
  simp

theorem colon_notMem_toString (n : Int) : ':' ∉ (toString n).toList := by
  intro member
  rcases Text.mem_toString_integer member with same | digit
  · cases same
  · exact absurd digit (by decide)

theorem comma_notMem_toString (n : Int) : ',' ∉ (toString n).toList := by
  intro member
  rcases Text.mem_toString_integer member with same | digit
  · cases same
  · exact absurd digit (by decide)

def written (entry : Char × Int) : List Char := entry.1 :: ':' :: (toString entry.2).toList

theorem toList_write (table : OperatorTable) :
    (write table).toList = [','].intercalate (table.entries.map written) := by
  rw [write, String.toList_intercalate, List.map_map]
  congr 1
  exact List.map_congr_left fun entry _ => by simp [written]

theorem comma_notMem_written {entry : Char × Int} (h : isOperatorCharacter entry.1 = true) : ',' ∉ written entry := by
  intro member
  rcases List.mem_cons.mp member with same | member
  · rw [← same] at h
    exact absurd h (by decide)
  · rcases List.mem_cons.mp member with same | member
    · cases same
    · exact comma_notMem_toString entry.2 member

theorem not_isBlank_behind_operator (entry : Char × Int) :
    ∀ c ∈ ':' :: (toString entry.2).toList, Text.isBlank c = false := by
  intro c member
  rcases List.mem_cons.mp member with rfl | member
  · decide
  · exact Text.not_isBlank_of_mem_toString member

theorem trim_written (entry : Char × Int) : Text.trimBoth Text.isBlank (written entry) =
    if Text.isBlank entry.1 then ':' :: (toString entry.2).toList else written entry := by
  have others := not_isBlank_behind_operator entry
  split
  · next blank => rw [written, Text.trimBoth_cons blank, Text.trimBoth_eq_self others]
  · next mark => exact Text.trimBoth_eq_self (List.forall_mem_cons.mpr ⟨Bool.eq_false_of_not_eq_true mark, others⟩)

/-- In a written table nothing is lost between the commas but an operator that is a blank. -/
theorem items_write (table : OperatorTable) :
    items (write table) = table.entries.map fun entry => Text.trimBoth Text.isBlank (written entry) := by
  have pieces : ((fields ',' (write table).toList).map (Text.trimBoth Text.isBlank)).filter (!·.isEmpty) =
      ((table.entries.map written).map (Text.trimBoth Text.isBlank)).filter (!·.isEmpty) := by
    rw [fields_eq_splitOn, toList_write]
    -- A list of no items is one empty field, which is dropped like any other.
    cases some : table.entries with
    | nil => rfl
    | cons entry more =>
      rw [← some, List.splitOn_intercalate]
      · intro piece member
        obtain ⟨entry, present, rfl⟩ := List.mem_map.mp member
        exact comma_notMem_written (table.admissible entry present)
      · simp [some]
  rw [items, pieces, List.map_map]
  refine List.filter_eq_self.mpr fun piece member => ?_
  obtain ⟨entry, _, rfl⟩ := List.mem_map.mp member
  rw [Function.comp_apply, trim_written]
  split <;> rfl

theorem item_written {entry : Char × Int} (short : entry.2.natAbs < 10 ^ Text.maxIntegerDigits) :
    item (Text.trimBoth Text.isBlank (written entry)) =
      if Text.isBlank entry.1 then .error (.itemForm (":" ++ toString entry.2))
      else .ok (entry.1.toString, entry.2) := by
  have free := colon_notMem_toString entry.2
  rw [trim_written]
  split
  · next blank =>
    have split : splitLast? ':' (':' :: (toString entry.2).toList) = some ([], (toString entry.2).toList) :=
      splitLast?_eq ':' [] free
    have text : String.ofList (':' :: (toString entry.2).toList) = ":" ++ toString entry.2 :=
      String.toList_injective (by simp)
    rw [item, split, text]
  · have split : splitLast? ':' (written entry) = some ([entry.1], (toString entry.2).toList) :=
      splitLast?_eq ':' [entry.1] free
    rw [item, split]
    simp only [String.ofList_toList, Text.integer?_toString short]
    rfl

/-- Reading a written table gives its entries, up to the first operator that is a blank. -/
theorem mapM_item_written {entries : List (Char × Int)}
    (short : ∀ entry ∈ entries, entry.2.natAbs < 10 ^ Text.maxIntegerDigits) :
    (entries.map fun entry => Text.trimBoth Text.isBlank (written entry)).mapM item =
      match entries.find? fun entry => Text.isBlank entry.1 with
      | none => .ok (entries.map (Prod.map Char.toString id))
      | some entry => .error (.itemForm (":" ++ toString entry.2)) := by
  induction entries with
  | nil => rfl
  | cons entry entries ih =>
    obtain ⟨first, others⟩ := List.forall_mem_cons.mp short
    rw [List.map_cons, List.mapM_cons, item_written first, ih others]
    cases blank : Text.isBlank entry.1 with
    | true => simp [blank, bind, Except.bind]
    | false =>
      cases found : entries.find? fun entry => Text.isBlank entry.1 with
      | none =>
        simp [blank, found, bind, Except.bind, pure, Except.pure]
        rfl
      | some entry => simp [blank, found, bind, Except.bind]

/-- A written table whose integers are not too long reads back if no operator is a blank. Otherwise the first operator
that is one is missed. -/
theorem read_write (table : OperatorTable)
    (short : ∀ entry ∈ table.entries, entry.2.natAbs < 10 ^ Text.maxIntegerDigits) :
    (do
      let entries ← read (write table)
      OperatorTable.ofScalars (toScalars entries)) =
    match table.entries.find? fun entry => Text.isBlank entry.1 with
    | none => .ok table
    | some entry => .error (.itemForm (":" ++ toString entry.2)) := by
  rw [read, items_write, mapM_item_written short]
  cases table.entries.find? fun entry => Text.isBlank entry.1 with
  | some entry => rfl
  | none =>
    change OperatorTable.ofScalars (toScalars (Association.insertAll [] _)) = .ok table
    rw [toScalars_insertAll, ← ofTable, toScalars_ofTable]
    exact (OperatorTable.ofScalars_collected table.toScalars).trans table.ofScalars_toScalars

/-- The colon and the minus sign can be operators like any other. -/
theorem read_write_colon :
    let table := (OperatorTable.empty.insert ':' 5 rfl).insert '-' (-10) rfl
    write table = "::5,-:-10" ∧
      (do
        let entries ← read (write table)
        OperatorTable.ofScalars (toScalars entries)) = .ok table := by
  intro table
  refine ⟨by decide, read_write table ?_⟩
  intro entry member
  have small : entry.2.natAbs < 10 ^ 2 :=
    (by decide : ∀ entry ∈ [(':', 5), ('-', (-10 : Int))], entry.2.natAbs < 10 ^ 2) entry member
  exact Nat.lt_of_lt_of_le small (Nat.pow_le_pow_right (by decide) (by decide))

/-- So can a no-break space, but this table does not read back. -/
theorem read_write_no_break_space :
    let table := OperatorTable.empty.insert '\u00a0' 10 rfl
    (do
      let entries ← read (write table)
      OperatorTable.ofScalars (toScalars entries)) = .error (.itemForm ":10") := by
  rfl

end OperatorSpec
end Kaleidoscope
