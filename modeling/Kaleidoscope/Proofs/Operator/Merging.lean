import Mathlib.Tactic.Choose
import Kaleidoscope.Operator.Spec
import Kaleidoscope.Proofs.Operator.Association

/-! Entries of a configuration laid over a table. They are accepted or refused as a whole, and what is accepted are
the entries themselves, laid over those of the table. -/
namespace Kaleidoscope

theorem exists_of_bind_eq_ok {ε α β : Type} {first : Except ε α} {next : α → Except ε β} {result : β}
    (made : first >>= next = .ok result) : ∃ value, first = .ok value ∧ next value = .ok result := by
  cases first with
  | error fault => cases made
  | ok value => exact ⟨value, rfl, made⟩

namespace OperatorTable

def scalars (entry : Char × Int) : Scalar × Scalar := Prod.map (fun op => .text op.toString) .integer entry

theorem toString_injective : Function.Injective Char.toString := fun op other same => by
  simpa using congrArg String.toList same

theorem text_toString_injective : Function.Injective fun op : Char => Scalar.text op.toString :=
  fun _ _ same => toString_injective (Scalar.text.inj same)

variable {table base : OperatorTable} {op precedence : Scalar} {entry : Scalar × Scalar}
  {entries more last : List (Scalar × Scalar)}

theorem toScalars_eq (table : OperatorTable) : table.toScalars = table.entries.map scalars := rfl

theorem toScalars_insert (table : OperatorTable) (op : Char) (precedence : Int) (h : isOperatorCharacter op = true) :
    (table.insert op precedence h).toScalars =
      Association.insert (.text op.toString) (.integer precedence) table.toScalars :=
  Association.insert_rename text_toString_injective Scalar.integer op precedence table.entries

theorem scalars_injective : Function.Injective scalars := by
  rintro ⟨op, precedence⟩ ⟨other, precedence'⟩ same
  obtain ⟨text, integer⟩ := Prod.mk.inj same
  exact Prod.ext (text_toString_injective text) (Scalar.integer.inj integer)

theorem toScalars_injective : Function.Injective toScalars := by
  rintro ⟨entries, _, _⟩ ⟨others, _, _⟩ same
  have same := (List.map_inj_right fun _ _ same => scalars_injective same).mp same
  subst same
  rfl

theorem nodup_keys_toScalars (table : OperatorTable) : (Association.keys table.toScalars).Nodup := by
  have renamed : Association.keys table.toScalars =
      (Association.keys table.entries).map fun op => Scalar.text op.toString := by
    simp [Association.keys, toScalars]
  rw [renamed]
  exact List.Pairwise.map _ (fun _ _ different => text_toString_injective.ne different) table.distinct

theorem accept_eq_ok_iff {admitted : { entry : Char × Int // isOperatorCharacter entry.1 = true }} :
    accept op precedence = .ok admitted ↔ (op, precedence) = scalars admitted.val := by
  obtain ⟨⟨c, n⟩, admissible⟩ := admitted
  constructor
  · intro accepted
    unfold accept at accepted
    split at accepted
    · next value =>
      split at accepted
      · next single =>
        split at accepted
        · split at accepted
          · split at accepted
            · cases accepted
              have text : value = c.toString := String.toList_injective (by simpa using single)
              rw [text]
              rfl
            · cases accepted
          · cases accepted
        · cases accepted
      · cases accepted
    · cases accepted
  · intro given
    obtain ⟨rfl, rfl⟩ := Prod.mk.inj given
    obtain ⟨lone, free⟩ : isLoneCharacter c = true ∧ isPunctuation c = false := by
      simpa [isOperatorCharacter] using admissible
    simp [accept, lone, free]

theorem isOperatorCharacter_of_admitted (admitted : { entry : Char × Int // isOperatorCharacter entry.1 = true }) :
    isOperatorCharacter admitted.val.1 = true := admitted.property

def enter (table : OperatorTable) (entry : Scalar × Scalar) : Except ConfigurationFault OperatorTable := do
  let admitted ← accept entry.1 entry.2
  return table.insert admitted.val.1 admitted.val.2 (isOperatorCharacter_of_admitted admitted)

theorem enter_eq_ok_iff : table.enter entry = .ok base ↔
    ∃ (admitted : Char × Int) (h : isOperatorCharacter admitted.1 = true),
      entry = scalars admitted ∧ table.insert admitted.1 admitted.2 h = base := by
  rw [enter]
  constructor
  · intro made
    obtain ⟨admitted, accepted, inserted⟩ := exists_of_bind_eq_ok made
    exact ⟨admitted.val, admitted.property, accept_eq_ok_iff.mp accepted, Except.ok.inj inserted⟩
  · rintro ⟨admitted, h, given, rfl⟩
    have accepted : accept entry.1 entry.2 = .ok ⟨admitted, h⟩ := accept_eq_ok_iff.mpr given
    rw [accepted]
    rfl

theorem ofScalars_eq (entries : List (Scalar × Scalar)) :
    ofScalars entries = (Association.insertAll [] entries).foldlM enter empty := rfl

theorem foldlM_enter_cons (table : OperatorTable) (entry : Scalar × Scalar) (more : List (Scalar × Scalar)) :
    (entry :: more).foldlM enter table = table.enter entry >>= fun next => more.foldlM enter next := rfl

theorem toScalars_of_foldlM_enter (made : entries.foldlM enter table = .ok base) :
    base.toScalars = Association.insertAll table.toScalars entries := by
  induction entries generalizing table with
  | nil =>
    cases made
    rfl
  | cons entry entries ih =>
    rw [foldlM_enter_cons] at made
    obtain ⟨next, first, later⟩ := exists_of_bind_eq_ok made
    obtain ⟨admitted, h, rfl, rfl⟩ := enter_eq_ok_iff.mp first
    rw [ih later, toScalars_insert]
    rfl

theorem exists_foldlM_enter {given : List (Char × Int)} (table : OperatorTable)
    (admissible : ∀ entry ∈ given, isOperatorCharacter entry.1 = true) :
    ∃ made, (given.map scalars).foldlM enter table = .ok made := by
  induction given generalizing table with
  | nil => exact ⟨table, rfl⟩
  | cons entry given ih =>
    obtain ⟨first, others⟩ := List.forall_mem_cons.mp admissible
    have admitted : table.enter (scalars entry) = .ok (table.insert entry.1 entry.2 first) :=
      enter_eq_ok_iff.mpr ⟨entry, first, rfl, rfl⟩
    rw [List.map_cons, foldlM_enter_cons, admitted]
    exact ih _ others

/-- A table that could be built holds the entries it was built from, laid over one another. -/
theorem toScalars_of_ofScalars (made : ofScalars entries = .ok table) :
    table.toScalars = Association.insertAll [] entries := by
  rw [ofScalars_eq] at made
  exact (toScalars_of_foldlM_enter made).trans (Association.insertAll_collected [] entries)

theorem insertAll_toScalars (table : OperatorTable) :
    Association.insertAll [] table.toScalars = table.toScalars :=
  Association.insertAll_fresh table.nodup_keys_toScalars

theorem ofScalars_toScalars (table : OperatorTable) : ofScalars table.toScalars = .ok table := by
  obtain ⟨made, fold⟩ := exists_foldlM_enter empty table.admissible
  rw [← toScalars_eq, ← insertAll_toScalars, ← ofScalars_eq] at fold
  have same : made = table := toScalars_injective ((toScalars_of_ofScalars fold).trans table.insertAll_toScalars)
  rw [fold, same]

theorem ofScalars_congr (same : Association.insertAll [] entries = Association.insertAll [] more) :
    ofScalars entries = ofScalars more := by
  rw [ofScalars_eq, ofScalars_eq, same]

theorem ofScalars_collected (entries : List (Scalar × Scalar)) :
    ofScalars (Association.insertAll [] entries) = ofScalars entries :=
  ofScalars_congr (Association.insertAll_collected [] entries)

theorem extend_nil (table : OperatorTable) : table.extend [] = .ok table := by
  rw [extend, List.append_nil, ofScalars_toScalars]

theorem toScalars_of_extend (made : base.extend more = .ok table) :
    table.toScalars = Association.insertAll base.toScalars more := by
  rw [toScalars_of_ofScalars made, Association.insertAll_append, insertAll_toScalars]

theorem extend_extend (made : base.extend more = .ok table) (last : List (Scalar × Scalar)) :
    table.extend last = base.extend (more ++ last) := by
  apply ofScalars_congr
  rw [Association.insertAll_append, insertAll_toScalars, toScalars_of_extend made, Association.insertAll_append,
    insertAll_toScalars, Association.insertAll_append]

/-- Only what is left of the entries when they are put together counts. -/
theorem extend_congr (same : Association.insertAll [] more = Association.insertAll [] last) :
    base.extend more = base.extend last := by
  apply ofScalars_congr
  rw [Association.insertAll_append, Association.insertAll_congr same, Association.insertAll_append]

/-- A table can be built just when what is left of the entries are entries that a table can hold. -/
theorem exists_ofScalars_iff (entries : List (Scalar × Scalar)) : (∃ table, ofScalars entries = .ok table) ↔
    ∀ entry ∈ Association.insertAll [] entries, ∃ op precedence,
      entry = scalars (op, precedence) ∧ isOperatorCharacter op = true := by
  constructor
  · rintro ⟨table, made⟩
    rw [← toScalars_of_ofScalars made, toScalars_eq]
    intro entry member
    obtain ⟨held, inTable, rfl⟩ := List.mem_map.mp member
    exact ⟨held.1, held.2, rfl, table.admissible held inTable⟩
  · intro all
    choose! op precedence given admissible using all
    have renamed : Association.insertAll [] entries =
        ((Association.insertAll [] entries).map fun entry => (op entry, precedence entry)).map scalars := by
      rw [List.map_map]
      exact (List.map_id _).symm.trans (List.map_congr_left given)
    rw [ofScalars_eq, renamed]
    refine exists_foldlM_enter empty fun entry member => ?_
    obtain ⟨whole, inside, rfl⟩ := List.mem_map.mp member
    exact admissible whole inside

def integral (mapping : List (Scalar × Int)) : List (Scalar × Scalar) := mapping.map (Prod.map id .integer)

theorem keys_integral (mapping : List (Scalar × Int)) :
    Association.keys (integral mapping) = Association.keys mapping := by
  simp [Association.keys, integral]

/-- With integers for precedences, only the operators decide whether a table can be built. -/
theorem exists_ofScalars_integral_iff (mapping : List (Scalar × Int)) :
    (∃ table, ofScalars (integral mapping) = .ok table) ↔
      ∀ key ∈ Association.keys mapping, ∃ op : Char, key = .text op.toString ∧ isOperatorCharacter op = true := by
  rw [exists_ofScalars_iff, ← keys_integral]
  constructor
  · intro all key member
    obtain ⟨entry, held, rfl⟩ := List.mem_map.mp (Association.mem_keys_insertAll.mpr member)
    obtain ⟨op, precedence, rfl, admissible⟩ := all entry held
    exact ⟨op, rfl, admissible⟩
  · intro all entry member
    rcases Association.mem_insertAll member with none | given
    · cases none
    · obtain ⟨op, text, admissible⟩ := all entry.1 (List.mem_map_of_mem given)
      obtain ⟨⟨key, precedence⟩, -, rfl⟩ := List.mem_map.mp given
      exact ⟨op, precedence, congrArg (·, Scalar.integer precedence) text, admissible⟩

theorem exists_extend_integral_iff (base : OperatorTable) (mapping : List (Scalar × Int)) :
    (∃ table, base.extend (integral mapping) = .ok table) ↔
      ∀ key ∈ Association.keys mapping, ∃ op : Char, key = .text op.toString ∧ isOperatorCharacter op = true := by
  have whole : base.toScalars ++ integral mapping =
      integral (base.entries.map (fun entry => (.text entry.1.toString, entry.2)) ++ mapping) := by
    simp [integral, toScalars]
  rw [extend, whole, exists_ofScalars_integral_iff, Association.keys, List.map_append, List.forall_mem_append]
  refine and_iff_right fun key member => ?_
  obtain ⟨_, renamed, rfl⟩ := List.mem_map.mp member
  obtain ⟨entry, held, rfl⟩ := List.mem_map.mp renamed
  exact ⟨entry.1, rfl, base.admissible entry held⟩

end OperatorTable

namespace OperatorSpec

variable {table base : OperatorTable} {more : List (String × Int)}

theorem toScalars_nil : toScalars [] = [] := rfl

theorem toScalars_append (entries more : List (String × Int)) :
    toScalars (entries ++ more) = toScalars entries ++ toScalars more :=
  List.map_append

theorem toScalars_insertAll (entries more : List (String × Int)) :
    toScalars (Association.insertAll entries more) = Association.insertAll (toScalars entries) (toScalars more) :=
  Association.insertAll_rename (fun _ _ same => Scalar.text.inj same) Scalar.integer entries more

theorem toScalars_injective : Function.Injective toScalars := fun _ _ same =>
  (List.map_inj_right fun _ _ same =>
    Prod.ext (Scalar.text.inj (Prod.mk.inj same).1) (Scalar.integer.inj (Prod.mk.inj same).2)).mp same

/-- The entries of a table as a list mentions them. -/
def ofTable (table : OperatorTable) : List (String × Int) := table.entries.map (Prod.map Char.toString id)

theorem toScalars_ofTable (table : OperatorTable) : toScalars (ofTable table) = table.toScalars := by
  simp [toScalars, ofTable, OperatorTable.toScalars]

theorem find?_ofTable (table : OperatorTable) (op : Char) :
    Association.find? op.toString (ofTable table) = table.get? op := by
  rw [ofTable, Association.find?_rename OperatorTable.toString_injective, Option.map_id]
  rfl

theorem keys_ofTable (table : OperatorTable) :
    Association.keys (ofTable table) = (Association.keys table.entries).map Char.toString := by
  simp [Association.keys, ofTable]

theorem nodup_keys_ofTable (table : OperatorTable) : (Association.keys (ofTable table)).Nodup := by
  rw [keys_ofTable]
  exact List.Pairwise.map _ (fun _ _ different => OperatorTable.toString_injective.ne different) table.distinct

theorem ofTable_of_extend (made : base.extend (toScalars more) = .ok table) :
    ofTable table = Association.insertAll (ofTable base) more := by
  apply toScalars_injective
  rw [toScalars_insertAll, toScalars_ofTable, toScalars_ofTable, OperatorTable.toScalars_of_extend made]

end OperatorSpec
end Kaleidoscope
