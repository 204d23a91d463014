import Kaleidoscope.Proofs.Operator.Merging

/-! Tables built in memory, entry by entry. Building one goes through the entries and stops at the first that is at
fault, with a part of them written. All of that happens in new dictionaries, so what was in memory before stays as it
was, whether the table can be built or not. -/
namespace Kaleidoscope.OperatorTable

/-- Dictionaries that can be written to, each under its address. -/
structure Memory where
  dictionaries : List (List (Scalar × Scalar))

namespace Memory

def at? (m : Memory) (address : Nat) : Option (List (Scalar × Scalar)) := m.dictionaries[address]?

def allocate (m : Memory) (entries : List (Scalar × Scalar)) : Nat × Memory :=
  (m.dictionaries.length, ⟨m.dictionaries ++ [entries]⟩)

def write (m : Memory) (address : Nat) (entry : Scalar × Scalar) : Memory :=
  ⟨m.dictionaries.modify address (Association.insert entry.1 entry.2)⟩

def writeAll (m : Memory) (address : Nat) (entries : List (Scalar × Scalar)) : Memory :=
  entries.foldl (·.write address ·) m

/-- Judges the entries one after another and writes each that passes, up to the first that is at fault. -/
def fill (address : Nat) : List (Scalar × Scalar) → Memory → Option ConfigurationFault × Memory
  | [], m => (none, m)
  | entry :: entries, m =>
    match accept entry.1 entry.2 with
    | .error fault => (some fault, m)
    | .ok _ => fill address entries (m.write address entry)

def build (m : Memory) (entries : List (Scalar × Scalar)) : Except ConfigurationFault Nat × Memory :=
  let (address, m) := m.allocate []
  let (fault?, m) := fill address entries m
  (match fault? with
    | none => .ok address
    | some fault => .error fault, m)

/-- Copies a dictionary, writes entries over the copy, and builds a table from that. -/
def override (m : Memory) (address : Nat) (more : List (Scalar × Scalar)) :
    Except ConfigurationFault Nat × Memory :=
  let (merged, m) := m.allocate ((m.at? address).getD [])
  let m := m.writeAll merged more
  m.build ((m.at? merged).getD [])

/-- Every dictionary is still there as it was. -/
def Keeps (m m' : Memory) : Prop :=
  ∀ address entries, m.at? address = some entries → m'.at? address = some entries

/-- Under the address that is given stands what the table holds, or the fault is the same. -/
def Holds (outcome : Except ConfigurationFault Nat × Memory)
    (result : Except ConfigurationFault OperatorTable) : Prop :=
  outcome.1.map outcome.2.at? = result.map (some ·.toScalars)

variable {m : Memory} {address other : Nat} {entries held : List (Scalar × Scalar)} {table : OperatorTable}

theorem Keeps.trans {m' m'' : Memory} (first : m.Keeps m') (second : m'.Keeps m'') : m.Keeps m'' :=
  fun address entries held => second address entries (first address entries held)

theorem lt_of_at? (there : m.at? address = some held) : address < m.dictionaries.length :=
  (List.getElem?_eq_some_iff.mp there).1

theorem at?_allocate (m : Memory) (entries : List (Scalar × Scalar)) :
    (m.allocate entries).2.at? (m.allocate entries).1 = some entries :=
  List.getElem?_concat_length

theorem at?_allocate_other (there : m.at? address = some held) (entries : List (Scalar × Scalar)) :
    (m.allocate entries).1 ≠ address ∧ (m.allocate entries).2.at? address = some held :=
  ⟨Nat.ne_of_gt (lt_of_at? there), (List.getElem?_append_left (lt_of_at? there)).trans there⟩

theorem at?_write (there : m.at? address = some held) (entry : Scalar × Scalar) :
    (m.write address entry).at? address = some (Association.insert entry.1 entry.2 held) := by
  rw [at?] at there
  rw [at?, write, List.getElem?_modify_eq, there]
  rfl

theorem at?_write_other (apart : address ≠ other) (entry : Scalar × Scalar) :
    (m.write address entry).at? other = m.at? other :=
  List.getElem?_modify_ne _ _ apart

theorem at?_writeAll (there : m.at? address = some held) (entries : List (Scalar × Scalar)) :
    (m.writeAll address entries).at? address = some (Association.insertAll held entries) := by
  induction entries generalizing m held with
  | nil => exact there
  | cons entry entries ih => exact ih (at?_write there entry)

theorem at?_writeAll_other (apart : address ≠ other) (entries : List (Scalar × Scalar)) :
    (m.writeAll address entries).at? other = m.at? other := by
  induction entries generalizing m with
  | nil => rfl
  | cons entry entries ih => exact ih.trans (at?_write_other apart entry)

theorem at?_fill_other (apart : address ≠ other) (entries : List (Scalar × Scalar)) (m : Memory) :
    (fill address entries m).2.at? other = m.at? other := by
  induction entries generalizing m with
  | nil => rfl
  | cons entry entries ih =>
    rw [fill]
    split
    · rfl
    · exact (ih _).trans (at?_write_other apart entry)

/-- Filling a dictionary goes on just as the table goes on that it holds. -/
theorem fill_eq (there : m.at? address = some table.toScalars) (entries : List (Scalar × Scalar)) :
    match entries.foldlM enter table with
    | .ok made => ∃ m', fill address entries m = (none, m') ∧ m'.at? address = some made.toScalars
    | .error fault => ∃ m', fill address entries m = (some fault, m') := by
  induction entries generalizing m table with
  | nil => exact ⟨m, rfl, there⟩
  | cons entry entries ih =>
    rw [foldlM_enter_cons, enter, fill]
    cases accepted : accept entry.1 entry.2 with
    | error fault => exact ⟨m, rfl⟩
    | ok admitted =>
      have given : entry = scalars admitted.val := accept_eq_ok_iff.mp accepted
      apply ih
      rw [at?_write there, given, toScalars_insert]
      rfl

theorem build_holds (m : Memory) (entries : List (Scalar × Scalar)) :
    Holds (m.build entries) (entries.foldlM enter empty) := by
  have fresh : (m.allocate []).2.at? (m.allocate []).1 = some empty.toScalars := m.at?_allocate []
  have filled := fill_eq fresh entries
  rw [Holds, build]
  cases result : entries.foldlM enter empty with
  | ok made =>
    rw [result] at filled
    obtain ⟨m', ends, there⟩ := filled
    simp only [ends]
    exact congrArg Except.ok there
  | error fault =>
    rw [result] at filled
    obtain ⟨m', ends⟩ := filled
    simp only [ends]
    rfl

theorem build_keeps (m : Memory) (entries : List (Scalar × Scalar)) : m.Keeps (m.build entries).2 := by
  intro address held there
  obtain ⟨apart, still⟩ := at?_allocate_other there []
  exact (at?_fill_other apart entries _).trans still

theorem build_mapping (m : Memory) (mapping : List (Scalar × Scalar)) :
    Holds (m.build (Association.insertAll [] mapping)) (ofScalars mapping) := by
  rw [ofScalars_eq]
  exact m.build_holds _

theorem override_holds {base : OperatorTable} (there : m.at? address = some base.toScalars)
    (more : List (Scalar × Scalar)) : Holds (m.override address more) (base.extend more) := by
  have copied := m.at?_allocate base.toScalars
  have merged := at?_writeAll copied more
  have once : Association.insertAll [] (base.toScalars ++ more) = Association.insertAll base.toScalars more := by
    rw [Association.insertAll_append, insertAll_toScalars]
  simp only [override, there, Option.getD_some, merged]
  rw [extend, ofScalars_eq, once]
  exact build_holds _ _

theorem override_keeps (m : Memory) (address : Nat) (more : List (Scalar × Scalar)) :
    m.Keeps (m.override address more).2 := by
  refine Keeps.trans (fun other held there => ?_) (build_keeps _ _)
  obtain ⟨apart, still⟩ := at?_allocate_other there ((m.at? address).getD [])
  exact (at?_writeAll_other apart more).trans still

end Memory
end Kaleidoscope.OperatorTable
