import Kaleidoscope.Proofs.Command.Overriding

/-! When a command can run at all. The operator lists of the environment and of the command line have to be valid, each
by itself, and the error limit of the environment usable; nothing else is a fault. -/
namespace Kaleidoscope

theorem exists_bind_iff {ε α β : Type} {first : Except ε α} {next : α → Except ε β} :
    (∃ result, (first >>= next) = .ok result) ↔ ∃ value, first = .ok value ∧ ∃ result, next value = .ok result := by
  cases first <;> simp [bind, Except.bind]

theorem exists_mapM_iff {ε α β : Type} {f : α → Except ε β} {holds : β → Prop} (all : List α) :
    (∃ results, all.mapM f = .ok results ∧ ∀ result ∈ results, holds result) ↔
      ∀ a ∈ all, ∃ result, f a = .ok result ∧ holds result := by
  induction all with
  | nil => simp [pure, Except.pure]
  | cons a all ih =>
    rw [List.forall_mem_cons, ← ih, List.mapM_cons]
    cases f a <;> cases all.mapM f <;> simp [bind, Except.bind, pure, Except.pure]

namespace OperatorSpec

/-- Each item of the list is an operator that may be in a table and, behind a colon, an integer. -/
def IsValid (list : String) : Prop :=
  ∀ text ∈ items list, ∃ (op : Char) (precedence : Int),
    item text = .ok (op.toString, precedence) ∧ isOperatorCharacter op = true

theorem exists_extend_iff (base : OperatorTable) (entries : List (String × Int)) :
    (∃ table, base.extend (toScalars entries) = .ok table) ↔
      ∀ entry ∈ entries, ∃ op : Char, entry.1 = op.toString ∧ isOperatorCharacter op = true := by
  have renamed : toScalars entries = OperatorTable.integral (entries.map (Prod.map .text id)) := by
    simp [toScalars, OperatorTable.integral]
  rw [renamed, base.exists_extend_integral_iff, Association.keys, List.map_map, List.forall_mem_map]
  refine forall₂_congr fun entry _ => exists_congr fun op => and_congr_left fun _ => ?_
  exact ⟨fun same => Scalar.text.inj same, fun same => congrArg Scalar.text same⟩

theorem exists_overlay_iff (base : OperatorTable) (lists : List String) :
    (∃ table, overlay base lists = .ok table) ↔ ∀ list ∈ lists, IsValid list := by
  have each (text : List Char) : (∃ entry, item text = .ok entry ∧
      ∃ op : Char, entry.1 = op.toString ∧ isOperatorCharacter op = true) ↔ ∃ (op : Char) (precedence : Int),
      item text = .ok (op.toString, precedence) ∧ isOperatorCharacter op = true := by
    constructor
    · rintro ⟨⟨_, precedence⟩, read, op, rfl, allowed⟩
      exact ⟨op, precedence, read, allowed⟩
    · rintro ⟨op, precedence, read, allowed⟩
      exact ⟨(op.toString, precedence), read, op, rfl, allowed⟩
  calc (∃ table, overlay base lists = .ok table)
      ↔ ∃ entries, mentions lists = .ok entries ∧
          ∀ entry ∈ entries, ∃ op : Char, entry.1 = op.toString ∧ isOperatorCharacter op = true := by
        simp only [overlay, exists_bind_iff, exists_extend_iff]
    _ ↔ ∀ text ∈ lists.flatMap items, ∃ entry, item text = .ok entry ∧
          ∃ op : Char, entry.1 = op.toString ∧ isOperatorCharacter op = true := exists_mapM_iff _
    _ ↔ ∀ list ∈ lists, IsValid list := by
        simp only [each, List.mem_flatMap, IsValid]
        constructor
        · intro all list member text inside
          exact all text ⟨list, member, inside⟩
        · intro all text within
          obtain ⟨list, member, inside⟩ := within
          exact all list member text inside

end OperatorSpec

namespace Options

theorem exists_limited_iff (environment : String → Option String) :
    (∃ options, environmentLimit? environment >>= limited = .ok options) ↔
      LimitUsable (environment "KALEIDO_MAX_ERRORS") := by
  constructor
  · rintro ⟨options, accepted⟩ text given
    rw [environmentLimit?, Option.mem_def.mp given] at accepted
    split at accepted
    · contradiction
    · next empty => exact .inl (Option.some.inj empty)
    · next same =>
      obtain rfl := Option.some.inj same
      split at accepted
      · next limit read =>
        refine .inr ⟨limit, read, ?_⟩
        by_contra low
        cases accepted.symm.trans (dif_neg low)
      · cases accepted
  · intro usable
    obtain ⟨limit, positive, accepted⟩ := limited_of_usable usable
    exact ⟨_, accepted⟩

theorem exists_environmentTable_iff (environment : String → Option String) :
    (∃ table, environmentTable environment = .ok table) ↔
      ∀ list ∈ environment "KALEIDO_PRECEDENCE", OperatorSpec.IsValid list := by
  have same : withList environment (environment "KALEIDO_PRECEDENCE") = environment := by
    funext name
    by_cases other : name = "KALEIDO_PRECEDENCE" <;> simp [withList, other]
  have laid := environmentTable_withList environment (environment "KALEIDO_PRECEDENCE")
  rw [same] at laid
  rw [laid, OperatorSpec.exists_overlay_iff]
  simp

end Options

namespace Invocation

open Options OperatorSpec

/-- What the environment and the command line configure is in order. -/
structure Configured (invocation : Invocation) (environment : String → Option String) : Prop where
  list : ∀ list ∈ environment "KALEIDO_PRECEDENCE", IsValid list
  limit : LimitUsable (environment "KALEIDO_MAX_ERRORS")
  operators : ∀ list ∈ invocation.operators, IsValid list

/-- There are options to run under just when the configuration is in order. -/
theorem exists_options_iff (invocation : Invocation) (environment : String → Option String) :
    (∃ options, invocation.options environment = .ok options) ↔ invocation.Configured environment := by
  have limit := exists_limited_iff environment
  have operators (table : OperatorTable) := exists_overlay_iff table invocation.operators
  rw [exists_bind_iff] at limit
  rw [options_eq, ofEnvironment_eq]
  simp only [bind_assoc, exists_bind_iff, pure_bind]
  constructor
  · rintro ⟨table, judged, limit?, read, options, allowed, extended, laid, -⟩
    exact ⟨(exists_environmentTable_iff environment).mp ⟨table, judged⟩, limit.mp ⟨limit?, read, options, allowed⟩,
      (operators table).mp ⟨extended, laid⟩⟩
  · intro sound
    obtain ⟨table, judged⟩ := (exists_environmentTable_iff environment).mpr sound.list
    obtain ⟨limit?, read, options, allowed⟩ := limit.mpr sound.limit
    obtain ⟨extended, laid⟩ := (operators table).mpr sound.operators
    exact ⟨table, judged, limit?, read, options, allowed, extended, laid, _, rfl⟩

end Invocation
end Kaleidoscope
