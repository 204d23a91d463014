import Kaleidoscope.Proofs.Session.Filtering
import Kaleidoscope.Proofs.Tree.Occurrence

/-! What a check of calls decides and what it leaves behind. An entity passes just when each of its calls, wherever
it stands, fits a function that is known, the defined one included. An entity that does not pass is blamed for the
first call that does not fit, and what was registered for it is taken back. -/
namespace Kaleidoscope

namespace Association

variable {α β : Type} [DecidableEq α] {key k : α}

def erase (key : α) (entries : List (α × β)) : List (α × β) := entries.filter (·.1 ≠ key)

/-- Gives a key the value that it had before, or none again. -/
def restore (key : α) (previous : Option β) (entries : List (α × β)) : List (α × β) :=
  match previous with
  | none => erase key entries
  | some value => insert key value entries

theorem restore_cons_other (other : k ≠ key) (v : β) (previous : Option β) (rest : List (α × β)) :
    restore key previous ((k, v) :: rest) = (k, v) :: restore key previous rest := by
  cases previous with
  | none => simp [restore, erase, other]
  | some value => simp [restore, insert, other]

/-- An insertion is undone with its place: a value that was there comes back where it was. -/
theorem restore_insert (key : α) (value : β) (entries : List (α × β)) :
    restore key (find? key entries) (insert key value entries) = entries := by
  induction entries with
  | nil => simp [find?, insert, restore, erase]
  | cons entry rest ih =>
    obtain ⟨k, v⟩ := entry
    by_cases same : k = key
    · simp [find?, insert, restore, same]
    · rw [find?, if_neg same, insert, if_neg same, restore_cons_other same, ih]

end Association

namespace KnownFunctions

variable {known extended : KnownFunctions} {site : Expr.CallSite} {diagnostic : Diagnostic} {f : Function}

def Fits (known : KnownFunctions) (site : Expr.CallSite) : Prop :=
  ∃ proto, known.find? site.callee = some proto ∧ proto.params.length = site.arguments

inductive Blames (known : KnownFunctions) (site : Expr.CallSite) : Diagnostic → Prop where
  | unknown (missing : known.find? site.callee = .none) :
      Blames known site ⟨.unknownFunction site.callee, site.at?, .none⟩
  | count (found : known.find? site.callee = some proto) (different : proto.params.length ≠ site.arguments) :
      Blames known site ⟨.argumentCount site.callee proto.params.length site.arguments, site.at?, .none⟩

def blame? (known : KnownFunctions) (site : Expr.CallSite) : Option Diagnostic :=
  (known.fault? site).map fun problem => ⟨problem, site.at?, .none⟩

theorem blame?_unknown (missing : known.find? site.callee = .none) :
    known.blame? site = some ⟨.unknownFunction site.callee, site.at?, .none⟩ := by
  simp [blame?, fault?, missing]

theorem blame?_known {proto : Prototype} (found : known.find? site.callee = some proto) : known.blame? site =
    if proto.params.length = site.arguments then .none
    else some ⟨.argumentCount site.callee proto.params.length site.arguments, site.at?, .none⟩ := by
  by_cases fits : proto.params.length = site.arguments <;>
    simp [blame?, fault?, found, Prototype.arity, fits]

theorem blame?_eq_none_iff : known.blame? site = .none ↔ known.Fits site := by
  rw [Fits]
  cases found : known.find? site.callee with
  | none => simp [blame?_unknown found]
  | some proto => simp [blame?_known found]

theorem blame?_eq_some_iff : known.blame? site = some diagnostic ↔ known.Blames site diagnostic := by
  constructor
  · intro h
    cases found : known.find? site.callee with
    | none =>
      obtain rfl := Option.some.inj ((blame?_unknown found).symm.trans h)
      exact .unknown found
    | some proto =>
      rw [blame?_known found] at h
      split at h
      · cases h
      · next different =>
        obtain rfl := Option.some.inj h
        exact .count found different
  · intro blames
    cases blames with
    | unknown missing => exact blame?_unknown missing
    | count found different => rw [blame?_known found, if_neg different]

theorem check_function (known : KnownFunctions) (f : Function) : known.check (.function f) =
    match f.body.calls.findSome? (known.declare f.proto).blame? with
    | .none => .ok (known.declare f.proto)
    | some diagnostic => .error diagnostic := rfl

theorem check_function_eq_ok_iff : known.check (.function f) = .ok extended ↔
    extended = known.declare f.proto ∧
      ∀ place site, f.body.CallAt place site → (known.declare f.proto).Fits site := by
  simp only [← blame?_eq_none_iff, ← Expr.findSome?_calls_eq_none_iff, check_function]
  cases f.body.calls.findSome? (known.declare f.proto).blame? <;> simp [eq_comm]

theorem check_function_eq_error_iff : known.check (.function f) = .error diagnostic ↔
    ∃ place site, f.body.CallAt place site ∧ (known.declare f.proto).Blames site diagnostic ∧
      ∀ earlier other, earlier < place → f.body.CallAt earlier other → (known.declare f.proto).Fits other := by
  simp only [← blame?_eq_none_iff, ← blame?_eq_some_iff, ← Expr.findSome?_calls_eq_some_iff, check_function]
  cases f.body.calls.findSome? (known.declare f.proto).blame? <;> simp

/-- A check that registers a function before it looks at the calls, and takes that back if one is at fault. -/
def checkInPlace (known : KnownFunctions) : Entity → KnownFunctions × Option Diagnostic
  | .declaration proto => (known.declare proto, .none)
  | .function f =>
    let previous := known.find? f.proto.name
    let extended := known.declare f.proto
    match extended.firstFault? f.body.calls with
    | .none => (extended, .none)
    | some diagnostic =>
      if f.isAnonymous then (extended, some diagnostic)
      else (⟨Association.restore f.proto.name previous extended.prototypes⟩, some diagnostic)

theorem restore_declare (known : KnownFunctions) {proto : Prototype} (named : ¬ proto.isAnonymous = true) :
    (⟨Association.restore proto.name (known.find? proto.name) (known.declare proto).prototypes⟩ :
      KnownFunctions) = known := by
  rw [declare, if_neg named, find?, Association.restore_insert]

/-- It leaves the same functions as a check that registers a function only when it has passed. -/
theorem checkInPlace_eq_checked (known : KnownFunctions) (entity : Entity) :
    known.checkInPlace entity = known.checked entity := by
  cases entity with
  | declaration proto => rfl
  | function f =>
    simp only [checkInPlace, checked, check]
    cases (known.declare f.proto).firstFault? f.body.calls with
    | none => rfl
    | some diagnostic =>
      by_cases anonymous : f.isAnonymous = true
      · have unnamed : f.proto.isAnonymous = true := anonymous
        simp [anonymous, declare, unnamed]
      · simp only [anonymous, Bool.false_eq_true, if_false]
        rw [known.restore_declare anonymous]

/-- Checks the entities one after another in one place, and collects what is found. -/
def checkAllInPlace (known : KnownFunctions) (entities : List Entity) : KnownFunctions × List Diagnostic :=
  entities.foldl (fun state entity =>
    let (known, diagnostic?) := state.1.checkInPlace entity
    (known, state.2 ++ diagnostic?.toList)) (known, [])

theorem checkAll_cons (known : KnownFunctions) (entity : Entity) (entities : List Entity) :
    known.checkAll (entity :: entities) = (((known.checked entity).1.checkAll entities).1,
      (known.checked entity).2.toList ++ ((known.checked entity).1.checkAll entities).2) := by
  simp only [checkAll, checkEach_cons]
  cases (known.checked entity).2 <;> rfl

theorem checkAllInPlace_eq_checkAll (known : KnownFunctions) (entities : List Entity) :
    known.checkAllInPlace entities = known.checkAll entities := by
  -- The loop carries what it has found, so the statement is about any findings to begin with.
  suffices ∀ found, entities.foldl (fun state entity =>
      ((state.1.checkInPlace entity).1, state.2 ++ (state.1.checkInPlace entity).2.toList)) (known, found) =
        ((known.checkAll entities).1, found ++ (known.checkAll entities).2) from this []
  induction entities generalizing known with
  | nil =>
    intro found
    simp [checkAll, checkEach]
  | cons entity entities ih =>
    intro found
    rw [List.foldl_cons, ih, checkAll_cons, checkInPlace_eq_checked, List.append_assoc]

/-- A function passes its check just when every call that stands anywhere in its body fits what is known with the
function itself, and then this is what is known. Otherwise the function is blamed for the first call that does not
fit, a call before those in its arguments and these from left to right, and nothing has changed: registering it
first and taking that back comes to the same. A declaration always passes and is remembered unless it has no name.
To check many entities is to check them one after another and to collect what is found. -/
theorem check_exact_and_atomic (known : KnownFunctions) :
    (∀ f : Function,
      let extended := known.declare f.proto
      (∀ name, extended.find? name =
        if name = f.proto.name ∧ name ≠ "" then some f.proto else known.find? name) ∧
      (∀ after, known.check (.function f) = .ok after ↔
        after = extended ∧ ∀ place site, f.body.CallAt place site → extended.Fits site) ∧
      ∀ diagnostic, known.check (.function f) = .error diagnostic ↔
        ∃ place site, f.body.CallAt place site ∧ extended.Blames site diagnostic ∧
          ∀ earlier other, earlier < place → f.body.CallAt earlier other → extended.Fits other) ∧
    (∀ proto : Prototype, known.check (.declaration proto) = .ok (known.declare proto) ∧
      ∀ name, (known.declare proto).find? name =
        if name = proto.name ∧ name ≠ "" then some proto else known.find? name) ∧
    (∀ entity, known.checkInPlace entity =
      match known.check entity with
      | .ok after => (after, .none)
      | .error diagnostic => (known, some diagnostic)) ∧
    ∀ entities, known.checkAll entities = known.checkAllInPlace entities := by
  have registered (proto : Prototype) (name : String) : (known.declare proto).find? name =
      if name = proto.name ∧ name ≠ "" then some proto else known.find? name := by
    rw [find?_declare, Prototype.isAnonymous]
    by_cases same : name = proto.name
    · subst same
      by_cases unnamed : proto.name = "" <;> simp [unnamed]
    · simp [same, Ne.symm same]
  refine ⟨fun f => ⟨registered f.proto, fun _ => check_function_eq_ok_iff, fun _ => check_function_eq_error_iff⟩,
    fun proto => ⟨rfl, registered proto⟩, known.checkInPlace_eq_checked, ?_⟩
  exact fun entities => (known.checkAllInPlace_eq_checkAll entities).symm

end KnownFunctions
end Kaleidoscope
