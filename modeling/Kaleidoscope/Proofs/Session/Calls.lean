import Kaleidoscope.Proofs.Operator.Association
import Kaleidoscope.Proofs.Session.Run

/-! Checks of calls see names and numbers of arguments only. Entities that say the same pass them or fail
them together. -/
namespace Kaleidoscope

namespace Expr

def CallSite.bare (call : CallSite) : CallSite := { call with at? := none }

mutual

theorem calls_bare : (e : Expr) → e.bare.calls = e.calls.map CallSite.bare
  | .number .. | .var .. => rfl
  | .binary _ lhs rhs _ => by simp [bare, calls, calls_bare lhs, calls_bare rhs]
  | .call callee args at? => by
    have length : (bareAll args).length = args.length := by simp [bareAll_eq_map]
    simp [bare, calls, callsAll_bareAll args, CallSite.bare, length]

theorem callsAll_bareAll : (args : List Expr) → callsAll (bareAll args) = (callsAll args).map CallSite.bare
  | [] => rfl
  | e :: rest => by simp [bareAll, callsAll, calls_bare e, callsAll_bareAll rest]

end

end Expr

def Diagnostic.bare (diagnostic : Diagnostic) : Diagnostic := ⟨diagnostic.problem, none, none⟩

namespace KnownFunctions

def bare (known : KnownFunctions) : KnownFunctions :=
  ⟨known.prototypes.map fun entry => (entry.1, entry.2.bare)⟩

theorem declare_bare (known : KnownFunctions) (proto : Prototype) :
    known.bare.declare proto.bare = (known.declare proto).bare := by
  by_cases anonymous : proto.isAnonymous = true
  · have same : proto.bare.isAnonymous = true := anonymous
    simp [declare, anonymous, same]
  · have same : ¬ proto.bare.isAnonymous = true := anonymous
    have declared : (Association.insert proto.name proto known.prototypes).map (Prod.map id Prototype.bare) =
        Association.insert proto.name proto.bare (known.prototypes.map (Prod.map id Prototype.bare)) :=
      Association.insert_rename Function.injective_id Prototype.bare proto.name proto known.prototypes
    rw [declare, if_neg same, declare, if_neg anonymous]
    exact congrArg KnownFunctions.mk declared.symm

theorem fault?_bare (known : KnownFunctions) (call : Expr.CallSite) :
    known.bare.fault? call.bare = known.fault? call := by
  have found : known.bare.find? call.bare.callee = (known.find? call.callee).map Prototype.bare :=
    Association.find?_rename Function.injective_id Prototype.bare call.callee known.prototypes
  rw [fault?, found, fault?]
  cases known.find? call.callee <;> rfl

theorem firstFault?_bare (known : KnownFunctions) (calls : List Expr.CallSite) :
    known.bare.firstFault? (calls.map Expr.CallSite.bare) = (known.firstFault? calls).map Diagnostic.bare := by
  rw [firstFault?, firstFault?, List.findSome?_map, List.map_findSome?]
  refine congrArg (List.findSome? · calls) (funext fun call => ?_)
  simp only [Function.comp_apply, fault?_bare]
  cases known.fault? call <;> rfl

def checked (known : KnownFunctions) (entity : Entity) : KnownFunctions × Option Diagnostic :=
  match known.check entity with
  | .ok extended => (extended, .none)
  | .error diagnostic => (known, some diagnostic)

theorem checked_bare (known : KnownFunctions) (entity : Entity) :
    known.bare.checked entity.bare =
      ((known.checked entity).1.bare, (known.checked entity).2.map Diagnostic.bare) := by
  cases entity with
  | declaration proto => simp [checked, check, Entity.bare, declare_bare]
  | function f =>
    have first := (known.declare f.proto).firstFault?_bare f.body.calls
    simp only [checked, check, Entity.bare, Function.bare, declare_bare, Expr.calls_bare, first]
    cases (known.declare f.proto).firstFault? f.body.calls <;> rfl

theorem check_eq_ok_iff {known extended : KnownFunctions} {entity : Entity} :
    known.check entity = .ok extended ↔ known.checked entity = (extended, .none) := by
  rw [checked]
  cases known.check entity <;> simp

theorem check_bare {known extended : KnownFunctions} {entity : Entity} :
    known.bare.check entity.bare = .ok extended ↔
      ∃ extended', known.check entity = .ok extended' ∧ extended = extended'.bare := by
  simp only [check_eq_ok_iff, checked_bare, Prod.ext_iff, Option.map_eq_none_iff]
  constructor
  · intro h
    exact ⟨_, ⟨rfl, h.2⟩, h.1.symm⟩
  · intro h
    obtain ⟨_, ⟨rfl, passes⟩, rfl⟩ := h
    exact ⟨rfl, passes⟩

theorem admits_bare_iff {known : KnownFunctions} {entities : List Entity} :
    known.bare.Admits (entities.map Entity.bare) ↔ known.Admits entities := by
  induction entities generalizing known with
  | nil => simp [admits_nil]
  | cons entity entities ih =>
    simp only [List.map_cons, admits_cons_iff, check_bare]
    constructor
    · intro h
      obtain ⟨_, ⟨extended, passes, rfl⟩, others⟩ := h
      exact ⟨extended, passes, ih.mp others⟩
    · intro h
      obtain ⟨extended, passes, others⟩ := h
      exact ⟨_, ⟨extended, passes, rfl⟩, ih.mpr others⟩

end KnownFunctions

theorem Passes.congr {checkCalls : Bool} {entities others : List Entity}
    (same : others.map Entity.bare = entities.map Entity.bare) (h : Passes checkCalls .none entities) :
    Passes checkCalls .none others := by
  intro checked
  have admits : KnownFunctions.none.bare.Admits (entities.map Entity.bare) :=
    KnownFunctions.admits_bare_iff.mpr (h checked)
  rw [← same] at admits
  exact KnownFunctions.admits_bare_iff.mp admits

def Verdict.judged (entity : Entity) : Option Diagnostic → Verdict
  | none => .accepted entity
  | some diagnostic => .rejected entity diagnostic

@[simp] theorem Verdict.error?_judged (entity : Entity) (result : Option Diagnostic) :
    (Verdict.judged entity result).error? = result := by
  cases result <;> rfl

namespace Session

variable {s : Session}

theorem judge_of_checks (checks : s.options.checkCalls = true) (entity : Entity) :
    s.judge entity = (.judged entity (s.known.checked entity).2, (s.known.checked entity).1) := by
  rw [judge, if_pos checks, KnownFunctions.checked]
  cases s.known.check entity <;> rfl

theorem judge_of_no_checks (unchecked : s.options.checkCalls = false) (entity : Entity) :
    s.judge entity = (.accepted entity, s.known) := by
  simp [judge, unchecked]

end Session
end Kaleidoscope
