import Kaleidoscope.Proofs.Grammar.Calls

/-! What unwinding leaves behind. A method that enters a primary leaves it again, whether it returns, fails at a token
or has no frames left, so whatever a parser was called for, none of it is counted any more. -/
namespace Kaleidoscope

namespace Descent

/-- The descent is the other one, inside of as many primaries, but possibly somewhere else. -/
def Elsewhere (d e : Descent) : Prop := e.depth = d.depth ∧ d.parser.Elsewhere e.parser

/-- However the act ends, it counts nothing that it does not take back. -/
def Restores {α : Type} (act : Act α) : Prop := ∀ d : Descent, d.Elsewhere (act d).2

theorem Elsewhere.refl (d : Descent) : d.Elsewhere d := ⟨rfl, .refl d.parser⟩

theorem Elsewhere.trans {d e e' : Descent} (first : d.Elsewhere e) (second : e.Elsewhere e') : d.Elsewhere e' :=
  ⟨second.1.trans first.1, first.2.trans second.2⟩

variable {α β : Type} {act : Act α}

theorem Restores.bind {next : α → Act β} (first : Restores act) (others : ∀ value, Restores (next value)) :
    Restores (act >>= next) := by
  intro d
  have moved := first d
  rw [bind_eq]
  cases ran : act d with
  | mk result e =>
    rw [ran] at moved
    cases result with
    | error why => exact moved
    | ok value => exact moved.trans (others value e)

theorem restores_pure (value : α) : Restores (pure value : Act α) := Elsewhere.refl

theorem restores_exhausted : Restores (exhausted : Act α) := Elsewhere.refl

theorem restores_fail (expected : Expectation) : Restores (fail expected : Act α) := Elsewhere.refl

theorem restores_current? : Restores current? := Elsewhere.refl

theorem restores_current : Restores current := Elsewhere.refl

theorem restores_advance : Restores advance := by
  intro d
  exact ⟨rfl, d.parser.elsewhere_advance⟩

theorem restores_demand (c : Char) (expected : Expectation) : Restores (demand c expected) := by
  refine restores_current?.bind fun token? => ?_
  split
  · exact restores_fail expected
  · exact restores_pure _

theorem restores_precedence : Restores precedence :=
  restores_current?.bind fun _ => Elsewhere.refl

/-- A primary that is entered is left, whatever comes of its form. -/
theorem restores_primary {frames : Nat} (form : Restores (primaryForm frames)) : Restores (primary (frames + 1)) := by
  intro d
  rw [primary]
  dsimp only
  split
  · exact restores_fail .shallowerNesting d
  · obtain ⟨depth, moved⟩ := form d.enter
    refine ⟨?_, moved⟩
    change (primaryForm frames d.enter).2.depth - 1 = d.depth
    rw [depth]
    exact Int.add_sub_cancel d.depth 1

/-- What the methods with so many frames keep. -/
structure RestoresAll (frames : Nat) : Prop where
  primary : Restores (primary frames)
  primaryForm : Restores (primaryForm frames)
  named (name : String) : Restores (named frames name)
  callArguments : Restores (callArguments frames)
  arguments (found : List Expr) : Restores (arguments frames found)
  group : Restores (group frames)
  expression : Restores (expression frames)
  climb (least : Int) (lhs : Expr) : Restores (climb frames least lhs)

theorem restoresAll (frames : Nat) : RestoresAll frames := by
  induction frames with
  | zero =>
    constructor
    all_goals intros
    all_goals exact restores_exhausted
  | succ frames ih =>
    constructor
    case primary => exact restores_primary ih.primaryForm
    case primaryForm =>
      rw [primaryForm]
      refine restores_current.bind fun token => restores_current?.bind fun next? => ?_
      split
      · exact ih.named _
      · exact restores_advance.bind fun _ => restores_pure _
      · exact ih.group
      · exact restores_fail _
    case named =>
      intro name
      rw [named]
      refine restores_current.bind fun token => restores_advance.bind fun _ => restores_current?.bind fun next? => ?_
      split
      · exact restores_pure _
      · exact restores_advance.bind fun _ => ih.callArguments.bind fun args =>
          restores_advance.bind fun _ => restores_pure _
    case callArguments =>
      rw [callArguments]
      refine restores_current?.bind fun next? => ?_
      split
      · exact restores_pure _
      · exact ih.arguments []
    case arguments =>
      intro found
      rw [arguments]
      refine restores_current?.bind fun next? => ?_
      split
      case' isTrue => refine (restores_fail _).bind fun _ => ?_
      all_goals
        refine ih.expression.bind fun value => restores_current?.bind fun behind? => ?_
        split
        · exact restores_pure _
        · exact (restores_demand _ _).bind fun _ => restores_advance.bind fun _ => ih.arguments _
    case group =>
      rw [group]
      exact restores_advance.bind fun _ => ih.expression.bind fun value =>
        (restores_demand _ _).bind fun _ => restores_advance.bind fun _ => restores_pure value
    case expression =>
      rw [expression]
      exact ih.primary.bind (ih.climb 0)
    case climb =>
      intro least lhs
      rw [climb]
      refine restores_precedence.bind fun binding => ?_
      split
      · exact restores_pure lhs
      · refine restores_current.bind fun op => restores_advance.bind fun _ => ih.primary.bind fun operand =>
          restores_precedence.bind fun next => ?_
        have rhs : Restores (if binding < next then Descent.climb frames (binding + 1) operand else pure operand) := by
          split
          · exact ih.climb _ _
          · exact restores_pure operand
        exact rhs.bind fun rhs => ih.climb least _

theorem restores_parameters (frames : Nat) (found : List String) : Restores (parameters frames found) := by
  induction frames generalizing found with
  | zero => exact restores_exhausted
  | succ frames ih =>
    rw [parameters]
    refine restores_advance.bind fun _ => restores_current?.bind fun next? => ?_
    split
    · exact ih _
    · exact restores_pure found

theorem restores_prototype (frames : Nat) : Restores (prototype frames) := by
  rw [prototype]
  refine restores_current.bind fun token => restores_current?.bind fun next? => ?_
  split
  · exact restores_advance.bind fun _ => (restores_demand _ _).bind fun _ =>
      (restores_parameters frames []).bind fun params => (restores_demand _ _).bind fun _ =>
        restores_advance.bind fun _ => restores_pure _
  · exact restores_fail _

theorem restores_definition (frames : Nat) : Restores (definition frames) :=
  restores_current.bind fun _ => restores_advance.bind fun _ => (restores_prototype frames).bind fun _ =>
    (restoresAll frames).expression.bind fun _ => restores_pure _

theorem restores_declaration (frames : Nat) : Restores (declaration frames) :=
  restores_advance.bind fun _ => restores_prototype frames

theorem restores_bareExpression (frames : Nat) : Restores (bareExpression frames) :=
  (restoresAll frames).expression.bind fun _ => restores_pure _

theorem restores_entity (frames : Nat) (token : Token) : Restores (entity frames token) := by
  rw [entity]
  split
  · exact (restores_definition frames).bind fun _ => restores_pure _
  · exact (restores_declaration frames).bind fun _ => restores_pure _
  · exact (restores_bareExpression frames).bind fun _ => restores_pure _

theorem elsewhere_nextEntity (frames : Nat) (d : Descent) : d.Elsewhere (nextEntity frames d).2 := by
  rw [nextEntity]
  split
  · exact .refl d
  · next token rest ahead =>
    split
    · exact ⟨rfl, d.parser.look.elsewhere_advance⟩
    · have there := restores_entity frames token d.look
      split
      all_goals
        next ran =>
          rw [ran] at there
          exact there

theorem elsewhere_perform (frames : Nat) (d : Descent) (call : Parser.Call) : d.Elsewhere (perform frames d call) := by
  cases call with
  | advance => exact restores_advance d
  | expression => exact (restoresAll frames).expression d
  | primary => exact (restoresAll frames).primary d
  | primaryForm => exact (restoresAll frames).primaryForm d
  | continuation least lhs => exact (restoresAll frames).climb least lhs d
  | group => exact (restoresAll frames).group d
  | prototype => exact restores_prototype frames d
  | definition => exact restores_definition frames d
  | declaration => exact restores_declaration frames d
  | bareExpression => exact restores_bareExpression frames d
  | nextEntity => exact elsewhere_nextEntity frames d

theorem elsewhere_performs (frames : Nat) (d : Descent) (calls : List Parser.Call) :
    d.Elsewhere (calls.foldl (perform frames) d) := by
  induction calls generalizing d with
  | nil => exact .refl d
  | cons call calls ih => exact (elsewhere_perform frames d call).trans (ih _)

end Descent
end Kaleidoscope
