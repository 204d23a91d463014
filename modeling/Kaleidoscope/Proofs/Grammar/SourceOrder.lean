import Kaleidoscope.Proofs.Grammar.Position
import Kaleidoscope.Proofs.Session.Arity
import Kaleidoscope.Proofs.Token.Placement
import Kaleidoscope.Proofs.Tree.Marks

/-! Trees that are read from a text lie in it in order. Every node is located at the token that it shows, the locations
increase in reading order, and so the first call that a check finds at fault is the first one in the text. -/
namespace Kaleidoscope

def Mark.Precedes (a b : Mark) : Prop :=
  ∃ place place', a.2 = some place ∧ b.2 = some place' ∧ place.Precedes place'

variable {tokens : List Token} {token : Token} {mark : Mark} {f : Function} {entity : Entity} {d : Diagnostic}
  {known : KnownFunctions}

theorem Token.mark?_eq_some (some : token.mark? = .some mark) :
    token.lexeme.sign? = .some mark.1 ∧ mark.2 = .some token.location := by
  obtain ⟨sign, same, rfl⟩ := Option.map_eq_some_iff.mp some
  exact ⟨same, rfl⟩

theorem pairwise_marks (increasing : tokens.Pairwise fun s t => s.location.Precedes t.location) :
    (tokens.filterMap Token.mark?).Pairwise Mark.Precedes := by
  rw [List.pairwise_filterMap]
  refine increasing.imp fun {s t} before mark some mark' some' => ?_
  exact ⟨_, _, (Token.mark?_eq_some some).2, (Token.mark?_eq_some some').2, before⟩

theorem eq_of_location_eq {other : Token} (increasing : tokens.Pairwise fun s t => s.location.Precedes t.location)
    (member : token ∈ tokens) (member' : other ∈ tokens) (same : other.location = token.location) : other = token := by
  have apart : tokens.Pairwise fun s t => s.location = t.location → s = t :=
    increasing.imp fun before same => absurd (same ▸ before) (Location.Precedes.irrefl _)
  have apart' : tokens.Pairwise (flip fun s t => s.location = t.location → s = t) :=
    apart.imp fun other same => (other same.symm).symm
  exact apart.forall_of_forall_of_flip (fun _ _ _ => rfl) apart' member' member same

def Sign.ShownBy : Sign → List Char → Prop
  | .keyword, chars => String.ofList chars = "def"
  | .name text, chars | .operator text, chars => String.ofList chars = text
  | .value x, chars => (∀ c ∈ chars, isNumeral c = true) ∧ (Literal.ofText chars).value = x

theorem Token.StandsIn.shows {file : String} {text before chars behind : List Char} {sign : Sign}
    (stands : token.StandsIn file text before chars behind) (some : token.lexeme.sign? = some sign) :
    sign.ShownBy chars := by
  cases stands with
  | @piece front back piece division lexeme =>
    cases piece with
    | layout | comment => cases lexeme
    | numeral first body =>
      have valid : (Piece.numeral first body).IsValid := division.isValid_of_mem (by simp)
      rw [← Option.some.inj lexeme] at some
      cases some
      exact ⟨List.forall_mem_cons.mpr valid, rfl⟩
    | lone c =>
      rw [← Option.some.inj lexeme, Lexeme.sign?] at some
      split at some <;> cases some
      rfl
    | word first body =>
      rw [← Option.some.inj lexeme, Lexeme.ofWord] at some
      split at some
      · next word =>
        cases some
        exact word
      · split at some <;> cases some
        rfl
  | ending lexeme =>
    rw [lexeme] at some
    cases some

/-- The nodes of the entity lie in the text, in the order of their marks. -/
structure Entity.LocatedIn (file text : String) (entity : Entity) : Prop where
  /-- At the location of a node is a token that shows just what the node does, and no other one. -/
  shows : ∀ sign at?, (sign, at?) ∈ entity.marks → ∃ token ∈ (tokenize file text).tokens,
    at? = some token.location ∧ token.lexeme.sign? = some sign ∧
      (∃ before chars behind, token.StandsIn file text.toList before chars behind ∧ sign.ShownBy chars) ∧
      ∀ other ∈ (tokenize file text).all, other.location = token.location → other = token
  increasing : entity.marks.Pairwise Mark.Precedes
  /-- A function without a name is where its body is. -/
  wrapper : ∀ f, entity = .function f → f.isAnonymous = true →
    f.at? = f.body.location? ∧ f.proto.at? = f.body.location?

theorem Entity.locatedIn {file text : String} {used : List Token} (inside : used.Sublist (tokenize file text).tokens)
    (shown : entity.marks = used.filterMap Token.mark?)
    (wrapper : ∀ f, entity = .function f → f.isAnonymous = true →
      f.at? = f.body.location? ∧ f.proto.at? = f.body.location?) : entity.LocatedIn file text := by
  have increasing := pairwise_precedes_tokenize file text
  have all := inside.trans (List.sublist_append_left (tokenize file text).tokens [(tokenize file text).final])
  refine ⟨fun sign at? member => ?_, shown ▸ pairwise_marks (increasing.sublist all), wrapper⟩
  obtain ⟨token, here, mark⟩ := List.mem_filterMap.mp (shown ▸ member)
  obtain ⟨same, place⟩ := Token.mark?_eq_some mark
  obtain ⟨before, chars, behind, stands, -⟩ := exists_standsIn file (all.subset here)
  exact ⟨token, inside.subset here, place, same, ⟨before, chars, behind, stands, stands.shows same⟩,
    fun other member' => eq_of_location_eq increasing (all.subset here) member'⟩

theorem Entity.body_marks_sublist (f : Function) : f.body.marks.Sublist (Entity.function f).marks := by
  rw [Entity.marks]
  split
  · exact List.Sublist.refl _
  · exact ((List.Sublist.refl _).cons _).cons _

namespace KnownFunctions

/-- Where the marks of a body increase, the call that a function is blamed for comes before all others at fault. -/
theorem blames_first_in_text (increasing : f.body.marks.Pairwise Mark.Precedes)
    (located : ∀ mark ∈ f.body.marks, mark.2.isSome = true) (rejected : known.check (.function f) = .error d) :
    ∃ place site loc, f.body.CallAt place site ∧ (known.declare f.proto).Blames site d ∧ site.at? = some loc ∧
      d.location? = some loc ∧ ∀ place' other, f.body.CallAt place' other → ¬ (known.declare f.proto).Fits other →
        place' = place ∨ ∃ loc', other.at? = some loc' ∧ loc.Precedes loc' := by
  have found : f.body.calls.findSome? (known.declare f.proto).blame? = some d := by
    rw [check_function] at rejected
    cases found : f.body.calls.findSome? (known.declare f.proto).blame? with
    | none => simp [found] at rejected
    | some other => simpa [found] using rejected
  have marks : (f.body.placedCalls.map fun placed => ((.name placed.2.callee, placed.2.at?) : Mark)).Sublist
      f.body.marks := by
    have sites := f.body.calls_sublist_marks
    rwa [← Expr.map_placedCalls, List.map_map] at sites
  have ordered := (increasing.sublist marks)
  rw [List.pairwise_map] at ordered
  rw [Expr.findSome?_calls] at found
  obtain ⟨front, ⟨place, site⟩, back, split, blamed, fits⟩ := List.findSome?_eq_some_iff.mp found
  have blames := blame?_eq_some_iff.mp blamed
  have member : (place, site) ∈ f.body.placedCalls := by simp [split]
  obtain ⟨loc, at_loc⟩ := Option.isSome_iff_exists.mp (located _ (marks.subset (List.mem_map_of_mem member)))
  have location : d.location? = site.at? := by cases blames <;> rfl
  refine ⟨place, site, loc, (Expr.mem_placedCalls_iff _).mp member, blames, at_loc, location.trans at_loc, ?_⟩
  intro place' other stands misfit
  have member' := (Expr.mem_placedCalls_iff _).mpr stands
  rw [split, List.pairwise_append, List.pairwise_cons] at ordered
  rw [split, List.mem_append, List.mem_cons] at member'
  rcases member' with before | same | behind
  · exact absurd (blame?_eq_none_iff.mp (fits _ before)) misfit
  · cases same
    exact .inl rfl
  · obtain ⟨here, there, at_here, at_there, precedes⟩ := ordered.2.1.1 _ behind
    obtain rfl := Option.some.inj (at_here.symm.trans at_loc)
    exact .inr ⟨there, at_there, precedes⟩

end KnownFunctions

namespace Parser

open Grammar

theorem ahead_calls_suffix_tokens (table : OperatorTable) (nesting : Int) (file text : String) (calls : List Call) :
    (calls.foldl after (ofText table nesting file text)).ahead <:+ (tokenize file text).tokens :=
  (ofText table nesting file text).ahead_calls_suffix calls

section Accepted

variable {table : OperatorTable} {nesting : Int} {file text : String} {calls : List Call} {q : Parser}
  (accepted : (calls.foldl after (ofText table nesting file text)).nextEntity = (.accepted entity, q))
include accepted

theorem exists_reads_of_accepted :
    (∀ token ∈ (calls.foldl after (ofText table nesting file text)).ahead, token.lexeme.Scanned) ∧
      ∃ depth, ReadsEntity table entity depth (calls.foldl after (ofText table nesting file text)).ahead q.ahead := by
  obtain ⟨⟨-, depth, -, reads⟩, -⟩ := nextEntity_eq_accepted_iff.mp accepted
  obtain ⟨same, -, -⟩ := (ofText table nesting file text).elsewhere_calls calls
  rw [same] at reads
  have suffix := ahead_calls_suffix_tokens table nesting file text calls
  exact ⟨fun token member => scanned_tokenize file text token (suffix.subset member), depth, reads⟩

theorem locatedIn_of_accepted : entity.LocatedIn file text := by
  obtain ⟨scanned, depth, reads⟩ := exists_reads_of_accepted accepted
  obtain ⟨head, own, split, marks, -⟩ := reads.marks scanned
  have inside : (head.take 2 ++ own).Sublist (tokenize file text).tokens := by
    refine List.Sublist.trans ?_ (ahead_calls_suffix_tokens table nesting file text calls).sublist
    rw [split]
    exact ((List.take_sublist 2 head).append_right own).trans (List.sublist_append_left _ _)
  refine Entity.locatedIn inside marks fun f same anonymous => ?_
  subst same
  rw [(reads.bare_of_anonymous scanned anonymous).1]
  exact ⟨rfl, rfl⟩

end Accepted

/-- An entity that is accepted shows the tokens it was read from: its keyword and name, and of its body, which is all
that there is of a bare expression, each token but the punctuation, in the order of the nodes where an operator stands
between its operands and a name before its arguments. Each node is located at its token, so the locations increase, and
a check that does not pass the entity blames the first of all calls in the text that do not fit. -/
theorem accepted_located_in_order (table : OperatorTable) (nesting : Int) (file text : String) (calls : List Call)
    {entity : Entity} {q : Parser}
    (accepted : (calls.foldl after (ofText table nesting file text)).nextEntity = (.accepted entity, q)) :
    (∃ head own, (calls.foldl after (ofText table nesting file text)).ahead = head ++ own ++ q.ahead ∧
      entity.marks = (head.take 2 ++ own).filterMap Token.mark? ∧
      (entity.kind = .expression → head = []) ∧ (entity.kind = .declaration → own = []) ∧
      ∀ f, entity = .function f → f.body.marks = own.filterMap Token.mark?) ∧
    entity.LocatedIn file text ∧
    ∀ (known : KnownFunctions) d, known.check entity = .error d →
      ∃ f place site loc, entity = .function f ∧ f.body.CallAt place site ∧ (known.declare f.proto).Blames site d ∧
        site.at? = some loc ∧ d.location? = some loc ∧
        ∀ place' other, f.body.CallAt place' other → ¬ (known.declare f.proto).Fits other →
          place' = place ∨ ∃ loc', other.at? = some loc' ∧ loc.Precedes loc' := by
  obtain ⟨scanned, depth, reads⟩ := exists_reads_of_accepted accepted
  have located := locatedIn_of_accepted accepted
  refine ⟨reads.marks scanned, located, fun known d rejected => ?_⟩
  cases entity with
  | declaration proto => cases rejected
  | function f =>
    have body := Entity.body_marks_sublist f
    have shown : ∀ mark ∈ f.body.marks, mark.2.isSome = true := by
      intro mark member
      obtain ⟨token, -, place, -⟩ := located.shows mark.1 mark.2 (body.subset member)
      exact Option.isSome_of_eq_some place
    obtain ⟨place, site, loc, blamed⟩ := known.blames_first_in_text (located.increasing.sublist body) shown rejected
    exact ⟨f, place, site, loc, rfl, blamed⟩

/-- Of `def f(x) x * g(h(1))` the operator comes between the variable and the calls, and `g` is blamed before `h`. -/
theorem accepted_located_in_order_of_nested_calls :
    let parser := ofText .standard 8 "order" "def f(x) x * g(h(1))"
    let place (column : Int) : Option Location := some ⟨"order", 1, column⟩
    let body : Expr := .binary "*" (.var "x" (place 10))
      (.call "g" [.call "h" [.number ⟨0x3FF0000000000000⟩ (place 18)] (place 16)] (place 14)) (place 12)
    let entity : Entity := .function ⟨⟨"f", ["x"], place 5⟩, body, place 1⟩
    let d : Diagnostic := ⟨.unknownFunction "g", place 14, none⟩
    parser.nextEntity = (.accepted entity, parser.nextEntity.2) ∧ KnownFunctions.none.check entity = .error d ∧
      entity.marks.map (·.2) = [place 1, place 5, place 10, place 12, place 14, place 16, place 18] ∧
      entity.LocatedIn "order" "def f(x) x * g(h(1))" ∧
      ∃ f site, entity = .function f ∧ (KnownFunctions.none.declare f.proto).Blames site d ∧ site.at? = place 14 := by
  intro parser place body entity d
  have accepted : parser.nextEntity = (.accepted entity, parser.nextEntity.2) := Prod.ext (by decide +kernel) rfl
  have rejected : KnownFunctions.none.check entity = .error d := by decide
  obtain ⟨-, located, blames⟩ := accepted_located_in_order .standard 8 "order" "def f(x) x * g(h(1))" [] accepted
  obtain ⟨f, _, site, loc, same, -, blamed, at_site, at_diagnostic, -⟩ := blames _ _ rejected
  exact ⟨accepted, rejected, rfl, located, f, site, same, blamed, at_site.trans at_diagnostic.symm⟩

end Parser
end Kaleidoscope
