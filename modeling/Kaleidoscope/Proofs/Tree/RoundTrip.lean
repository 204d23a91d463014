import Kaleidoscope.Proofs.Tree.Rereading

/-! The canonical text of a tree is read back as the tree, under any operator table in which its operators
are operators. The height of an expression is exactly the nesting that takes. -/
namespace Kaleidoscope

theorem Expr.Within.spellable {table : OperatorTable} {e : Expr} (h : e.Within (canonical table)) :
    e.Within Expr.spellable :=
  h.both h ⟨fun _ literal _ => literal, fun _ _ _ => trivial, fun _ _ _ => trivial⟩

theorem Entity.Within.spellable {table : OperatorTable} {entity : Entity}
    (h : entity.Within (canonical table)) : ∀ body ∈ entity.body?, body.Within Expr.spellable := by
  intro body member
  cases entity with
  | declaration p => cases member
  | function f =>
    cases member
    exact h.2.spellable

namespace Parser

open Grammar

variable {p q : Parser}

theorem read_of_fails {α : Type} {reader : Reader α} {expected : Expectation} {rest : List Token}
    (fails : (reader p.ahead).Fails expected rest) :
    p.read reader = (.error (Parser.diagnose { p.look with ahead := rest } expected),
      { p.look with ahead := rest }) := by
  obtain ⟨within, failed⟩ := fails
  rw [read, failed]
  rfl

theorem warnings_eq_nil (spelt : ∀ token ∈ p.sequence.tokens, token.misspelling = none) :
    p.warnings = [] := by
  rw [warnings, List.filterMap_eq_nil_iff]
  intro token member
  have inSequence : token ∈ p.sequence.tokens := by
    unfold pulled at member
    split at member
    · exact (List.takeWhile_sublist _).subset member
    · cases member
  simp [Token.warning?, Token.complaint?, spelt token inSequence]

/-- Tokens that say the canonical text of an expression are read if the nesting allows for its height, and
are refused for the nesting otherwise. -/
theorem expression_of_lexemes {e : Expr} (h : e.Within (canonical p.table))
    (same : p.ahead.map (·.lexeme) = e.lexemes) :
    (e.height ≤ p.nesting → ∃ e', p.expression = (.ok e', { p.look with ahead := [] }) ∧
      e'.bare = e.bare) ∧
    (p.nesting < e.height → ∃ rest,
      p.expression = (.error (Parser.diagnose { p.look with ahead := rest } .shallowerNesting),
        { p.look with ahead := rest })) := by
  obtain ⟨e', bare, reads⟩ := e.reads_lexemes [] h same (by simp [Lacks])
  rw [List.append_nil] at reads
  have positive := e.height_pos
  constructor
  · intro shallow
    have within : e.height ≤ p.levels := by
      rw [levels]
      omega
    have yields := reads.alone.readBy within (by simp [Phrase.Ends])
    exact ⟨e', read_eq_ok_iff.mpr ⟨[], yields, rfl⟩, bare⟩
  · intro deep
    have beyond : p.levels < e.height := by
      rw [levels]
      omega
    obtain ⟨rest, fails⟩ := reads.alone.tooDeep beyond
    exact ⟨rest, read_of_fails fails⟩

/-- The text of an expression is read as the expression if the nesting allows for its height, and is
refused for its nesting otherwise. The text of a program is read as its entities and their semicolons. -/
theorem reads_canonical_text (table : OperatorTable) (nesting : Int) (file : String) :
    (∀ e : Expr, e.Within (canonical table) → ∃ text, e.spelling = .ok text ∧
      (e.height ≤ nesting → ∃ e' q, (ofText table nesting file text).expression = (.ok e', q) ∧
        e'.alike e = true ∧ q.current.lexeme = .endOfInput ∧ q.warnings = []) ∧
      (nesting < e.height → ∃ diagnostic q message found,
        (ofText table nesting file text).expression = (.error diagnostic, q) ∧
          diagnostic.problem = .nestingTooDeep message found nesting)) ∧
    (∀ entities : List Entity, (∀ entity ∈ entities, entity.Within (canonical table)) →
      (∀ entity ∈ entities, ∀ body ∈ entity.body?, body.height ≤ nesting) →
        ∃ text read, programSpelling entities = .ok text ∧
          read.map Entity.bare = entities.map Entity.bare ∧
            (ofText table nesting file text).outcomes = accepting read ++ [.finished]) := by
  constructor
  · intro e within
    obtain ⟨text, spelt⟩ := e.exists_spelling_iff.mpr within.spellable
    obtain ⟨same, wellSpelt⟩ := (e.fallsInto_spelling within spelt).tokens file
    obtain ⟨shallow, deep⟩ := expression_of_lexemes (p := ofText table nesting file text) within same
    refine ⟨text, spelt, ?_, ?_⟩
    · intro bound
      obtain ⟨e', read, bare⟩ := shallow bound
      exact ⟨e', _, read, by simp [Expr.alike, bare], rfl, warnings_eq_nil wellSpelt⟩
    · intro beyond
      obtain ⟨rest, refused⟩ := deep beyond
      exact ⟨_, _, _, _, refused, rfl⟩
  · intro entities within shallow
    obtain ⟨text, spelt⟩ := exists_programSpelling_iff.mpr
      fun entity member => (within entity member).spellable
    obtain ⟨same, -⟩ := (fallsInto_programSpelling within spelt).tokens file
    have bound : ∀ entity ∈ entities, entity.height ≤ nesting.toNat := by
      intro entity member
      apply Entity.height_le_iff.mpr
      intro body inside
      have := shallow entity member body inside
      omega
    obtain ⟨read, bares, outcomes⟩ :=
      outcomes_of_lexemes (p := ofText table nesting file text) within bound same
    exact ⟨text, read, spelt, bares, outcomes⟩

/-- The definition of a function by a sum whose height is the nesting allowed. -/
theorem reads_canonical_text_sum :
    let sum := Expr.binary "+" (.call "f" [.var "x" none] none) (.number ⟨0x3FF0000000000000⟩ none) none
    let definition := Entity.function ⟨⟨"f", ["x"], none⟩, sum, none⟩
    (sum.Within (canonical .standard) ∧ definition.Within (canonical .standard) ∧ (sum.height : Int) ≤ 3) ∧
    (∃ text e' q, sum.spelling = .ok text ∧
      (ofText .standard 3 "sum" text).expression = (.ok e', q) ∧ e'.alike sum = true) ∧
    ∃ text read, programSpelling [definition] = .ok text ∧ read.map Entity.bare = [definition].map Entity.bare ∧
      (ofText .standard 3 "sum" text).outcomes = accepting read ++ [.finished] := by
  intro sum definition
  have f : IsName "f" := .ofLetter (c := 'f') (by simp) rfl
  have x : IsName "x" := .ofLetter (c := 'x') (by simp) rfl
  have plus : OperatorTable.standard.Binds "+" := ⟨'+', rfl, by decide⟩
  have within : sum.Within (canonical .standard) := ⟨plus, ⟨f, x, trivial⟩, by decide, by decide⟩
  have whole : definition.Within (canonical .standard) := ⟨⟨f, by simpa [canonical] using x⟩, within⟩
  have height : (sum.height : Int) ≤ 3 := by decide
  obtain ⟨text, spelt, shallow, -⟩ := (reads_canonical_text .standard 3 "sum").1 sum within
  obtain ⟨e', q, read, alike, -⟩ := shallow height
  refine ⟨⟨within, whole, height⟩, ⟨text, e', q, spelt, read, alike⟩, ?_⟩
  exact (reads_canonical_text .standard 3 "sum").2 [definition] (by simpa using whole)
    (by simpa [definition, Entity.body?] using height)

end Parser
end Kaleidoscope
