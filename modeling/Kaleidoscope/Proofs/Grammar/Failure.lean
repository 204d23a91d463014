import Kaleidoscope.Proofs.Grammar.Recognition

/-! Where reading gets stuck, as rules beside those of the grammar. Each rule reads what comes before the
token that does not fit and says what was expected there; the readers fail just as the rules say. -/
namespace Kaleidoscope

@[simp] theorem fails_expectChar {c : Char} {expected expected' : Expectation} {tokens rest : List Token} :
    (expectChar c expected tokens).Fails expected' rest ↔
      Grammar.Lacks c tokens ∧ expected = expected' ∧ tokens = rest := by
  cases tokens with
  | nil => simp [expectChar, Grammar.Lacks]
  | cons token behind =>
    by_cases h : token.isChar c = true
    · have same := Token.isChar_iff.mp h
      simp [expectChar, h, Grammar.Lacks, same]
    · have other : token.lexeme ≠ .character c := fun same => h (Token.isChar_iff.mpr same)
      simp [expectChar, h, Grammar.Lacks, other]

namespace Grammar

inductive Interrupted (expression : Reader Expr) : List Token → Expectation → List Token → Prop where
  | missing : Interrupted expression [] .closingParenthesisOrComma []
  | here (fails : (expression (first :: others)).Fails expected stuck) :
      Interrupted expression (first :: others) expected stuck
  | unclosed (reads : (expression tokens).Yields value rest) (unclosed : Lacks ')' rest)
      (last : Lacks ',' rest) : Interrupted expression tokens .closingParenthesisOrComma rest
  | later (reads : (expression tokens).Yields value (comma :: behind))
      (separator : comma.lexeme = .character ',')
      (interrupted : Interrupted expression behind expected stuck) :
      Interrupted expression tokens expected stuck

inductive Unformed (expression : Reader Expr) : List Token → Expectation → List Token → Prop where
  | nothing (none : ∀ token ∈ tokens.head?, ¬ Starts token) :
      Unformed expression tokens .expression tokens
  | call (word : token.lexeme = .identifier name) (opening : left.lexeme = .character '(')
      (begun : Lacks ')' tokens) (interrupted : Interrupted expression tokens expected stuck) :
      Unformed expression (token :: left :: tokens) expected stuck
  | group (opening : left.lexeme = .character '(') (fails : (expression tokens).Fails expected stuck) :
      Unformed expression (left :: tokens) expected stuck
  | unclosed (opening : left.lexeme = .character '(') (reads : (expression tokens).Yields e rest)
      (unclosed : Lacks ')' rest) : Unformed expression (left :: tokens) .closingParenthesis rest

section Readers

variable {expression : Reader Expr} {tokens rest stuck : List Token} {expected : Expectation}

theorem fails_arguments_iff {found : List Expr} :
    (arguments expression found tokens).Fails expected stuck ↔
      Interrupted expression tokens expected stuck := by
  fun_induction arguments expression found tokens with
  | case1 found =>
    simp only [Reading.fails_stuckAt]
    constructor
    · rintro ⟨rfl, rfl⟩
      exact .missing
    · intro h
      cases h with
      | missing => exact ⟨rfl, rfl⟩
      | unclosed reads _ _ => exact absurd reads.shorter (by simp)
      | later reads _ _ => exact absurd reads.shorter (by simp)
  | case2 found first others expected' stuckAt within failed =>
    have fails : (expression (first :: others)).Fails expected' stuckAt := ⟨within, failed⟩
    simp only [Reading.fails_stuck]
    constructor
    · rintro ⟨rfl, rfl⟩
      exact .here fails
    · intro h
      cases h with
      | here fails' => simpa [failed] using fails'
      | unclosed reads _ _ => exact absurd fails reads.not_fails
      | later reads _ _ => exact absurd fails reads.not_fails
  | case3 found first others value shorter _ read =>
    have reads : (expression (first :: others)).Yields value [] := ⟨shorter, read⟩
    simp only [Reading.fails_stuck]
    constructor
    · rintro ⟨rfl, rfl⟩
      exact .unclosed reads (by simp [Lacks]) (by simp [Lacks])
    · intro h
      cases h with
      | here fails => exact absurd fails reads.not_fails
      | unclosed reads' _ _ => exact ⟨rfl, (reads.unique reads').2⟩
      | later reads' _ _ => cases (reads.unique reads').2
  | case4 found first others value next behind shorter closing _ read =>
    have reads : (expression (first :: others)).Yields value (next :: behind) := ⟨shorter, read⟩
    have closing := Token.isChar_iff.mp closing
    simp only [Reading.fails_done, false_iff]
    intro h
    cases h with
    | here fails => exact reads.not_fails fails
    | unclosed reads' unclosed _ =>
      obtain rfl := (reads.unique reads').2
      exact unclosed next rfl closing
    | later reads' separator _ =>
      cases (reads.unique reads').2
      simp [closing] at separator
  | case5 found first others value next behind shorter other separator _ read ih =>
    have reads : (expression (first :: others)).Yields value (next :: behind) := ⟨shorter, read⟩
    have separator := Token.isChar_iff.mp separator
    simp only [Reading.fails_weaken, ih]
    constructor
    · exact .later reads separator
    · intro h
      cases h with
      | here fails => exact absurd fails reads.not_fails
      | unclosed reads' _ last =>
        obtain rfl := (reads.unique reads').2
        exact absurd separator (last next rfl)
      | later reads' _ interrupted =>
        cases (reads.unique reads').2
        exact interrupted
  | case6 found first others value next behind shorter other neither _ read =>
    have reads : (expression (first :: others)).Yields value (next :: behind) := ⟨shorter, read⟩
    have other : next.lexeme ≠ .character ')' := fun same => other (Token.isChar_iff.mpr same)
    have neither : next.lexeme ≠ .character ',' := fun same => neither (Token.isChar_iff.mpr same)
    simp only [Reading.fails_stuck]
    constructor
    · rintro ⟨rfl, rfl⟩
      exact .unclosed reads (lacks_of_lexeme other) (lacks_of_lexeme neither)
    · intro h
      cases h with
      | here fails => exact absurd fails reads.not_fails
      | unclosed reads' _ _ => exact ⟨rfl, (reads.unique reads').2⟩
      | later reads' separator _ =>
        cases (reads.unique reads').2
        exact absurd separator neither

theorem fails_group_iff :
    (group expression tokens).Fails expected stuck ↔ (expression tokens).Fails expected stuck ∨
      ∃ e, (expression tokens).Yields e stuck ∧ Lacks ')' stuck ∧ .closingParenthesis = expected := by
  simp only [group, Reading.fails_andThen, Reading.fails_map, fails_expectChar]
  constructor
  · rintro (fails | ⟨e, _, reads, unclosed, rfl, rfl⟩)
    · exact .inl fails
    · exact .inr ⟨e, reads, unclosed, rfl⟩
  · rintro (fails | ⟨e, reads, unclosed, rfl⟩)
    · exact .inl fails
    · exact .inr ⟨e, stuck, reads, unclosed, rfl, rfl⟩

theorem fails_callArguments_iff :
    (callArguments expression tokens).Fails expected stuck ↔
      Lacks ')' tokens ∧ Interrupted expression tokens expected stuck := by
  cases tokens with
  | nil => simp [callArguments, fails_arguments_iff, Lacks]
  | cons next behind =>
    by_cases closing : next.isChar ')' = true
    · have same := Token.isChar_iff.mp closing
      simp [callArguments, closing, Lacks, same]
    · have other : next.lexeme ≠ .character ')' := fun same => closing (Token.isChar_iff.mpr same)
      simp [callArguments, closing, fails_arguments_iff, Lacks, other]

theorem fails_afterName_iff {name : String} {at? : Option Location} :
    (afterName expression name at? tokens).Fails expected stuck ↔
      ∃ left behind, tokens = left :: behind ∧ left.lexeme = .character '(' ∧
        (callArguments expression behind).Fails expected stuck := by
  cases tokens with
  | nil => simp [afterName]
  | cons next behind =>
    by_cases opening : next.isChar '(' = true
    · have same := Token.isChar_iff.mp opening
      simp only [afterName, opening, if_true, Reading.fails_weaken, Reading.fails_map, List.cons.injEq]
      constructor
      · intro fails
        exact ⟨next, behind, ⟨rfl, rfl⟩, same, fails⟩
      · rintro ⟨_, _, ⟨rfl, rfl⟩, -, fails⟩
        exact fails
    · have other : next.lexeme ≠ .character '(' := fun same => opening (Token.isChar_iff.mpr same)
      simp [afterName, opening, other]

theorem fails_primaryForm_iff :
    (primaryForm expression tokens).Fails expected stuck ↔ Unformed expression tokens expected stuck := by
  constructor
  · intro fails
    cases tokens with
    | nil =>
      simp only [primaryForm, Reading.fails_stuckAt] at fails
      obtain ⟨rfl, rfl⟩ := fails
      exact .nothing (by simp)
    | cons token behind =>
      by_cases starts : Starts token
      · cases lexeme : token.lexeme with
        | identifier name =>
          simp only [primaryForm, lexeme, fails_afterName_iff, fails_callArguments_iff] at fails
          obtain ⟨left, inside, rfl, opening, begun, interrupted⟩ := fails
          exact .call lexeme opening begun interrupted
        | number value => simp [primaryForm, lexeme] at fails
        | character c =>
          obtain rfl := starts.eq_opening lexeme
          simp only [primaryForm, lexeme, Reading.fails_weaken, fails_group_iff] at fails
          rcases fails with fails | ⟨e, reads, unclosed, rfl⟩
          · exact .group lexeme fails
          · exact .unclosed lexeme reads unclosed
        | _ => simp [Starts, lexeme] at starts
      · rw [primaryForm_of_not_starts starts, Reading.fails_stuckAt] at fails
        obtain ⟨rfl, rfl⟩ := fails
        exact .nothing (by simpa using starts)
  · intro unformed
    cases unformed with
    | nothing none =>
      cases tokens with
      | nil => simp [primaryForm]
      | cons token behind => simp [primaryForm_of_not_starts (none token rfl)]
    | call word opening begun interrupted =>
      simp only [primaryForm, word, fails_afterName_iff, fails_callArguments_iff]
      exact ⟨_, _, rfl, opening, begun, interrupted⟩
    | group opening fails =>
      simp only [primaryForm, opening, Reading.fails_weaken, fails_group_iff]
      exact .inl fails
    | unclosed opening reads unclosed =>
      simp only [primaryForm, opening, Reading.fails_weaken, fails_group_iff]
      exact .inr ⟨_, reads, unclosed, trivial⟩

end Readers

inductive Part where
  | primary
  | links
  | expression
  | arguments

def Phrase.part : Phrase → Part
  | primary _ => .primary
  | links _ => .links
  | expression _ => .expression
  | arguments _ => .arguments

def Takes (table : OperatorTable) (levels : Nat) (phrase : Phrase) (tokens rest : List Token) : Prop :=
  phrase.Ends table rest ∧ ∃ depth ≤ levels, Reads table phrase depth tokens rest

/-- A phrase of this kind is not read to its end: at `stuck` stands a token that does not fit, and this was
expected instead. -/
inductive Sticks (table : OperatorTable) :
    Part → Nat → List Token → Expectation → List Token → Prop where
  | tooDeep {tokens : List Token} : Sticks table .primary 0 tokens .shallowerNesting tokens
  | noPrimary (none : ∀ token ∈ tokens.head?, ¬ Starts token) :
      Sticks table .primary (levels + 1) tokens .expression tokens
  | inGroup (opening : left.lexeme = .character '(')
      (inner : Sticks table .expression levels tokens expected stuck) :
      Sticks table .primary (levels + 1) (left :: tokens) expected stuck
  | openGroup (opening : left.lexeme = .character '(')
      (inner : Takes table levels (.expression e) tokens rest) (unclosed : Lacks ')' rest) :
      Sticks table .primary (levels + 1) (left :: tokens) .closingParenthesis rest
  | inCall (word : token.lexeme = .identifier name) (opening : left.lexeme = .character '(')
      (begun : Lacks ')' tokens) (inner : Sticks table .arguments levels tokens expected stuck) :
      Sticks table .primary (levels + 1) (token :: left :: tokens) expected stuck
  | nextOperand (joins : Joins table 0 op) (operand : Sticks table .primary levels tokens expected stuck) :
      Sticks table .links levels (op :: tokens) expected stuck
  | laterOperand (joins : Joins table 0 op) (operand : Takes table levels (.primary e) tokens middle)
      (more : Sticks table .links levels middle expected stuck) :
      Sticks table .links levels (op :: tokens) expected stuck
  | firstOperand (first : Sticks table .primary levels tokens expected stuck) :
      Sticks table .expression levels tokens expected stuck
  | inLinks (first : Takes table levels (.primary e) tokens middle)
      (more : Sticks table .links levels middle expected stuck) :
      Sticks table .expression levels tokens expected stuck
  | noArgument : Sticks table .arguments levels [] .closingParenthesisOrComma []
  | inArgument (some : tokens ≠ []) (value : Sticks table .expression levels tokens expected stuck) :
      Sticks table .arguments levels tokens expected stuck
  | openCall (value : Takes table levels (.expression e) tokens rest) (unclosed : Lacks ')' rest)
      (last : Lacks ',' rest) : Sticks table .arguments levels tokens .closingParenthesisOrComma rest
  | laterArgument (value : Takes table levels (.expression e) tokens (comma :: middle))
      (separator : comma.lexeme = .character ',')
      (more : Sticks table .arguments levels middle expected stuck) :
      Sticks table .arguments levels tokens expected stuck

/-- The reader of such phrases fails; that of arguments also when it has found some already. -/
def Part.FailsAt (table : OperatorTable) (levels : Nat) (tokens : List Token) (expected : Expectation)
    (stuck : List Token) : Part → Prop
  | primary => (Grammar.primary table levels tokens).Fails expected stuck
  | links => Breaks table 0 (Grammar.primary table levels) tokens expected stuck
  | expression => (Grammar.expression table levels tokens).Fails expected stuck
  | arguments => Interrupted (Grammar.expression table levels) tokens expected stuck

variable {table : OperatorTable} {phrase : Phrase} {part : Part} {depth levels : Nat} {e : Expr}
  {tokens rest stuck : List Token} {expected : Expectation}

theorem yields_primary_iff :
    (primary table levels tokens).Yields e rest ↔ Takes table levels (.primary e) tokens rest := by
  constructor
  · intro yields
    exact ⟨trivial, derives_of_yields_primary yields⟩
  · intro takes
    obtain ⟨ends, depth, within, reads⟩ := takes
    exact reads.readBy within ends

theorem Linked.ends {operand : Reader Expr} {found : List Link}
    (run : Linked table 0 operand tokens found rest) : ∀ token ∈ rest.head?, ¬ Joins table 0 token := by
  induction run with
  | stop ends => exact ends
  | more _ _ _ ih => exact ih

theorem yields_expression_iff :
    (expression table levels tokens).Yields e rest ↔ Takes table levels (.expression e) tokens rest := by
  constructor
  · intro yields
    obtain ⟨first, middle, found, -, run, -⟩ := yields_chain_iff.mp yields
    exact ⟨run.ends, derives_of_yields_expression yields⟩
  · intro takes
    obtain ⟨ends, depth, within, reads⟩ := takes
    exact reads.readBy within ends

/-- The readers fail where the rules say. -/
theorem Sticks.failsAt (h : Sticks table part levels tokens expected stuck) :
    part.FailsAt table levels tokens expected stuck := by
  induction h with
  | tooDeep => simp [Part.FailsAt, primary]
  | noPrimary none => exact fails_primaryForm_iff.mpr (.nothing none)
  | inGroup opening _ ih => exact fails_primaryForm_iff.mpr (.group opening ih)
  | openGroup opening inner unclosed =>
    exact fails_primaryForm_iff.mpr (.unclosed opening (yields_expression_iff.mpr inner) unclosed)
  | inCall word opening begun _ ih => exact fails_primaryForm_iff.mpr (.call word opening begun ih)
  | nextOperand joins _ ih => exact .here joins ih
  | laterOperand joins operand _ ih => exact .later joins (yields_primary_iff.mpr operand) ih
  | firstOperand _ ih => exact fails_chain_iff.mpr (.inl ih)
  | inLinks first _ ih => exact fails_chain_iff.mpr (.inr ⟨_, _, yields_primary_iff.mpr first, ih⟩)
  | noArgument => exact .missing
  | @inArgument tokens _ _ _ some _ ih =>
    obtain ⟨first, others, rfl⟩ := List.exists_cons_of_ne_nil some
    exact .here ih
  | openCall value unclosed last => exact .unclosed (yields_expression_iff.mpr value) unclosed last
  | laterArgument value separator _ ih => exact .later (yields_expression_iff.mpr value) separator ih

section Soundness

theorem Breaks.sticks (breaks : Breaks table 0 (primary table levels) tokens expected stuck)
    (sound : ∀ {tokens expected stuck}, (primary table levels tokens).Fails expected stuck →
      Sticks table .primary levels tokens expected stuck) :
    Sticks table .links levels tokens expected stuck := by
  induction breaks with
  | here joins fails => exact .nextOperand joins (sound fails)
  | later joins reads _ ih => exact .laterOperand joins (yields_primary_iff.mp reads) ih

theorem sticks_of_fails_chain (fails : (expression table levels tokens).Fails expected stuck)
    (sound : ∀ {tokens expected stuck}, (primary table levels tokens).Fails expected stuck →
      Sticks table .primary levels tokens expected stuck) :
    Sticks table .expression levels tokens expected stuck := by
  rcases fails_chain_iff.mp fails with fails | ⟨first, middle, reads, breaks⟩
  · exact .firstOperand (sound fails)
  · exact .inLinks (yields_primary_iff.mp reads) (breaks.sticks sound)

theorem Interrupted.sticks (interrupted : Interrupted (expression table levels) tokens expected stuck)
    (sound : ∀ {tokens expected stuck}, (expression table levels tokens).Fails expected stuck →
      Sticks table .expression levels tokens expected stuck) :
    Sticks table .arguments levels tokens expected stuck := by
  induction interrupted with
  | missing => exact .noArgument
  | here fails => exact .inArgument (by simp) (sound fails)
  | unclosed reads unclosed last => exact .openCall (yields_expression_iff.mp reads) unclosed last
  | later reads separator _ ih => exact .laterArgument (yields_expression_iff.mp reads) separator ih

theorem sticks_of_fails_primary (fails : (primary table levels tokens).Fails expected stuck) :
    Sticks table .primary levels tokens expected stuck := by
  induction levels generalizing tokens expected stuck with
  | zero =>
    simp only [primary, Reading.fails_stuckAt] at fails
    obtain ⟨rfl, rfl⟩ := fails
    exact .tooDeep
  | succ levels ih =>
    have sound {tokens expected stuck} (fails : (expression table levels tokens).Fails expected stuck) :=
      sticks_of_fails_chain fails ih
    cases fails_primaryForm_iff.mp fails with
    | nothing none => exact .noPrimary none
    | call word opening begun interrupted => exact .inCall word opening begun (interrupted.sticks sound)
    | group opening fails => exact .inGroup opening (sound fails)
    | unclosed opening reads unclosed => exact .openGroup opening (yields_expression_iff.mp reads) unclosed

end Soundness

theorem fails_expression_iff :
    (expression table levels tokens).Fails expected stuck ↔
      Sticks table .expression levels tokens expected stuck :=
  ⟨fun fails => sticks_of_fails_chain fails sticks_of_fails_primary, Sticks.failsAt⟩

theorem Takes.deeper {levels' : Nat} (h : Takes table levels phrase tokens rest) (more : levels ≤ levels') :
    Takes table levels' phrase tokens rest := by
  obtain ⟨ends, depth, within, reads⟩ := h
  exact ⟨ends, depth, Nat.le_trans within more, reads⟩

/-- More levels change nothing unless it was the nesting at which reading got stuck. -/
theorem Sticks.deeper {levels' : Nat} (h : Sticks table part levels tokens expected stuck)
    (other : expected ≠ .shallowerNesting) (more : levels ≤ levels') :
    Sticks table part levels' tokens expected stuck := by
  induction h generalizing levels' with
  | tooDeep => exact absurd rfl other
  | noPrimary none =>
    obtain ⟨below, rfl⟩ := Nat.exists_eq_add_of_le' more
    exact .noPrimary none
  | inGroup opening _ ih =>
    obtain ⟨below, rfl⟩ := Nat.exists_eq_add_of_le' more
    exact .inGroup opening (ih other (Nat.le_add_left _ below))
  | openGroup opening inner unclosed =>
    obtain ⟨below, rfl⟩ := Nat.exists_eq_add_of_le' more
    exact .openGroup opening (inner.deeper (Nat.le_add_left _ below)) unclosed
  | inCall word opening begun _ ih =>
    obtain ⟨below, rfl⟩ := Nat.exists_eq_add_of_le' more
    exact .inCall word opening begun (ih other (Nat.le_add_left _ below))
  | nextOperand joins _ ih => exact .nextOperand joins (ih other more)
  | laterOperand joins operand _ ih => exact .laterOperand joins (operand.deeper more) (ih other more)
  | firstOperand _ ih => exact .firstOperand (ih other more)
  | inLinks first _ ih => exact .inLinks (first.deeper more) (ih other more)
  | noArgument => exact .noArgument
  | inArgument some _ ih => exact .inArgument some (ih other more)
  | openCall value unclosed last => exact .openCall (value.deeper more) unclosed last
  | laterArgument value separator _ ih => exact .laterArgument (value.deeper more) separator (ih other more)

theorem lt_max_cases {first later : Nat} (h : levels < max first later) :
    levels < first ∨ first ≤ levels ∧ levels < later := by
  omega

/-- A derivation that needs more levels than there are gets stuck on the way for the nesting. -/
theorem Derives.sticks (h : Reads table phrase depth tokens rest) (beyond : levels < depth) :
    ∃ stuck, Sticks table phrase.part levels tokens .shallowerNesting stuck ∧
      rest.length ≤ stuck.length := by
  have shallow {levels : Nat} {tokens : List Token} (beyond : levels < 1) :
      ∃ stuck, Sticks table .primary levels tokens .shallowerNesting stuck ∧
        tokens.length ≤ stuck.length := by
    obtain rfl : levels = 0 := by omega
    exact ⟨tokens, .tooDeep, Nat.le_refl _⟩
  induction h generalizing levels with
  | number _ | name _ _ | emptyCall _ _ _ =>
    obtain ⟨stuck, sticks, most⟩ := shallow beyond
    exact ⟨stuck, sticks, Nat.le_trans (by grind) most⟩
  | call word opening inner closing ih =>
    cases levels with
    | zero =>
      obtain ⟨stuck, sticks, most⟩ := shallow Nat.one_pos
      exact ⟨stuck, sticks, Nat.le_trans (Derives.call word opening inner closing).length_le most⟩
    | succ levels =>
      obtain ⟨stuck, sticks, most⟩ := ih (Nat.lt_of_succ_lt_succ beyond)
      exact ⟨stuck, .inCall word opening (inner.lacks_closing (by simp)) sticks, Nat.le_of_succ_le most⟩
  | group opening inner closing ih =>
    cases levels with
    | zero =>
      obtain ⟨stuck, sticks, most⟩ := shallow Nat.one_pos
      exact ⟨stuck, sticks, Nat.le_trans (Derives.group opening inner closing).length_le most⟩
    | succ levels =>
      obtain ⟨stuck, sticks, most⟩ := ih (Nat.lt_of_succ_lt_succ beyond)
      exact ⟨stuck, .inGroup opening sticks, Nat.le_of_succ_le most⟩
  | noLinks => exact absurd beyond (Nat.not_lt_zero _)
  | link operator operand more deepOperand deepMore =>
    have joins := joins_zero_iff.mpr operator
    rcases lt_max_cases beyond with first | ⟨first, later⟩
    · obtain ⟨stuck, sticks, most⟩ := deepOperand first
      exact ⟨stuck, .nextOperand joins sticks, Nat.le_trans more.length_le most⟩
    · obtain ⟨stuck, sticks, most⟩ := deepMore later
      exact ⟨stuck, .laterOperand joins ⟨trivial, _, first, operand⟩ sticks, most⟩
  | expression operand more deepOperand deepMore =>
    rcases lt_max_cases beyond with first | ⟨first, later⟩
    · obtain ⟨stuck, sticks, most⟩ := deepOperand first
      exact ⟨stuck, .firstOperand sticks, Nat.le_trans more.length_le most⟩
    · obtain ⟨stuck, sticks, most⟩ := deepMore later
      exact ⟨stuck, .inLinks ⟨trivial, _, first, operand⟩ sticks, most⟩
  | lastArgument value ih =>
    obtain ⟨stuck, sticks, most⟩ := ih beyond
    exact ⟨stuck, .inArgument (value.ne_nil (by simp)) sticks, most⟩
  | argument value separator more deepValue deepMore =>
    rcases lt_max_cases beyond with first | ⟨first, later⟩
    · obtain ⟨stuck, sticks, most⟩ := deepValue first
      exact ⟨stuck, .inArgument (value.ne_nil (by simp)) sticks,
        Nat.le_trans more.length_le (Nat.le_of_succ_le most)⟩
    · obtain ⟨stuck, sticks, most⟩ := deepMore later
      exact ⟨stuck, .laterArgument ⟨ends_comma separator, _, first, value⟩ separator sticks, most⟩

theorem Derives.tooDeep (h : Reads table (.expression e) depth tokens rest) (beyond : levels < depth) :
    ∃ left, (Grammar.expression table levels tokens).Fails .shallowerNesting left := by
  obtain ⟨stuck, sticks, -⟩ := h.sticks beyond
  exact ⟨stuck, fails_expression_iff.mpr sticks⟩

end Grammar
end Kaleidoscope
