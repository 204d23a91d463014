import Kaleidoscope.Proofs.Grammar.Unwinding

/-! What the limit of nesting decides. An attempt under a limit either ends as it would under any higher one,
or it is refused at the first place where a primary would have to stand one level deeper than is allowed. No
call leaves anything behind that counts towards the limit of the next. -/
namespace Kaleidoscope

namespace Grammar

/-- A phrase of this kind, its own primaries on level one, cannot be read from these tokens on without a
primary of the given level that starts at `start`. -/
inductive Demands (table : OperatorTable) : Part → Nat → List Token → List Token → Prop where
  | here {tokens : List Token} : Demands table .primary 1 tokens tokens
  | inGroup (opening : left.lexeme = .character '(') (inner : Demands table .expression level tokens start) :
      Demands table .primary (level + 1) (left :: tokens) start
  | inCall (word : token.lexeme = .identifier name) (opening : left.lexeme = .character '(')
      (begun : Lacks ')' tokens) (inner : Demands table .arguments level tokens start) :
      Demands table .primary (level + 1) (token :: left :: tokens) start
  | nextOperand (joins : Joins table 0 op) (operand : Demands table .primary level tokens start) :
      Demands table .links level (op :: tokens) start
  | laterOperand (joins : Joins table 0 op) (operand : Reads table (.primary e) depth tokens middle)
      (more : Demands table .links level middle start) : Demands table .links level (op :: tokens) start
  | firstOperand (first : Demands table .primary level tokens start) :
      Demands table .expression level tokens start
  | inLinks (first : Reads table (.primary e) depth tokens middle)
      (more : Demands table .links level middle start) : Demands table .expression level tokens start
  | inArgument (some : tokens ≠ []) (value : Demands table .expression level tokens start) :
      Demands table .arguments level tokens start
  | laterArgument (value : Reads table (.expression e) depth tokens (comma :: middle))
      (separator : comma.lexeme = .character ',') (more : Demands table .arguments level middle start) :
      Demands table .arguments level tokens start

inductive DemandsEntity (table : OperatorTable) : Nat → List Token → List Token → Prop where
  | inBody (keyword : token.lexeme = .defKeyword) (signature : Signature proto tokens middle)
      (body : Demands table .expression level middle start) : DemandsEntity table level (token :: tokens) start
  | inExpression (bare : IsBare tokens) (body : Demands table .expression level tokens start) :
      DemandsEntity table level tokens start

variable {table : OperatorTable} {phrase : Phrase} {part : Part} {entity : Entity} {depth depth' level levels : Nat}
  {tokens start rest stuck : List Token} {expected : Expectation}

theorem Demands.length_le (h : Demands table part level tokens start) : start.length ≤ tokens.length := by
  induction h with
  | here => exact Nat.le_refl _
  | inGroup _ _ ih | nextOperand _ _ ih => exact Nat.le_succ_of_le ih
  | inCall _ _ _ _ ih => exact Nat.le_succ_of_le (Nat.le_succ_of_le ih)
  | laterOperand _ operand _ ih => exact Nat.le_succ_of_le (Nat.le_trans ih operand.length_le)
  | firstOperand _ ih | inArgument _ _ ih => exact ih
  | inLinks first _ ih => exact Nat.le_trans ih first.length_le
  | laterArgument value _ _ ih => exact Nat.le_trans ih (Nat.le_of_succ_le value.length_le)

/-- Reading that gets stuck for the nesting does so where the next level is demanded. -/
theorem Sticks.demands (h : Sticks table part levels tokens expected stuck)
    (deep : expected = .shallowerNesting) : Demands table part (levels + 1) tokens stuck := by
  induction h with
  | tooDeep => exact .here
  | noPrimary _ | openGroup _ _ _ | noArgument | openCall _ _ _ => cases deep
  | inGroup opening _ ih => exact .inGroup opening (ih deep)
  | inCall word opening begun _ ih => exact .inCall word opening begun (ih deep)
  | nextOperand joins _ ih => exact .nextOperand joins (ih deep)
  | laterOperand joins operand _ ih =>
    obtain ⟨-, depth, -, operand⟩ := operand
    exact .laterOperand joins operand (ih deep)
  | firstOperand _ ih => exact .firstOperand (ih deep)
  | inLinks first _ ih =>
    obtain ⟨-, depth, -, first⟩ := first
    exact .inLinks first (ih deep)
  | inArgument some _ ih => exact .inArgument some (ih deep)
  | laterArgument value separator _ ih =>
    obtain ⟨-, depth, -, value⟩ := value
    exact .laterArgument value separator (ih deep)

theorem Derives.takes_or_sticks (h : Reads table phrase depth tokens rest) (ends : phrase.Ends table rest)
    (levels : Nat) : Takes table levels phrase tokens rest ∨
      ∃ stuck, Sticks table phrase.part levels tokens .shallowerNesting stuck ∧
        rest.length ≤ stuck.length := by
  by_cases within : depth ≤ levels
  · exact .inl ⟨ends, depth, within, h⟩
  · exact .inr (h.sticks (Nat.lt_of_not_le within))

/-- Where a level is demanded that there is not, reading has got stuck there or before. -/
theorem Demands.sticks (h : Demands table part level tokens start) (beyond : levels < level) :
    ∃ stuck, Sticks table part levels tokens .shallowerNesting stuck ∧ start.length ≤ stuck.length := by
  induction h generalizing levels with
  | here =>
    obtain rfl : levels = 0 := by omega
    exact ⟨_, .tooDeep, Nat.le_refl _⟩
  | inGroup opening inner ih =>
    cases levels with
    | zero => exact ⟨_, .tooDeep, Nat.le_succ_of_le inner.length_le⟩
    | succ levels =>
      obtain ⟨stuck, sticks, most⟩ := ih (Nat.lt_of_succ_lt_succ beyond)
      exact ⟨stuck, .inGroup opening sticks, most⟩
  | inCall word opening begun inner ih =>
    cases levels with
    | zero => exact ⟨_, .tooDeep, Nat.le_succ_of_le (Nat.le_succ_of_le inner.length_le)⟩
    | succ levels =>
      obtain ⟨stuck, sticks, most⟩ := ih (Nat.lt_of_succ_lt_succ beyond)
      exact ⟨stuck, .inCall word opening begun sticks, most⟩
  | nextOperand joins _ ih =>
    obtain ⟨stuck, sticks, most⟩ := ih beyond
    exact ⟨stuck, .nextOperand joins sticks, most⟩
  | laterOperand joins operand more ih =>
    rcases operand.takes_or_sticks trivial levels with takes | ⟨stuck, sticks, most⟩
    · obtain ⟨stuck, sticks, most⟩ := ih beyond
      exact ⟨stuck, .laterOperand joins takes sticks, most⟩
    · exact ⟨stuck, .nextOperand joins sticks, Nat.le_trans more.length_le most⟩
  | firstOperand _ ih =>
    obtain ⟨stuck, sticks, most⟩ := ih beyond
    exact ⟨stuck, .firstOperand sticks, most⟩
  | inLinks first more ih =>
    rcases first.takes_or_sticks trivial levels with takes | ⟨stuck, sticks, most⟩
    · obtain ⟨stuck, sticks, most⟩ := ih beyond
      exact ⟨stuck, .inLinks takes sticks, most⟩
    · exact ⟨stuck, .firstOperand sticks, Nat.le_trans more.length_le most⟩
  | inArgument some _ ih =>
    obtain ⟨stuck, sticks, most⟩ := ih beyond
    exact ⟨stuck, .inArgument some sticks, most⟩
  | laterArgument value separator more ih =>
    rcases value.takes_or_sticks (ends_comma separator) levels with takes | ⟨stuck, sticks, most⟩
    · obtain ⟨stuck, sticks, most⟩ := ih beyond
      exact ⟨stuck, .laterArgument takes separator sticks, most⟩
    · exact ⟨stuck, .inArgument (value.ne_nil (by simp)) sticks,
        Nat.le_trans more.length_le (Nat.le_of_succ_le most)⟩

theorem DemandsEntity.sticks (h : DemandsEntity table level tokens start) (beyond : levels < level) :
    ∃ stuck, SticksEntity table levels tokens .shallowerNesting stuck ∧ start.length ≤ stuck.length := by
  cases h with
  | inBody keyword signature body =>
    obtain ⟨stuck, sticks, most⟩ := body.sticks beyond
    exact ⟨stuck, .inBody keyword signature sticks, most⟩
  | inExpression bare body =>
    obtain ⟨stuck, sticks, most⟩ := body.sticks beyond
    exact ⟨stuck, .inExpression bare sticks, most⟩

theorem SticksEntity.unique {expected' : Expectation} {stuck' : List Token}
    (h : SticksEntity table levels tokens expected stuck)
    (h' : SticksEntity table levels tokens expected' stuck') : expected = expected' ∧ stuck = stuck' :=
  (fails_entity_iff.mpr h).unique (fails_entity_iff.mpr h')

theorem SticksEntity.demands (h : SticksEntity table levels tokens .shallowerNesting stuck) :
    DemandsEntity table (levels + 1) tokens stuck ∧
      ∀ start, DemandsEntity table (levels + 1) tokens start → start.length ≤ stuck.length := by
  constructor
  · cases h with
    | inSignature _ signature => cases signature
    | inBody keyword signature body => exact .inBody keyword signature (body.demands rfl)
    | inExpression bare body => exact .inExpression bare (body.demands rfl)
  · intro start demands
    obtain ⟨stuck', sticks, most⟩ := demands.sticks (Nat.lt_succ_self levels)
    obtain ⟨-, rfl⟩ := h.unique sticks
    exact most

theorem TakesEntity.deeper {levels' : Nat} (h : TakesEntity table levels entity tokens rest)
    (more : levels ≤ levels') : TakesEntity table levels' entity tokens rest := by
  obtain ⟨ends, depth, within, reads⟩ := h
  exact ⟨ends, depth, Nat.le_trans within more, reads⟩

theorem DerivesEntity.depth_unique (h : ReadsEntity table entity depth tokens rest)
    (h' : ReadsEntity table entity depth' tokens rest) (ends : EndsEntity table rest entity) :
    depth = depth' := by
  have least {depth depth' : Nat} (h : ReadsEntity table entity depth tokens rest)
      (h' : ReadsEntity table entity depth' tokens rest) : depth' ≤ depth := by
    apply Nat.le_of_not_lt
    intro beyond
    obtain ⟨stuck, sticks, -⟩ := h'.sticks beyond
    have yields := yields_entity_iff.mpr ⟨ends, depth, Nat.le_refl _, h⟩
    exact yields.not_fails (fails_entity_iff.mpr sticks)
  exact Nat.le_antisymm (least h' h) (least h h')

theorem Derives.depth_pos (h : Reads table phrase depth tokens rest)
    (some : ∀ found, phrase ≠ .links found) : 0 < depth := by
  induction h with
  | number _ | name _ _ | emptyCall _ _ _ => exact Nat.one_pos
  | call _ _ _ _ _ | group _ _ _ _ => exact Nat.succ_pos _
  | noLinks | link _ _ _ _ _ => exact absurd rfl (some _)
  | expression _ _ ih _ | argument _ _ _ ih _ => exact Nat.lt_of_lt_of_le (ih (by simp)) (Nat.le_max_left _ _)
  | lastArgument _ ih => exact ih (by simp)

theorem DerivesEntity.depth_pos {f : Function} (h : ReadsEntity table (.function f) depth tokens rest) :
    0 < depth := by
  cases h with
  | definition _ _ body | expression body => exact body.depth_pos (by simp)

theorem DerivesEntity.depth_declaration {proto : Prototype}
    (h : ReadsEntity table (.declaration proto) depth tokens rest) : depth = 0 := by
  cases h
  rfl

end Grammar

def Outcome.IsTooDeep : Outcome → Prop
  | .refused diagnostic => ∃ message found limit, diagnostic.problem = .nestingTooDeep message found limit
  | _ => False

namespace Parser

open Grammar

def limited (p : Parser) (nesting : Int) : Parser := { p with nesting := nesting }

variable {p q : Parser}

theorem nextEntity_congr (table : q.table = p.table) (nesting : q.nesting = p.nesting)
    (ahead : q.ahead = p.ahead) (final : q.sequence.final = p.sequence.final) :
    q.nextEntity.1 = p.nextEntity.1 ∧ q.nextEntity.2.ahead = p.nextEntity.2.ahead := by
  have levels : q.levels = p.levels := congrArg Int.toNat nesting
  rcases p.nextEntity_cases with ⟨nothing, attempt⟩ | ⟨token, rest, front, semicolon, attempt⟩ |
    ⟨entity, rest, yields, attempt⟩ | ⟨token, behind, expected, rest, p', front, other, fails, rfl, attempt⟩
  · rw [attempt, nextEntity_nil (ahead.trans nothing)]
    exact ⟨rfl, ahead⟩
  · rw [attempt, nextEntity_separator (ahead.trans front) semicolon]
    exact ⟨rfl, rfl⟩
  · rw [← table, ← levels, ← ahead] at yields
    have same : q.nextEntity = (.accepted entity, { q.look with ahead := rest }) :=
      nextEntity_eq_accepted_iff.mpr ⟨yields_entity_iff.mp yields, rfl⟩
    rw [attempt, same]
    exact ⟨rfl, rfl⟩
  · rw [← table, ← levels, ← ahead] at fails
    have same : q.nextEntity = (.refused _, { q.look with ahead := rest }) :=
      nextEntity_eq_refused_iff.mpr ⟨⟨token, behind, ahead.trans front, other⟩, expected,
        fails_entity_iff.mp fails, rfl, rfl⟩
    rw [attempt, same]
    simp [diagnose, current, look, nesting, final]

theorem diagnose_limited {expected : Expectation} (other : expected ≠ .shallowerNesting) (nesting : Int) :
    (p.limited nesting).diagnose expected = p.diagnose expected := by
  cases expected with
  | shallowerNesting => exact absurd rfl other
  | _ => rfl

theorem nextEntity_limited {nesting : Int} {outcome : Outcome} (more : p.nesting ≤ nesting)
    (attempt : p.nextEntity = (outcome, q)) (other : ¬ outcome.IsTooDeep) :
    (p.limited nesting).nextEntity = (outcome, q.limited nesting) := by
  have levels : p.levels ≤ (p.limited nesting).levels := Int.toNat_le_toNat more
  rcases p.nextEntity_cases with ⟨nothing, attempt'⟩ | ⟨token, rest, front, semicolon, attempt'⟩ |
    ⟨entity, rest, yields, attempt'⟩ | ⟨token, behind, expected, rest, q', front, bare, fails, reached, attempt'⟩
  all_goals
    rw [attempt'] at attempt
    cases attempt
  · exact nextEntity_nil nothing
  · exact nextEntity_separator front semicolon
  · have takes := (yields_entity_iff.mp yields).deeper levels
    exact nextEntity_eq_accepted_iff.mpr ⟨takes, rfl⟩
  · have elsewhere : expected ≠ .shallowerNesting := by
      rintro rfl
      exact other ⟨_, _, _, rfl⟩
    have sticks := (fails_entity_iff.mp fails).deeper elsewhere levels
    subst reached
    exact nextEntity_eq_refused_iff.mpr
      ⟨⟨token, behind, front, bare⟩, expected, sticks, rfl, (diagnose_limited elsewhere nesting).symm⟩

/-- Under any two limits an entity accepted under the higher one has one depth, and that decides whether it is
accepted under the lower one too; a declaration always is. -/
theorem accepted_limited_iff {limit : Int} {entity : Entity} (attempt : p.nextEntity = (.accepted entity, q)) :
    ∃ depth, ReadsEntity p.table entity depth p.ahead q.ahead ∧
      (∀ other, ReadsEntity p.table entity other p.ahead q.ahead → other = depth) ∧
      ((p.limited limit).nextEntity = (.accepted entity, q.limited limit) ↔
        depth ≤ limit ∨ ∃ proto, entity = .declaration proto) := by
  obtain ⟨⟨ends, depth, -, reads⟩, reached⟩ := nextEntity_eq_accepted_iff.mp attempt
  have unique {other : Nat} (reads' : ReadsEntity p.table entity other p.ahead q.ahead) : other = depth :=
    reads'.depth_unique reads ends
  have same : q.limited limit = { (p.limited limit).look with ahead := q.ahead } := by
    rw [reached]
    rfl
  refine ⟨depth, reads, fun other => unique, ?_⟩
  constructor
  · intro accepted
    obtain ⟨⟨-, other, within, reads'⟩, -⟩ := nextEntity_eq_accepted_iff.mp accepted
    obtain rfl := unique reads'
    have within : other ≤ limit.toNat := within
    cases entity with
    | declaration proto => exact .inr ⟨proto, rfl⟩
    | function f =>
      have positive := reads.depth_pos
      exact .inl (by omega)
  · intro h
    have within : depth ≤ limit.toNat := by
      rcases h with within | ⟨proto, rfl⟩
      · omega
      · rw [reads.depth_declaration]
        exact Nat.zero_le _
    exact nextEntity_eq_accepted_iff.mpr ⟨⟨ends, depth, within, reads⟩, same⟩

/-- A refusal for the nesting names the limit, and it comes at the first place where a primary would have to
stand one level deeper. -/
theorem refused_for_nesting {outcome : Outcome} (attempt : p.nextEntity = (outcome, q))
    (deep : outcome.IsTooDeep) :
    outcome = .refused ⟨.nestingTooDeep "expression nested too deeply" q.current.description p.nesting,
        some q.current.location, q.current.sourceLine?⟩ ∧
      DemandsEntity p.table (p.levels + 1) p.ahead q.ahead ∧
      ∀ start, DemandsEntity p.table (p.levels + 1) p.ahead start → start.length ≤ q.ahead.length := by
  cases outcome with
  | refused diagnostic =>
    obtain ⟨-, expected, sticks, reached, rfl⟩ := nextEntity_eq_refused_iff.mp attempt
    obtain rfl : expected = .shallowerNesting := by
      obtain ⟨message, found, limit, problem⟩ := deep
      cases expected <;> simp [diagnose, Expectation.problem] at problem ⊢
    have nesting : q.nesting = p.nesting := by rw [reached, look]
    exact ⟨by simp [diagnose, Expectation.problem, nesting], sticks.demands⟩
  | _ => exact deep.elim

/-- The limit of nesting is exact, and beside it nothing shows it. An outcome other than a refusal for the
nesting is the outcome under any higher limit too. An entity accepted there is accepted here if the limit
allows for its depth, as it does for every declaration. Else the refusal is for the nesting, at the first place
where a primary would have to stand one level deeper. A descent that counts the primaries it is in makes every
attempt and every other call in this way, as long as its stack suffices. Whatever it was called for before, also where
the stack did not suffice, the counter is at zero again, and the next attempt ends as that of a new one. -/
theorem nesting_limit_exact (p : Parser) {limit higher : Int} (le : limit ≤ higher) :
    let shallow := p.limited limit
    let deep := p.limited higher
    (∀ outcome q, shallow.nextEntity = (outcome, q) → ¬ outcome.IsTooDeep →
      deep.nextEntity = (outcome, q.limited higher)) ∧
    (∀ entity q, deep.nextEntity = (.accepted entity, q) →
      ∃ depth, ReadsEntity p.table entity depth p.ahead q.ahead ∧
        (∀ other, ReadsEntity p.table entity other p.ahead q.ahead → other = depth) ∧
        (shallow.nextEntity = (.accepted entity, q.limited limit) ↔
          depth ≤ limit ∨ ∃ proto, entity = .declaration proto)) ∧
    (∀ outcome q, shallow.nextEntity = (outcome, q) → outcome.IsTooDeep ∨ outcome ≠ deep.nextEntity.1 →
      outcome = .refused ⟨.nestingTooDeep "expression nested too deeply" q.current.description limit,
        some q.current.location, q.current.sourceLine?⟩ ∧
      DemandsEntity p.table (limit.toNat + 1) p.ahead q.ahead ∧
      ∀ start, DemandsEntity p.table (limit.toNat + 1) p.ahead start → start.length ≤ q.ahead.length) ∧
    (∀ q : Parser, Descent.Ends (Descent.nextEntity · (.ofParser q)) (q.nextEntity.1, .ofParser q.nextEntity.2)) ∧
    (∀ calls : List Call, Descent.Ends (fun frames => calls.foldl (Descent.perform frames) (.ofParser shallow))
      (.ofParser (calls.foldl after shallow))) ∧
    ∀ (frames : Nat) (calls : List Call),
      let d := calls.foldl (Descent.perform frames) (.ofParser shallow)
      let fresh := ofTokens p.table limit ⟨d.parser.ahead, p.sequence.final⟩
      d.depth = 0 ∧ ∃ outcome q q', Descent.Ends (Descent.nextEntity · d) (outcome, .ofParser q) ∧
        Descent.Ends (Descent.nextEntity · (.ofParser fresh)) (outcome, .ofParser q') ∧ q.ahead = q'.ahead := by
  intro shallow deep
  refine ⟨?_, ?_, ?_, Descent.nextEntity_ends, Descent.performs_eq shallow, ?_⟩
  · intro outcome q attempt other
    exact nextEntity_limited (p := shallow) le attempt other
  · intro entity q attempt
    exact accepted_limited_iff (p := deep) attempt
  · intro outcome q attempt differs
    apply refused_for_nesting attempt
    apply Classical.byContradiction
    intro other
    rcases differs with tooDeep | differs
    · exact other tooDeep
    · have same : deep.nextEntity = (outcome, q.limited higher) :=
        nextEntity_limited (p := shallow) le attempt other
      exact differs (by rw [same])
  · intro frames calls d fresh
    obtain ⟨depth, table, nesting, sequence⟩ := Descent.elsewhere_performs frames (.ofParser shallow) calls
    have final : d.parser.sequence.final = p.sequence.final := congrArg TokenSequence.final sequence
    obtain ⟨outcome, ahead⟩ := nextEntity_congr (p := fresh) (q := d.parser) table nesting rfl final
    have outside : d = .ofParser d.parser := congrArg (Descent.mk d.parser) depth
    refine ⟨depth, fresh.nextEntity.1, d.parser.nextEntity.2, fresh.nextEntity.2, ?_, Descent.nextEntity_ends fresh, ahead⟩
    rw [outside, ← outcome]
    exact Descent.nextEntity_ends d.parser

/-- A body of depth three: accepted at that limit, and one below refused at the group in the call. -/
theorem nesting_limit_exact_call :
    let p := ofText .standard 8 "nest" "def f(x) x * g(1, (x))"
    (2 : Int) ≤ 3 ∧
    (∃ entity q, (p.limited 3).nextEntity = (.accepted entity, q) ∧
      ∃ depth, ReadsEntity p.table entity depth p.ahead q.ahead ∧
        ((p.limited 2).nextEntity = (.accepted entity, q.limited 2) ↔
          (depth : Int) ≤ 2 ∨ ∃ proto, entity = .declaration proto)) ∧
    (∃ diagnostic q, (p.limited 2).nextEntity = (.refused diagnostic, q) ∧
      (Outcome.refused diagnostic).IsTooDeep ∧ diagnostic.location? = some ⟨"nest", 1, 20⟩ ∧
      DemandsEntity p.table 3 p.ahead q.ahead) := by
  intro p
  have le : (2 : Int) ≤ 3 := by decide
  obtain ⟨-, accepting, refusing, -, -⟩ := p.nesting_limit_exact le
  let place (column : Int) : Option Location := some ⟨"nest", 1, column⟩
  let call : Expr := .call "g" [.number ⟨0x3FF0000000000000⟩ (place 16), .var "x" (place 20)] (place 14)
  let entity : Entity := .function ⟨⟨"f", ["x"], place 5⟩, .binary "*" (.var "x" (place 10)) call (place 12), place 1⟩
  let diagnostic : Diagnostic :=
    ⟨.nestingTooDeep "expression nested too deeply" "identifier 'x'" 2, place 20, some "def f(x) x * g(1, (x)"⟩
  have accepted : (p.limited 3).nextEntity = (.accepted entity, (p.limited 3).nextEntity.2) :=
    Prod.ext (by decide +kernel) rfl
  have refused : (p.limited 2).nextEntity = (.refused diagnostic, (p.limited 2).nextEntity.2) :=
    Prod.ext (by decide +kernel) rfl
  have tooDeep : (Outcome.refused diagnostic).IsTooDeep := ⟨_, _, _, rfl⟩
  obtain ⟨depth, reads, -, decides⟩ := accepting _ _ accepted
  obtain ⟨-, demands, -⟩ := refusing _ _ refused (.inl tooDeep)
  exact ⟨le, ⟨entity, _, accepted, depth, reads, decides⟩, diagnostic, _, refused, tooDeep, rfl, demands⟩

end Parser
end Kaleidoscope
