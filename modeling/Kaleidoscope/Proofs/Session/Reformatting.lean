import Kaleidoscope.Proofs.Session.Calls
import Kaleidoscope.Proofs.Session.Readable
import Kaleidoscope.Proofs.Tree.LongChain
import Kaleidoscope.Proofs.Tree.RoundTrip

/-! A program that was read without an error has a canonical text unless one of its numbers is too large to
be finite. The text is read without an error as well, and as the same program, as long as no body is higher
than the nesting that is allowed; the parentheses of the canonical text nest as deep as the tree is high,
which those of the text it was read from need not have done. -/
namespace Kaleidoscope

open Grammar

def finite : Vocabulary where
  literal x := x.isFinite = true
  name _ := True
  operator _ := True

variable {table : OperatorTable} {options : Options} {file text : String} {entity : Entity}
  {entities : List Entity}

theorem Expr.spellable_iff_finite {e : Expr} (h : e.Within (readable table)) :
    e.Within Expr.spellable ↔ e.Within finite := by
  constructor
  · intro spellable
    exact spellable.both spellable
      ⟨fun _ literal _ => literal.2, fun _ _ _ => trivial, fun _ _ _ => trivial⟩
  · intro small
    exact h.both small
      ⟨fun _ sign finite => ⟨sign.1, finite⟩, fun _ _ _ => trivial, fun _ _ _ => trivial⟩

theorem Entity.readable_body {body : Expr} (h : entity.Within (readable table))
    (inside : body ∈ entity.body?) : body.Within (readable table) := by
  cases entity with
  | declaration p => cases inside
  | function f =>
    cases inside
    exact h.2

theorem Entity.Within.canonical (h : entity.Within (readable table))
    (small : ∀ body ∈ entity.body?, body.Within finite) : entity.Within (canonical table) := by
  cases entity with
  | declaration p => exact h
  | function f =>
    exact ⟨h.1, h.2.both (small f.body rfl)
      ⟨fun _ sign finite => ⟨sign.1, finite⟩, fun _ name _ => name, fun _ operator _ => operator⟩⟩

theorem spelling_congr {others : List Entity} (same : others.map Entity.bare = entities.map Entity.bare) :
    programSpelling others = programSpelling entities := by
  have bare (entities : List Entity) :
      (entities.map Entity.bare).mapM Entity.spelling = entities.mapM Entity.spelling := by
    rw [List.mapM_map]
    exact congrArg (entities.mapM ·) (funext Entity.spelling_bare)
  rw [programSpelling, programSpelling, ← bare, same, bare]

/-- A program as it is read from its canonical text: each entity and the semicolon behind it. -/
theorem accepting_eq (read : List Entity) : ∃ items : List (Option Entity),
    Parser.accepting read = items.map .ofItem ∧ items.filterMap id = read := by
  induction read with
  | nil => exact ⟨[], rfl, rfl⟩
  | cons entity read ih =>
    obtain ⟨items, outcomes, same⟩ := ih
    refine ⟨some entity :: none :: items, ?_, congrArg (entity :: ·) same⟩
    rw [Parser.accepting, List.flatMap_cons, ← Parser.accepting, outcomes]
    rfl

theorem isOk_programSpelling (file : String)
    (within : ∀ entity ∈ entities, entity.Within (canonical options.table))
    (passes : Passes options.checkCalls .none entities)
    (shallow : ∀ entity ∈ entities, ∀ body ∈ entity.body?, body.height ≤ standardNesting)
    (spelt : programSpelling entities = .ok text) :
    (parseProgram options file text).isOk = true ∧
      (parseProgram options file text).entities.map Entity.bare = entities.map Entity.bare := by
  obtain ⟨same, -⟩ := (fallsInto_programSpelling within spelt).tokens file
  have bound : ∀ entity ∈ entities, entity.height ≤ standardNesting.toNat := by
    intro entity member
    apply Entity.height_le_iff.mpr
    intro body inside
    have := shallow entity member body inside
    omega
  obtain ⟨read, bares, outcomes⟩ := Parser.outcomes_of_lexemes
    (p := Parser.ofText options.table standardNesting file text) within bound same
  obtain ⟨items, accepting, accepted⟩ := accepting_eq read
  rw [accepting] at outcomes
  obtain ⟨ok, entities⟩ := parseProgram_isOk_iff.mpr
    ⟨items, outcomes, accepted.symm ▸ passes.congr bares, accepted⟩
  exact ⟨ok, entities ▸ bares⟩

theorem not_isOk_programSpelling (file : String)
    (within : ∀ entity ∈ entities, entity.Within (canonical options.table))
    (deep : ∃ entity ∈ entities, ∃ body ∈ entity.body?, standardNesting < body.height)
    (spelt : programSpelling entities = .ok text) : (parseProgram options file text).isOk = false := by
  obtain ⟨same, -⟩ := (fallsInto_programSpelling within spelt).tokens file
  have beyond : ∃ entity ∈ entities, standardNesting.toNat < entity.height := by
    obtain ⟨entity, member, body, inside, high⟩ := deep
    refine ⟨entity, member, ?_⟩
    apply Nat.lt_of_not_le
    intro low
    have fits := Entity.height_le_iff.mp low body inside
    exact absurd high (Int.not_lt.mpr (Int.ofNat_le.mpr fits))
  obtain ⟨diagnostic, refused⟩ := Parser.refused_of_lexemes
    (p := Parser.ofText options.table standardNesting file text) within beyond same
  apply Bool.eq_false_iff.mpr
  intro ok
  obtain ⟨items, outcomes, -⟩ := parseProgram_isOk_iff.mp ⟨ok, rfl⟩
  rw [outcomes] at refused
  exact Outcome.refused_not_mem diagnostic items refused

theorem passes_anonymous (checkCalls : Bool) {e : Expr} (calls : e.calls = []) :
    Passes checkCalls .none [.function (.anonymous e)] := by
  have check : KnownFunctions.none.check (.function (.anonymous e)) = .ok .none := by
    simp [KnownFunctions.check, Function.anonymous, calls, KnownFunctions.firstFault?,
      KnownFunctions.declare, Prototype.isAnonymous]
  intro _
  exact KnownFunctions.admits_cons_iff.mpr ⟨_, check, KnownFunctions.admits_nil _⟩

theorem isOk_of_expression {e : Expr} {depth : Nat}
    (reads : Reads options.table (.expression e) depth (tokenize file text).tokens [])
    (shallow : depth ≤ standardNesting.toNat) (calls : e.calls = []) :
    (parseProgram options file text).isOk = true ∧
      (parseProgram options file text).entities = [.function (.anonymous e)] := by
  have outcomes : (Parser.ofText options.table standardNesting file text).outcomes =
      [.accepted (.function (.anonymous e)), .finished] :=
    (Parser.outcomes_of_entity (.expression reads) shallow (by simp)).trans
      (congrArg (_ :: ·) (Parser.outcomes_finished rfl))
  exact parseProgram_isOk_iff.mpr
    ⟨[some (.function (.anonymous e))], outcomes, passes_anonymous options.checkCalls calls, rfl⟩

/-- A numeral is a program, and it has a canonical text unless its value is too large. -/
theorem numeral_spelling_iff (options : Options) (file : String) {text : String} {x : Double}
    (spells : Literal.Spells text.toList x) :
    let report := parseProgram options file text
    report.isOk = true ∧
      ((∃ formatted, programSpelling report.entities = .ok formatted) ↔ x.isFinite = true) := by
  intro report
  obtain ⟨same, -⟩ := (FallsInto.numeral spells).tokens file
  obtain ⟨token, single, literal⟩ := List.map_eq_singleton_iff.mp same
  have reads : Reads options.table (.primary (.number x (some token.location))) 1 [token] [] :=
    .number literal
  obtain ⟨ok, entities⟩ := isOk_of_expression (single ▸ reads.alone) (by decide) (by rw [Expr.calls])
  have readable := readable_parseProgram options file text
  rw [entities] at readable
  have within := Entity.readable_body (readable _ (List.mem_singleton_self _)) rfl
  have spellable : (Expr.number x (some token.location)).Within Expr.spellable ↔ x.isFinite = true :=
    Expr.spellable_iff_finite within
  refine ⟨ok, ?_⟩
  rw [exists_programSpelling_iff, entities]
  simpa using spellable

/-- A chain of one operator is read whatever its length, and so it has a canonical text, but this text is
read again only if its parentheses do not nest too deeply. -/
theorem chainText_reads_back_iff (options : Options) (file : String) {name : String} {op : Char}
    (word : IsName name) (operator : 0 < options.table.precedence (.character op)) (operators : Nat) :
    let report := parseProgram options file (chainText name op operators)
    report.isOk = true ∧
      (∃ body, report.entities = [.function (.anonymous body)] ∧ body.height = operators + 1) ∧
      ∃ formatted, programSpelling report.entities = .ok formatted ∧ ∀ file',
        ((parseProgram options file' formatted).isOk = true ↔ operators < standardNesting) := by
  obtain ⟨e, depth, reads, shallow, height, calls, within⟩ := reads_chainText word operator operators file
  obtain ⟨ok, entities⟩ := isOk_of_expression reads (Nat.le_trans shallow (by decide)) calls
  have canonical : ∀ entity ∈ [Entity.function (.anonymous e)], entity.Within (canonical options.table) := by
    simpa using within
  obtain ⟨formatted, spelt⟩ := exists_programSpelling_iff.mpr
    fun entity member => (canonical entity member).spellable
  refine ⟨ok, ⟨e, entities, height⟩, formatted, entities.symm ▸ spelt, ?_⟩
  intro file'
  by_cases low : (operators : Int) < standardNesting
  · have bound : (e.height : Int) ≤ standardNesting := by omega
    have again := isOk_programSpelling file' canonical (passes_anonymous _ calls)
      (by simpa using bound) spelt
    simp [low, again.1]
  · have deep : standardNesting < (e.height : Int) := by omega
    have refused := not_isOk_programSpelling file' canonical
      ⟨_, List.mem_singleton_self _, e, rfl, deep⟩ spelt
    simp [low, refused]

/-- A program that was read without an error has a canonical text just when its literals are finite. If no
body is too high, this text is read without an error as the same program, and its own canonical text is the
same again. -/
theorem canonical_text_reads_back (options : Options) (file file' text : String)
    (ok : (parseProgram options file text).isOk = true) :
    let entities := (parseProgram options file text).entities
    ((∃ formatted, programSpelling entities = .ok formatted) ↔
      ∀ entity ∈ entities, ∀ body ∈ entity.body?, body.Within finite) ∧
    ∀ formatted, programSpelling entities = .ok formatted →
      (∀ entity ∈ entities, ∀ body ∈ entity.body?, body.height ≤ standardNesting) →
        (parseProgram options file' formatted).isOk = true ∧
          (parseProgram options file' formatted).entities.map Entity.bare = entities.map Entity.bare ∧
            programSpelling (parseProgram options file' formatted).entities = .ok formatted := by
  intro entities
  have readable := readable_parseProgram options file text
  have spellable_iff : (∃ formatted, programSpelling entities = .ok formatted) ↔
      ∀ entity ∈ entities, ∀ body ∈ entity.body?, body.Within finite := by
    rw [exists_programSpelling_iff]
    constructor
    · intro spellable entity member body inside
      exact (Expr.spellable_iff_finite (Entity.readable_body (readable entity member) inside)).mp
        (spellable entity member body inside)
    · intro small entity member body inside
      exact (Expr.spellable_iff_finite (Entity.readable_body (readable entity member) inside)).mpr
        (small entity member body inside)
  refine ⟨spellable_iff, ?_⟩
  intro formatted spelt shallow
  have small := spellable_iff.mp ⟨formatted, spelt⟩
  have within : ∀ entity ∈ entities, entity.Within (canonical options.table) := fun entity member =>
    (readable entity member).canonical (small entity member)
  obtain ⟨items, -, passes, same⟩ := parseProgram_isOk_iff.mp ⟨ok, rfl⟩
  rw [same] at passes
  obtain ⟨again, bares⟩ := isOk_programSpelling file' within passes shallow spelt
  exact ⟨again, bares, (spelling_congr bares).trans spelt⟩

/-- The sum of three names, of which the canonical text is read back. -/
theorem canonical_text_reads_back_sum :
    let report := parseProgram .standard "sum" (chainText "x" '+' 2)
    report.isOk = true ∧ ∃ formatted, programSpelling report.entities = .ok formatted ∧
      (parseProgram .standard "again" formatted).isOk = true ∧
        (parseProgram .standard "again" formatted).entities.map Entity.bare = report.entities.map Entity.bare := by
  intro report
  have x : IsName "x" := .ofLetter (c := 'x') (by simp) rfl
  have plus : 0 < Options.standard.table.precedence (.character '+') := by decide
  obtain ⟨ok, ⟨body, entities, height⟩, formatted, spelt, -⟩ :=
    chainText_reads_back_iff .standard "sum" x plus 2
  have shallow : (body.height : Int) ≤ standardNesting := by
    rw [height]
    decide
  obtain ⟨-, again⟩ := canonical_text_reads_back .standard "sum" "again" (chainText "x" '+' 2) ok
  obtain ⟨reads, same, -⟩ := again formatted spelt
    (by simpa [entities] using shallow)
  exact ⟨ok, formatted, spelt, reads, same⟩

/-- Two programs that are read without an error: one has no canonical text, as its literal is too large, and
the canonical text of the other nests too deeply to be read. -/
theorem canonical_text_not_read_back :
    let large := parseProgram .standard "large" (toString (twoTo 1024))
    let long := parseProgram .standard "long" (chainText "x" '+' 128)
    (large.isOk = true ∧ ∀ formatted, programSpelling large.entities ≠ .ok formatted) ∧
      long.isOk = true ∧ ∃ formatted, programSpelling long.entities = .ok formatted ∧
        ∀ file, (parseProgram .standard file formatted).isOk = false := by
  intro large long
  have x : IsName "x" := .ofLetter (c := 'x') (by simp) rfl
  have plus : 0 < Options.standard.table.precedence (.character '+') := by decide
  constructor
  · obtain ⟨ok, spelt⟩ := numeral_spelling_iff .standard "large" (Literal.spells_natural (twoTo 1024))
    have infinite : ¬ (Double.nearest (twoTo 1024) 1).isFinite = true := by decide +kernel
    exact ⟨ok, fun formatted same => infinite (spelt.mp ⟨formatted, same⟩)⟩
  · obtain ⟨ok, -, formatted, spelt, again⟩ := chainText_reads_back_iff .standard "long" x plus 128
    refine ⟨ok, formatted, spelt, ?_⟩
    intro file
    apply Bool.eq_false_iff.mpr
    intro reads
    exact absurd ((again file).mp reads) (by decide)

end Kaleidoscope
