import Kaleidoscope.Proofs.Grammar.Position
import Kaleidoscope.Proofs.Token.Placement

/-! What a diagnostic of the grammar shows of the text. It quotes the line of the current token as far as this has been
read, and the caret in its message stands below the first character of the token. -/
namespace Kaleidoscope

theorem rdropWhile_append_cons {p : Char → Bool} {c : Char} (kept : p c = false) (front back : List Char) :
    (front ++ c :: back).rdropWhile p = front ++ c :: back.rdropWhile p := by
  induction back using List.reverseRecOn with
  | nil => exact List.rdropWhile_concat_neg p front c (Bool.eq_false_iff.mp kept)
  | append_singleton back x ih =>
    rw [← List.cons_append, ← List.append_assoc, List.rdropWhile_concat, List.rdropWhile_concat, ih]
    split <;> simp

namespace Token.StandsIn

variable {file : String} {text before chars behind : List Char} {token : Token}

theorem line_eq (stands : token.StandsIn file text before chars behind) :
    token.location.line = (1 + before.count '\n' : Nat) := by
  rw [stands.location_eq]
  rfl

theorem column_eq (stands : token.StandsIn file text before chars behind) :
    token.location.column = (1 + (lineStart before).length : Nat) := by
  rw [stands.location_eq, length_lineStart]
  rfl

theorem length_lineStart_eq (stands : token.StandsIn file text before chars behind) :
    (lineStart before).length = (token.location.column - 1).toNat := by
  rw [stands.column_eq]
  omega

/-- The line from its start up to the character behind the token, if that is on the line too. -/
def readOfLine (before chars behind : List Char) : List Char :=
  lineStart before ++ chars ++ (behind.takeWhile (· ≠ '\n')).take 1

theorem not_mem_chars (stands : token.StandsIn file text before chars behind) : '\n' ∉ chars := by
  intro feed
  cases stands.not_isLayout_of_mem '\n' feed

theorem sourceLine?_eq (stands : token.StandsIn file text before chars behind)
    (window : token.window = ((before ++ chars).foldl Window.read .start).peek behind) :
    token.sourceLine? = some (String.ofList ((readOfLine before chars behind).rdropWhile (· == '\r'))) := by
  have one := stands.not_mem_chars
  have quoted := Window.line?_peek (before ++ chars) behind
  rw [lineStart_append one, List.count_append, List.count_eq_zero.mpr one, Nat.add_zero] at quoted
  rw [Token.sourceLine?, window, stands.line_eq, quoted, readOfLine]

/-- It is a part of the line of the text with the number that the location has. -/
theorem exists_line (stands : token.StandsIn file text before chars behind) :
    ∃ line, (text.splitOn '\n')[(token.location.line - 1).toNat]? = some line ∧
      line.take ((token.location.column - 1).toNat + chars.length + 1) = readOfLine before chars behind := by
  have number : (token.location.line - 1).toNat = before.count '\n' := by
    rw [stands.line_eq]
    omega
  have all : ∀ c ∈ chars, decide (c ≠ '\n') = true := by
    intro c member
    rw [decide_eq_true_eq]
    rintro rfl
    exact stands.not_mem_chars member
  have whole := getElem?_splitOn before (chars ++ behind)
  rw [← List.append_assoc, ← stands.text_eq, List.takeWhile_append_of_pos all, ← List.append_assoc] at whole
  refine ⟨_, number ▸ whole, ?_⟩
  rw [← stands.length_lineStart_eq, ← List.length_append, List.take_length_add_append, readOfLine]

theorem not_mem_readOfLine (stands : token.StandsIn file text before chars behind) :
    '\n' ∉ readOfLine before chars behind := by
  intro feed
  rcases List.mem_append.mp feed with inside | next
  · rcases List.mem_append.mp inside with start | own
    · exact (lineStart_cases before).1 start
    · exact stands.not_mem_chars own
  · simpa using List.mem_takeWhile_imp (List.mem_of_mem_take next)

theorem getElem?_quoted (stands : token.StandsIn file text before chars behind) {c : Char} (first : c ∈ chars.head?) :
    ((readOfLine before chars behind).rdropWhile (· == '\r'))[(token.location.column - 1).toNat]? = some c := by
  obtain ⟨body, rfl⟩ := List.head?_eq_some_iff.mp first
  have kept : (c == '\r') = false := by
    have blank := stands.not_isLayout_of_mem c List.mem_cons_self
    by_contra feed
    rw [beq_iff_eq.mp (Bool.eq_true_of_not_eq_false feed)] at blank
    cases blank
  rw [← stands.length_lineStart_eq, readOfLine, List.append_assoc, List.cons_append, rdropWhile_append_cons (p := (· == '\r')) kept]
  simp

end Token.StandsIn

namespace Diagnostic

/-- The diagnostic points at the token, which stands in the text behind the characters `before`, consists of `chars` and
has `behind` behind it. -/
structure PointsAt (file : String) (text : List Char) (token : Token) (before chars behind : List Char)
    (d : Diagnostic) : Prop where
  stands : token.StandsIn file text before chars behind
  ending : chars = [] ↔ token.lexeme = .endOfInput
  location : d.location? = some token.location
  /-- The line is quoted up to the character behind the token, without carriage returns at its end. -/
  quotes : ∃ line, (text.splitOn '\n')[(token.location.line - 1).toNat]? = some line ∧
    d.sourceLine? = some (String.ofList
      ((line.take ((token.location.column - 1).toNat + chars.length + 1)).rdropWhile (· == '\r')))
  /-- The column is that of the first character of the token. -/
  first : ∀ quoted ∈ d.sourceLine?, ∀ c ∈ chars.head?, quoted.toList[(token.location.column - 1).toNat]? = some c
  /-- In the message, the caret of the third line is below this character in the second. -/
  caret : '\n' ∉ file.toList → ∃ headline shown more, d.text.toList.splitOn '\n' = headline :: shown ::
      (List.replicate (4 + (token.location.column - 1).toNat) ' ' ++ ['^']) :: more ∧
    ∀ c ∈ chars.head?, shown[4 + (token.location.column - 1).toNat]? = some c

variable {d : Diagnostic} {loc : Location} {line : String}

/-- The headline, the line that is quoted and the caret are the first three lines of the message. -/
theorem splitOn_text (location : d.location? = some loc) (quoted : d.sourceLine? = some line)
    (positive : 0 < loc.column) (head : '\n' ∉ d.headline.toList) (one : '\n' ∉ line.toList) :
    ∃ more, d.text.toList.splitOn '\n' = d.headline.toList :: (List.replicate 4 ' ' ++ line.toList) ::
      (List.replicate (4 + (loc.column - 1).toNat) ' ' ++ ['^']) :: more := by
  have columns : (indentation + loc.column - 1).toNat = 4 + (loc.column - 1).toNat := by
    simp only [indentation]
    omega
  have excerpt : d.excerpt = [spaces indentation ++ line, spaces (indentation + loc.column - 1) ++ "^"] := by
    simp [Diagnostic.excerpt, location, quoted, positive]
  have shown : (spaces indentation ++ line).toList = List.replicate 4 ' ' ++ line.toList := by
    simp [spaces, indentation]
  have caret : (spaces (indentation + loc.column - 1) ++ "^").toList =
      List.replicate (4 + (loc.column - 1).toNat) ' ' ++ ['^'] := by
    simp [spaces, columns]
  have one' : '\n' ∉ List.replicate 4 ' ' ++ line.toList := by simp [one]
  have one'' : '\n' ∉ List.replicate (4 + (loc.column - 1).toNat) ' ' ++ ['^'] := by simp
  have rest : ∃ more, ("\n".intercalate ((spaces (indentation + loc.column - 1) ++ "^") :: d.advice)).toList.splitOn '\n' =
      (List.replicate (4 + (loc.column - 1).toNat) ' ' ++ ['^']) :: more := by
    cases d.advice with
    | nil =>
      rw [String.intercalate_singleton, caret]
      exact ⟨[], List.splitOn_eq_singleton one''⟩
    | cons hint hints =>
      rw [String.intercalate_cons_cons, String.toList_append, String.toList_append, caret]
      exact ⟨_, by simpa using List.splitOn_append_cons_self_of_not_mem one'' _⟩
  obtain ⟨more, rest⟩ := rest
  have layout : d.text.toList = d.headline.toList ++ '\n' :: ((List.replicate 4 ' ' ++ line.toList) ++ '\n' ::
      ("\n".intercalate ((spaces (indentation + loc.column - 1) ++ "^") :: d.advice)).toList) := by
    rw [← shown, text, excerpt, List.cons_append, List.singleton_append, String.intercalate_cons_cons,
      String.intercalate_cons_cons, String.toList_append, String.toList_append, String.toList_append,
      String.toList_append, List.append_assoc, List.append_assoc]
    rfl
  rw [layout, List.splitOn_append_cons_self_of_not_mem head, List.splitOn_append_cons_self_of_not_mem one', rest]
  exact ⟨more, rfl⟩

end Diagnostic

theorem Expectation.not_mem_message (expected : Expectation) (found : String) (limit : Int) :
    '\n' ∉ (expected.problem found limit).message.toList := by
  have same : (expected.problem found limit).message = (expected.problem "" 0).message := by
    cases expected <;> rfl
  rw [same]
  cases expected <;> decide

theorem Location.not_mem_text {loc : Location} (file : '\n' ∉ loc.file.toList) {line column : Nat}
    (at_line : loc.line = line) (at_column : loc.column = column) : '\n' ∉ loc.text.toList := by
  have natural (n : Nat) : '\n' ∉ (n : Int).repr.toList := by
    intro feed
    have digits : (n : Int).repr.toList = Nat.toDigits 10 n := by
      rw [show (n : Int).repr = n.repr from rfl]
      simp
    rw [digits] at feed
    cases Nat.isDigit_of_mem_toDigits (by decide) (Nat.le_refl 10) feed
  rw [text, at_line, at_column]
  simp [file, natural]

namespace Parser

variable {p q : Parser} {file text : String}

theorem current_mem_all (table : OperatorTable) (nesting : Int) (file text : String) (calls : List Call) :
    (calls.foldl after (ofText table nesting file text)).current ∈ (tokenize file text).all := by
  obtain ⟨-, -, sequence⟩ := (ofText table nesting file text).elsewhere_calls calls
  have suffix := (ofText table nesting file text).ahead_calls_suffix calls
  have member := (calls.foldl after (ofText table nesting file text)).current_mem
  rw [sequence] at member
  rcases List.mem_cons.mp member with final | inside
  · exact List.mem_append_right _ (List.mem_singleton.mpr final)
  · exact List.mem_append_left _ (suffix.subset inside)

theorem pointsAt_diagnose (member : q.current ∈ (tokenize file text).all) (expected : Expectation) :
    ∃ before chars behind, (q.diagnose expected).PointsAt file text.toList q.current before chars behind := by
  obtain ⟨before, chars, behind, stands, window⟩ := exists_standsIn file member
  have quoted := stands.sourceLine?_eq window
  have sourceLine : (q.diagnose expected).sourceLine? = _ := quoted
  have location : (q.diagnose expected).location? = some q.current.location := rfl
  obtain ⟨line, whole, part⟩ := stands.exists_line
  have columnPositive : 0 < q.current.location.column := by
    rw [stands.column_eq]
    omega
  refine ⟨before, chars, behind, stands, stands.chars_eq_nil_iff, location, ⟨line, whole, ?_⟩, ?_, ?_⟩
  · rw [part]
    exact quoted
  · intro shown same c first
    obtain rfl := Option.some.inj (sourceLine.symm.trans same)
    rw [String.toList_ofList]
    exact stands.getElem?_quoted first
  · intro oneLine
    have place : '\n' ∉ q.current.location.text.toList := by
      refine Location.not_mem_text ?_ stands.line_eq stands.column_eq
      rw [stands.location_eq]
      exact oneLine
    have headline : '\n' ∉ (q.diagnose expected).headline.toList := by
      have message := expected.not_mem_message q.current.description q.nesting
      simp only [Diagnostic.headline, location, String.toList_append, List.mem_append, not_or]
      exact ⟨⟨place, by decide⟩, message⟩
    have one : '\n' ∉ (String.ofList ((Token.StandsIn.readOfLine before chars behind).rdropWhile (· == '\r'))).toList := by
      rw [String.toList_ofList]
      exact fun feed => stands.not_mem_readOfLine ((List.rdropWhile_prefix _ _).subset feed)
    obtain ⟨more, lines⟩ := Diagnostic.splitOn_text location sourceLine columnPositive headline one
    refine ⟨_, _, more, lines, fun c first => ?_⟩
    rw [String.toList_ofList, List.getElem?_append_right (by simp)]
    simpa using stands.getElem?_quoted first

theorem exists_diagnose_of_settle {α : Type} {n : Nat} {r : Reading α n} {d : Diagnostic}
    (stuck : p.settle r = (.error d, q)) : ∃ expected, d = q.diagnose expected := by
  cases r with
  | done value rest shorter => cases stuck
  | stuck expected rest within =>
    cases stuck
    exact ⟨expected, rfl⟩

/-- Every diagnostic of the grammar, of an attempt after any calls and of an expression that is read by itself, points
at the token that is then the current one. -/
theorem diagnostic_points_at_current (table : OperatorTable) (nesting : Int) (file text : String) (calls : List Call) :
    (∀ d q, (calls.foldl after (ofText table nesting file text)).nextEntity = (.refused d, q) →
      ∃ before chars behind, d.PointsAt file text.toList q.current before chars behind) ∧
    ∀ d, parseExpression table file text = .error d → ∃ before chars behind,
      d.PointsAt file text.toList (ofText table standardNesting file text).expression.2.current
        before chars behind := by
  constructor
  · intro d q attempt
    obtain ⟨-, expected, -, -, rfl⟩ := nextEntity_eq_refused_iff.mp attempt
    have member := current_mem_all table nesting file text (calls ++ [.nextEntity])
    rw [List.foldl_append, List.foldl_cons, List.foldl_nil, after, attempt] at member
    exact pointsAt_diagnose member expected
  · intro d refused
    have member := current_mem_all table standardNesting file text [.expression]
    rw [List.foldl_cons, List.foldl_nil, after] at member
    suffices ∃ expected, d = (ofText table standardNesting file text).expression.2.diagnose expected by
      obtain ⟨expected, rfl⟩ := this
      exact pointsAt_diagnose member expected
    unfold parseExpression at refused
    cases read : (ofText table standardNesting file text).expression with
    | mk result q =>
      rw [read] at refused
      cases result with
      | error d' =>
        cases refused
        exact exists_diagnose_of_settle read
      | ok value =>
        dsimp only at refused
        split at refused
        · cases refused
        · cases refused
          exact ⟨.endOfInput, rfl⟩

/-- Of `f(1 2)` the second number does not fit, as the end of the input after `1 +` does not. -/
theorem diagnostic_points_at_second_argument :
    let parser := ofText .standard 8 "caret" "f(1 2)"
    let d : Diagnostic := ⟨.missingToken "Expected ')' or ',' in argument list" "')' or ','" "number 2",
      some ⟨"caret", 1, 5⟩, some "f(1 2)"⟩
    let d' : Diagnostic := ⟨.unexpectedToken "unknown token when expecting an expression" "end of input"
      (some "expression"), some ⟨"caret", 1, 4⟩, some "1 +"⟩
    parser.nextEntity = (.refused d, parser.nextEntity.2) ∧
    (∃ before chars behind, d.PointsAt "caret" "f(1 2)".toList parser.nextEntity.2.current before chars behind) ∧
    parseExpression .standard "caret" "1 +" = .error d' ∧
    ∃ before chars behind, d'.PointsAt "caret" "1 +".toList
      (ofText .standard standardNesting "caret" "1 +").expression.2.current before chars behind := by
  intro parser d d'
  have refused : parser.nextEntity = (.refused d, parser.nextEntity.2) := Prod.ext (by decide +kernel) rfl
  have refused' : parseExpression .standard "caret" "1 +" = .error d' := by decide +kernel
  exact ⟨refused, (diagnostic_points_at_current .standard 8 "caret" "f(1 2)" []).1 d _ refused, refused',
    (diagnostic_points_at_current .standard 8 "caret" "1 +" []).2 d' refused'⟩

end Parser
end Kaleidoscope
