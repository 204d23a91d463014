import Kaleidoscope.Proofs.Tree.Provenance
import Kaleidoscope.Proofs.Tree.Rereading
import Kaleidoscope.Tree.Walk

/-! Chains of one name and one operator. Reading them takes one level of nesting, however long they are,
but they group from the left, so that their trees are as high as they are long. -/
namespace Kaleidoscope

open Grammar

namespace Chain

theorem height_join {lhs rhs : Expr} (op : Token) (low : rhs.height ≤ lhs.height) :
    (join lhs op rhs).height = lhs.height + 1 := by
  rw [join, Expr.height, Nat.max_eq_left low]

/-- With equal precedences each operator takes all before it as its left operand. -/
theorem height_build {precedence : Int} {links : List Link} {lhs operand : Expr}
    (equal : ∀ link ∈ links, link.precedence = precedence) (low : operand.height ≤ lhs.height)
    (flat : ∀ link ∈ links, link.operand.height ≤ lhs.height) (op : Token) :
    (build [⟨lhs, op, precedence⟩] operand links).height = lhs.height + 1 + links.length := by
  induction links generalizing lhs operand op with
  | nil => exact height_join op low
  | cons link links ih =>
    obtain ⟨first, others⟩ := List.forall_mem_cons.mp equal
    obtain ⟨next, later⟩ := List.forall_mem_cons.mp flat
    have grown := height_join op low
    have step : build [⟨lhs, op, precedence⟩] operand (link :: links) =
        build [⟨join lhs op operand, link.op, precedence⟩] link.operand links := by
      rw [build_cons, first, reduce, if_neg (Int.lt_irrefl _)]
      rfl
    rw [step, ih others (by omega) (fun link member => by have := later link member; omega), grown,
      List.length_cons]
    omega

theorem height_reference {precedence : Int} {links : List Link} {operand : Expr}
    (equal : ∀ link ∈ links, link.precedence = precedence)
    (flat : ∀ link ∈ links, link.operand.height ≤ operand.height) :
    (reference operand links).height = operand.height + links.length := by
  rw [← tree_eq_reference]
  cases links with
  | nil => rfl
  | cons link links =>
    obtain ⟨first, others⟩ := List.forall_mem_cons.mp equal
    obtain ⟨next, later⟩ := List.forall_mem_cons.mp flat
    have step : tree operand (link :: links) =
        build [⟨operand, link.op, precedence⟩] link.operand links := by
      rw [tree, build_cons, first]
      rfl
    rw [step, height_build others next later, List.length_cons]
    omega

theorem Arranged.calls {e operand : Expr} {links : List Link} (h : Arranged e operand links) :
    e.calls = operand.calls ++ links.flatMap (·.operand.calls) := by
  induction h with
  | operand => simp
  | operation _ _ pivot left right => simp [join, Expr.calls, pivot.split, left, right]

end Chain

/-- A chain of one name, with so many operators in it. -/
def chainText (name : String) (op : Char) (operators : Nat) : String :=
  String.ofList (name.toList ++ (List.replicate operators (op :: name.toList)).flatten)

def linkLexemes (name : String) (op : Char) (operators : Nat) : List Lexeme :=
  (List.replicate operators [.character op, .identifier name]).flatten

theorem fallsInto_chainText {name : String} {op : Char} (word : IsName name)
    (lone : isLoneCharacter op = true) (operators : Nat) :
    FallsInto (chainText name op operators).toList (.identifier name :: linkLexemes name op operators) := by
  have apart : (op.isAlphanum || op == '.') = false := by
    obtain ⟨-, -, alpha, numeral⟩ := lone_classes lone
    simp only [isNumeral, Bool.or_eq_false_iff] at numeral
    simp [Char.isAlphanum, alpha, numeral]
  rw [chainText, linkLexemes, String.toList_ofList]
  induction operators with
  | zero => simpa using FallsInto.name word
  | succ operators ih => exact (FallsInto.name word).append_cons (.lone lone ih) apart

variable {table : OperatorTable} {name : String} {op : Char} {operators : Nat} {tokens : List Token}

theorem lacks_chainLinks (operator : 0 < table.precedence (.character op))
    (same : tokens.map (·.lexeme) = linkLexemes name op operators) :
    Lacks '(' tokens := by
  cases operators with
  | zero =>
    obtain rfl := List.map_eq_nil_iff.mp same
    simp [Lacks]
  | succ operators =>
    obtain ⟨sign, behind, rfl, first, -⟩ := List.map_eq_cons_iff.mp same
    exact lacks_opening_of_operator (first ▸ operator)

def Chain.Links (table : OperatorTable) (name : String) (op : Char) (link : Link) : Prop :=
  link.op.lexeme = .character op ∧ link.precedence = table.precedence (.character op) ∧
    ∃ at?, link.operand = .var name at?

theorem reads_chainLinks (operator : 0 < table.precedence (.character op))
    (same : tokens.map (·.lexeme) = linkLexemes name op operators) :
    ∃ found depth, Reads table (.links found) depth tokens [] ∧ depth ≤ 1 ∧ found.length = operators ∧
      ∀ link ∈ found, Chain.Links table name op link := by
  induction operators generalizing tokens with
  | zero =>
    obtain rfl := List.map_eq_nil_iff.mp same
    exact ⟨[], 0, .noLinks, by simp, rfl, by simp⟩
  | succ operators ih =>
    obtain ⟨sign, behind, rfl, first, same⟩ := List.map_eq_cons_iff.mp same
    obtain ⟨operand, behind, rfl, word, same⟩ := List.map_eq_cons_iff.mp same
    obtain ⟨found, depth, reads, shallow, length, links⟩ := ih same
    have link := Derives.link (first ▸ operator) (.name word (lacks_chainLinks operator same)) reads
    refine ⟨_, _, link, by omega, by simp [length], ?_⟩
    exact List.forall_mem_cons.mpr ⟨⟨first, by rw [first], _, rfl⟩, links⟩

theorem reads_chainText (word : IsName name) (operator : 0 < table.precedence (.character op))
    (operators : Nat) (file : String) :
    ∃ e depth, Reads table (.expression e) depth (tokenize file (chainText name op operators)).tokens [] ∧
      depth ≤ 1 ∧ e.height = operators + 1 ∧ e.calls = [] ∧ e.Within (canonical table) := by
  obtain ⟨c, character, allowed⟩ := OperatorTable.isOperatorCharacter_of_precedence operator
  obtain rfl := Lexeme.character.inj character
  have lone : isLoneCharacter op = true := (Bool.and_eq_true_iff.mp allowed).1
  obtain ⟨same, -⟩ := (fallsInto_chainText word lone operators).tokens file
  obtain ⟨token, behind, tokens, first, same⟩ := List.map_eq_cons_iff.mp same
  obtain ⟨found, depth, reads, shallow, length, links⟩ := reads_chainLinks operator same
  have operand : Reads table (.primary (.var name (some token.location))) 1 (token :: behind) behind :=
    .name first (lacks_chainLinks operator same)
  have arranged := Chain.arranged_reference (.var name (some token.location)) found
  have height : (Chain.reference (.var name (some token.location)) found).height = 1 + found.length := by
    apply Chain.height_reference (fun link member => (links link member).2.1)
    intro link member
    obtain ⟨-, -, at?, var⟩ := links link member
    rw [var, Expr.height, Expr.height]
  have calls : (Chain.reference (.var name (some token.location)) found).calls = [] := by
    rw [arranged.calls, Expr.calls, List.nil_append, List.flatMap_eq_nil_iff]
    intro link member
    obtain ⟨-, -, at?, var⟩ := links link member
    rw [var, Expr.calls]
  have within : (Chain.reference (.var name (some token.location)) found).Within (canonical table) := by
    refine arranged.within (show Expr.Within _ (.var _ _) from word) ?_
    intro link member
    obtain ⟨sign, -, at?, var⟩ := links link member
    exact ⟨sign ▸ ⟨op, rfl, operator⟩, var ▸ word⟩
  rw [tokens]
  exact ⟨_, _, .expression operand reads, by omega, by omega, calls, within⟩

end Kaleidoscope
