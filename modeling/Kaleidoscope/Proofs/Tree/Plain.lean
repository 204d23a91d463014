import Kaleidoscope.Proofs.Text.Terminal
import Kaleidoscope.Proofs.Tree.Printer
import Kaleidoscope.Proofs.Tree.Provenance

/-! Texts of trees go out as they are. An operator may be the character that starts a control sequence or the bracket
behind it, but no text of a tree has both side by side. -/
namespace Kaleidoscope

open Text.Terminal

/-- What a program is read into can be listed line by line: a line feed is no operator. -/
theorem readable_listed (table : OperatorTable) : Vocabulary.Both listed (readable table) (readable table) where
  literal _ _ _ := trivial
  name _ h _ := h.word
  operator op h _ := by
    obtain ⟨c, rfl, positive⟩ := h
    obtain ⟨_, ⟨⟩, allowed⟩ := OperatorTable.isOperatorCharacter_of_precedence positive
    refine ⟨c, rfl, ?_⟩
    rintro rfl
    cases allowed

theorem Prototype.Within.listed {table : OperatorTable} {p : Prototype} (h : p.Within (readable table)) :
    p.Within listed :=
  ⟨h.1.word, fun param member => (h.2 param member).word⟩

theorem Entity.Within.listed {table : OperatorTable} {entity : Entity} (h : entity.Within (readable table)) :
    entity.Within listed := by
  cases entity with
  | declaration p => exact Prototype.Within.listed h
  | function f =>
    obtain ⟨proto, body⟩ := h
    refine ⟨?_, body.both body (readable_listed table)⟩
    split at proto
    · next anonymous => rwa [if_pos anonymous]
    · next named =>
      rw [if_neg named]
      exact proto.listed

theorem IsWord.inert {word : String} (h : IsWord word) : Inert word.toList := inert_of_notMem (h.notMem rfl)

theorem Double.inert_briefText (x : Double) : Inert x.briefText.toList := by
  apply inert_of_notMem
  intro member
  simpa [Decimal.IsFigure] using Double.isFigure_of_mem_briefText member

theorem Double.inert_spelling {x : Double} {text : String} (spelt : x.spelling = .ok text) : Inert text.toList := by
  have spells : x.spelling? = some text := by
    rw [Double.spelling] at spelt
    split at spelt
    · next found => rw [found, Except.ok.inj spelt]
    · cases spelt
  apply inert_of_notMem
  intro member
  rcases (Double.spells_spelling spells).digit_or_point _ member with digit | point
  · cases digit
  · cases point

theorem Prototype.inert_signature {p : Prototype} (h : p.Within listed) : Inert p.signature.toList := by
  apply inert_of_notMem
  intro member
  simpa using p.of_mem_signature h member

namespace Expr

variable {e : Expr} {args : List Expr} {text : String} {texts : List String}

theorem inert_label (h : e.Within listed) : Inert e.label.toList := by
  have word {text : String} (absent : '[' ∉ text.toList) : Inert text.toList := inert_of_notMem absent
  cases e with
  | number value at? =>
    rw [label, String.toList_append]
    exact (word (by simp)).append value.inert_briefText
  | var name at? =>
    rw [label, String.toList_append]
    exact (word (by simp)).append (IsWord.inert h)
  | binary op lhs rhs at? =>
    obtain ⟨c, rfl, -⟩ := h.1
    have split : (binary c.toString lhs rhs at?).label.toList = "BinaryOp:".toList ++ [' ', c] := by simp [label]
    rw [split]
    exact (word (by simp)).append (inert_space_cons c)
  | call callee args at? =>
    have digits : '[' ∉ Nat.toDigits 10 args.length := by
      intro member
      cases Nat.isDigit_of_mem_toDigits (by decide) (Nat.le_refl 10) member
    have count : Inert (toString args.length).toList := word (by simpa using digits)
    simp only [label, String.toList_append]
    exact ((((word (by simp)).append (IsWord.inert h.1)).append (word (by simp))).append count).append (word (by simp))

mutual

theorem inert_spelling : {e : Expr} → {text : String} → e.Within listed → e.spelling = .ok text → Inert text.toList
  | .number .., _, _, spelt => Double.inert_spelling spelt
  | .var .., _, h, spelt => by
    cases spelt
    exact IsWord.inert h
  | .binary .., _, h, spelt => by
    obtain ⟨left, right, first, second, rfl⟩ := spelling_binary_iff.mp spelt
    obtain ⟨⟨c, rfl, -⟩, lhs, rhs⟩ := h
    have split : ("(" ++ left ++ " " ++ c.toString ++ " " ++ right ++ ")").toList =
        ['('] ++ left.toList ++ [' ', c] ++ [' '] ++ right.toList ++ [')'] := by simp
    rw [split]
    exact (((((inert_of_notMem (by simp)).append (inert_spelling lhs first)).append (inert_space_cons c)).append
      (inert_of_notMem (by simp))).append (inert_spelling rhs second)).append (inert_of_notMem (by simp))
  | .call .., _, h, spelt => by
    obtain ⟨texts, inner, rfl⟩ := spelling_call_iff.mp spelt
    simp only [String.toList_append, String.toList_intercalate]
    exact (((IsWord.inert h.1).append (inert_of_notMem (by simp))).append
      (.intercalate (inert_of_notMem (by simp)) (inert_spellingAll h.2 inner))).append (inert_of_notMem (by simp))

theorem inert_spellingAll : {args : List Expr} → {texts : List String} → WithinAll listed args →
    spellingAll args = .ok texts → ∀ text ∈ texts.map String.toList, Inert text
  | [], _, _, spelt => by
    cases spelt
    simp
  | _ :: _, _, h, spelt => by
    obtain ⟨text, more, first, others, rfl⟩ := spellingAll_cons_iff.mp spelt
    rw [List.map_cons, List.forall_mem_cons]
    exact ⟨inert_spelling h.1 first, inert_spellingAll h.2 others⟩

end

end Expr

namespace Entity

variable {entity : Entity} {entities : List Entity} {text : String}

theorem inert_title {f : Function} {bare front : String} (h : (function f).Within listed) (fixed : '[' ∉ bare.toList)
    (before : '[' ∉ front.toList) : Inert (if f.isAnonymous then bare else front ++ f.proto.signature).toList := by
  obtain ⟨proto, -⟩ := h
  split at proto
  · next anonymous =>
    rw [if_pos anonymous]
    exact inert_of_notMem fixed
  · next named =>
    rw [if_neg named, String.toList_append]
    exact (inert_of_notMem before).append (f.proto.inert_signature proto)

theorem inert_heading (h : entity.Within listed) : Inert entity.heading.toList := by
  cases entity with
  | declaration p =>
    rw [heading, String.toList_append]
    exact (inert_of_notMem (by simp)).append (p.inert_signature h)
  | function f => exact inert_title h (by simp) (by simp)

theorem inert_dump (h : entity.Within listed) : Inert entity.dump.toList := by
  have line (level : Nat) {label : String} (inert : Inert label.toList) : Inert (DumpLine.text ⟨level, label⟩).toList := by
    rw [DumpLine.toList_text]
    exact (inert_of_notMem fun member => absurd (List.eq_of_mem_replicate member) (by decide)).append inert
  have lines : ∀ line ∈ entity.dumpLines, Inert line.text.toList := by
    rw [dumpLines_eq, List.forall_mem_cons]
    refine ⟨line 0 (inert_heading h), ?_⟩
    cases entity with
    | declaration p => simp [body?]
    | function f =>
      intro shown member
      have inBody : shown ∈ f.body.dumpAt 1 := member
      rw [Expr.dumpAt_eq_map] at inBody
      obtain ⟨⟨place, node⟩, stands, rfl⟩ := List.mem_map.mp inBody
      exact line _ (Expr.inert_label (h.2.node (Expr.mem_placed_iff.mp stands)))
  rw [dump, DumpLine.textAll, String.toList_intercalate]
  exact .intercalate (inert_of_notMem (by simp)) (by simpa using lines)

theorem inert_summary (h : entity.Within listed) : Inert entity.summary.toList := by
  cases entity with
  | declaration p =>
    rw [summary, String.toList_append]
    exact (inert_of_notMem (by simp)).append (p.inert_signature h)
  | function f => exact inert_title h (by simp) (by simp)

theorem inert_spelling (h : entity.Within listed) (spelt : entity.spelling = .ok text) : Inert text.toList := by
  cases entity with
  | declaration p =>
    obtain rfl := Except.ok.inj spelt
    rw [String.toList_append]
    exact (inert_of_notMem (by simp)).append (p.inert_signature h)
  | function f =>
    obtain ⟨body, inner, rfl⟩ := spelling_function_iff.mp spelt
    obtain ⟨proto, within⟩ := h
    have inert := Expr.inert_spelling within inner
    split at proto
    · next anonymous => rwa [if_pos anonymous]
    · next named =>
      rw [if_neg named]
      simp only [String.toList_append]
      exact (((inert_of_notMem (by simp)).append (f.proto.inert_signature proto)).append
        (inert_of_notMem (by simp))).append inert

end Entity

theorem inert_programSpelling {entities : List Entity} {text : String} (h : ∀ entity ∈ entities, entity.Within listed)
    (spelt : programSpelling entities = .ok text) : Inert text.toList := by
  induction entities generalizing text with
  | nil =>
    obtain rfl := Except.ok.inj (programSpelling_nil.symm.trans spelt)
    exact inert_of_notMem (by simp)
  | cons entity entities ih =>
    obtain ⟨here, others⟩ := List.forall_mem_cons.mp h
    obtain ⟨first, more, head, rest, rfl⟩ := programSpelling_cons_iff.mp spelt
    simp only [String.toList_append]
    exact ((Entity.inert_spelling here head).append (inert_of_notMem (by simp))).append (ih others rest)

end Kaleidoscope
