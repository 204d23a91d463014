import Kaleidoscope.Proofs.Tree.Occurrence
import Kaleidoscope.Proofs.Tree.Vocabulary
import Kaleidoscope.Tree.Dump

/-! What a dump shows. No label holds a line feed or starts with a space, so the lines of a dump and their levels are
found again, and since a label says how many parts a node has, the lines are the nodes of one tree only. -/
namespace Kaleidoscope

section Separated

variable {α : Type} {a : α} {front front' back back' : List α} {words words' : List (List α)}

theorem append_cons_inj (free : a ∉ front) (free' : a ∉ front') :
    front ++ a :: back = front' ++ a :: back' ↔ front = front' ∧ back = back' := by
  induction front generalizing front' with
  | nil =>
    cases front' with
    | nil => simp
    | cons b front' => simp [(List.ne_of_not_mem_cons free')]
  | cons b front ih =>
    cases front' with
    | nil => simp [(List.ne_of_not_mem_cons free).symm]
    | cons c front' =>
      simp [ih (List.not_mem_of_not_mem_cons free) (List.not_mem_of_not_mem_cons free'), and_assoc]

/-- Words that are not empty and do not hold the separator are found again between the separators. -/
theorem intercalate_inj (free : ∀ word ∈ words, a ∉ word ∧ word ≠ [])
    (free' : ∀ word ∈ words', a ∉ word ∧ word ≠ []) :
    [a].intercalate words = [a].intercalate words' ↔ words = words' := by
  classical
  have found {words : List (List α)} (free : ∀ word ∈ words, a ∉ word ∧ word ≠ []) :
      ([a].intercalate words).splitOn a = if words = [] then [[]] else words := by
    split
    · next none => simp [none]
    · next some => exact List.splitOn_intercalate a (fun word member => (free word member).1) some
  constructor
  · intro same
    have both := congrArg (List.splitOn a) same
    rw [found free, found free'] at both
    split at both
    · next none =>
      split at both
      · next none' => rw [none, none']
      · subst both
        exact absurd rfl (free' [] (by simp)).2
    · split at both
      · subst both
        exact absurd rfl (free [] (by simp)).2
      · exact both
  · rintro rfl
    rfl

theorem of_mem_intercalate {b : α} {separator : List α} (member : b ∈ separator.intercalate words) :
    b ∈ separator ∨ ∃ word ∈ words, b ∈ word := by
  induction words with
  | nil => simp at member
  | cons word words ih =>
    cases words with
    | nil => exact .inr ⟨word, by simp, by simpa using member⟩
    | cons next words =>
      rw [List.intercalate_cons_cons, List.mem_append, List.mem_append] at member
      rcases member with (here | between) | later
      · exact .inr ⟨word, List.mem_cons_self, here⟩
      · exact .inl between
      · exact (ih later).imp_right fun ⟨other, present, inside⟩ => ⟨other, List.mem_cons_of_mem _ present, inside⟩

end Separated

namespace DumpLine

variable {line : DumpLine} {lines lines' : List DumpLine}

/-- The label is set off from the spaces in front of it and stays on its line. -/
structure Legible (line : DumpLine) : Prop where
  oneLine : '\n' ∉ line.label.toList
  setOff : line.label.toList.head? ≠ some ' '

/-- The line that a text shows. -/
def ofText (text : List Char) : DumpLine :=
  ⟨(text.takeWhile (· == ' ')).length / 2, String.ofList (text.dropWhile (· == ' '))⟩

theorem toList_text (line : DumpLine) :
    line.text.toList = List.replicate (2 * line.level) ' ' ++ line.label.toList := by
  simp [text]

theorem Legible.oneLine_text (h : line.Legible) : '\n' ∉ line.text.toList := by
  rw [toList_text, List.mem_append]
  rintro (space | label)
  · exact absurd (List.eq_of_mem_replicate space) (by decide)
  · exact h.oneLine label

theorem Legible.ofText_text (h : line.Legible) : ofText line.text.toList = line := by
  have spaces : ∀ c ∈ List.replicate (2 * line.level) ' ', (c == ' ') = true := by simp
  have setOff := h.setOff
  have label : line.label.toList.takeWhile (· == ' ') = [] ∧
      line.label.toList.dropWhile (· == ' ') = line.label.toList := by
    cases text : line.label.toList with
    | nil => simp
    | cons c rest =>
      rw [text, List.head?_cons, ne_eq, Option.some.injEq] at setOff
      simp [setOff]
  rw [ofText, toList_text, List.takeWhile_append_of_pos spaces, List.dropWhile_append_of_pos spaces, label.1, label.2]
  simp

theorem splitOn_textAll (some : lines ≠ []) (legible : ∀ line ∈ lines, line.Legible) :
    (textAll lines).toList.splitOn '\n' = lines.map (·.text.toList) := by
  have feed : "\n".toList = ['\n'] := by simp
  rw [textAll, String.toList_intercalate, List.map_map, feed, List.splitOn_intercalate]
  · rfl
  · intro text member
    obtain ⟨line, present, rfl⟩ := List.mem_map.mp member
    exact (legible line present).oneLine_text
  · simpa using some

theorem textAll_inj (some : lines ≠ []) (some' : lines' ≠ []) (legible : ∀ line ∈ lines, line.Legible)
    (legible' : ∀ line ∈ lines', line.Legible) : textAll lines = textAll lines' ↔ lines = lines' := by
  have found {lines : List DumpLine} (some : lines ≠ []) (legible : ∀ line ∈ lines, line.Legible) :
      ((textAll lines).toList.splitOn '\n').map ofText = lines := by
    rw [splitOn_textAll some legible, List.map_map]
    exact (List.map_congr_left fun line member => (legible line member).ofText_text).trans (List.map_id _)
  constructor
  · intro same
    rw [← found some legible, same, found some' legible']
  · rintro rfl
    rfl

end DumpLine

/-- A tree with names for names and with operators that do not break the line. -/
def listed : Vocabulary where
  literal _ := True
  name := IsWord
  operator op := ∃ c : Char, op = c.toString ∧ c ≠ '\n'

theorem IsWord.isAlphanum {word : String} (h : IsWord word) : ∀ c ∈ word.toList, c.isAlphanum = true := by
  obtain ⟨c, body, chars, letter, inside⟩ := h
  rw [chars, List.forall_mem_cons]
  exact ⟨by simp [Char.isAlphanum, letter], inside⟩

theorem IsWord.notMem {word : String} (h : IsWord word) {c : Char} (mark : c.isAlphanum = false) : c ∉ word.toList := by
  intro member
  rw [h.isAlphanum c member] at mark
  cases mark

theorem IsWord.toList_ne_nil {word : String} (h : IsWord word) : word.toList ≠ [] := by
  obtain ⟨c, body, chars, -⟩ := h
  simp [chars]

theorem toDigits_inj {m n : Nat} : Nat.toDigits 10 m = Nat.toDigits 10 n ↔ m = n := by
  constructor
  · intro same
    rw [← Nat.ofDigitChars_ten_toDigits (n := m), same, Nat.ofDigitChars_ten_toDigits]
  · rintro rfl
    rfl

namespace Expr

variable {e e' : Expr} {args args' : List Expr} {level : Nat} {rest rest' : List DumpLine}

mutual

/-- The expressions are the same but for locations and for numbers with the same brief text. -/
def Resembles : Expr → Expr → Prop
  | .number value _, .number value' _ => value.briefText = value'.briefText
  | .var name _, .var name' _ => name = name'
  | .binary op lhs rhs _, .binary op' lhs' rhs' _ => op = op' ∧ lhs.Resembles lhs' ∧ rhs.Resembles rhs'
  | .call callee args _, .call callee' args' _ => callee = callee' ∧ ResemblesAll args args'
  | _, _ => False

def ResemblesAll : List Expr → List Expr → Prop
  | [], [] => True
  | e :: rest, e' :: rest' => e.Resembles e' ∧ ResemblesAll rest rest'
  | _, _ => False

end

theorem ResemblesAll.length_eq (h : ResemblesAll args args') : args.length = args'.length := by
  induction args generalizing args' with
  | nil => cases args' <;> simp_all [ResemblesAll]
  | cons e args ih =>
    cases args' with
    | nil => simp [ResemblesAll] at h
    | cons e' args' => simpa using ih h.2

theorem label_call_inj {callee callee' : String} {at? at?' : Option Location} (h : IsWord callee) (h' : IsWord callee') :
    (call callee args at?).label = (call callee' args' at?').label ↔ callee = callee' ∧ args.length = args'.length := by
  have space : ' ' ∉ callee.toList := h.notMem rfl
  have space' : ' ' ∉ callee'.toList := h'.notMem rfl
  rw [← toDigits_inj, ← String.toList_inj, ← String.toList_inj]
  simp [label, append_cons_inj space space']

theorem resembles_iff (h : e.Within listed) (h' : e'.Within listed) :
    e.Resembles e' ↔ e.label = e'.label ∧ ResemblesAll e.parts e'.parts := by
  cases e <;> cases e'
  case number.number => simp [Resembles, label, parts, ResemblesAll]
  case var.var => simp [Resembles, label, parts, ResemblesAll]
  case binary.binary => simp [Resembles, label, parts, ResemblesAll]
  case call.call =>
    rw [label_call_inj h.1 h'.1, Resembles, parts, parts, and_assoc]
    exact and_congr_right fun _ => ⟨fun all => ⟨all.length_eq, all⟩, And.right⟩
  all_goals simp [Resembles, label, ← String.toList_inj]

theorem length_parts_of_label (h : e.Within listed) (h' : e'.Within listed) (same : e.label = e'.label) :
    e.parts.length = e'.parts.length := by
  cases e <;> cases e'
  case call.call => exact ((label_call_inj h.1 h'.1).mp same).2
  all_goals first | rfl | simp [label, ← String.toList_inj] at same

theorem dumpAt_eq (level : Nat) (e : Expr) : e.dumpAt level = ⟨level, e.label⟩ :: dumpAllAt (level + 1) e.parts := by
  cases e <;> simp [dumpAt, dumpAllAt, parts]

theorem withinAll_iff {v : Vocabulary} : WithinAll v args ↔ ∀ e ∈ args, e.Within v := by
  induction args <;> simp_all [WithinAll]

theorem Within.parts {v : Vocabulary} (h : e.Within v) : ∀ part ∈ e.parts, part.Within v := by
  cases e with
  | number | var => simp [Expr.parts]
  | binary => simpa [Expr.parts] using h.2
  | call => exact withinAll_iff.mp h.2

theorem dumpAllAt_append_inj (each : ∀ e ∈ args, ∀ {e' : Expr} {rest rest' : List DumpLine}, e'.Within listed →
      (e.dumpAt level ++ rest = e'.dumpAt level ++ rest' ↔ e.Resembles e' ∧ rest = rest'))
    (h' : ∀ e' ∈ args', e'.Within listed) (same : args.length = args'.length) :
    dumpAllAt level args ++ rest = dumpAllAt level args' ++ rest' ↔ ResemblesAll args args' ∧ rest = rest' := by
  induction args generalizing args' with
  | nil =>
    obtain rfl := List.length_eq_zero_iff.mp same.symm
    simp [dumpAllAt, ResemblesAll]
  | cons e args ih =>
    cases args' with
    | nil => cases same
    | cons e' args' =>
      obtain ⟨here, others⟩ := List.forall_mem_cons.mp each
      obtain ⟨within, more⟩ := List.forall_mem_cons.mp h'
      rw [dumpAllAt, dumpAllAt, List.append_assoc, List.append_assoc, here within,
        ih others more (Nat.succ.inj same), ResemblesAll, and_assoc]

/-- Where the lines of a tree end is seen from their labels, so no tree is the beginning of another. -/
theorem dumpAt_append_inj (h : e.Within listed) (h' : e'.Within listed) :
    e.dumpAt level ++ rest = e'.dumpAt level ++ rest' ↔ e.Resembles e' ∧ rest = rest' := by
  induction e using parts_induction generalizing level e' rest rest' with
  | node e ih =>
    rw [resembles_iff h h', dumpAt_eq, dumpAt_eq, List.cons_append, List.cons_append, List.cons.injEq, DumpLine.mk.injEq,
      and_assoc, and_assoc]
    refine (and_iff_right rfl).trans (and_congr_right fun same => ?_)
    refine dumpAllAt_append_inj ?_ h'.parts (length_parts_of_label h h' same)
    intro part member e' rest rest' within
    exact ih part member (h.parts part member) within

/-- The line of a node that stands at the place, in a dump that starts at the level. -/
def lineAt (level : Nat) (placed : List Nat × Expr) : DumpLine := ⟨level + placed.1.length, placed.2.label⟩

theorem map_lineAt_within (level i : Nat) (nodes : List (List Nat × Expr)) :
    (within i nodes).map (lineAt level) = nodes.map (lineAt (level + 1)) := by
  rw [within, List.map_map]
  refine List.map_congr_left fun placed _ => ?_
  simp only [lineAt, Function.comp_apply, List.length_cons, DumpLine.mk.injEq, and_true]
  omega

theorem dumpAllAt_eq_map (each : ∀ e ∈ args, ∀ level, e.dumpAt level = e.placed.map (lineAt level)) (level first : Nat) :
    dumpAllAt (level + 1) args = (placedFrom first args).map (lineAt level) := by
  induction args generalizing first with
  | nil => rfl
  | cons e args ih =>
    obtain ⟨here, others⟩ := List.forall_mem_cons.mp each
    rw [dumpAllAt, placedFrom, List.map_append, map_lineAt_within, here, ih others]

/-- The lines are those of the nodes, each as far in as its node is down. -/
theorem dumpAt_eq_map (level : Nat) (e : Expr) : e.dumpAt level = e.placed.map (lineAt level) := by
  induction e using parts_induction generalizing level with
  | node e ih =>
    rw [dumpAt_eq, placed_eq, List.map_cons, dumpAllAt_eq_map ih]
    rfl

theorem Within.legible (h : e.Within listed) (level : Nat) : DumpLine.Legible ⟨level, e.label⟩ := by
  cases e with
  | number value at? =>
    have figures : '\n' ∉ value.briefText.toList := by
      intro member
      have figure := Double.isFigure_of_mem_briefText member
      simp [Decimal.IsFigure] at figure
    constructor <;> simp [label, figures]
  | var name at? =>
    have word : '\n' ∉ name.toList := h.notMem rfl
    constructor <;> simp [label, word]
  | binary op lhs rhs at? =>
    obtain ⟨c, rfl, other⟩ := h.1
    constructor <;> simp [label, other.symm]
  | call callee args at? =>
    have word : '\n' ∉ callee.toList := h.1.notMem rfl
    have digits : '\n' ∉ Nat.toDigits 10 args.length := by
      intro member
      cases Nat.isDigit_of_mem_toDigits (by decide) (Nat.le_refl 10) member
    constructor <;> simp [label, word, digits]

theorem Within.node {v : Vocabulary} {node : Expr} {place : List Nat} (h : e.Within v)
    (down : e.node? place = some node) : node.Within v := by
  induction place generalizing e with
  | nil =>
    obtain rfl := Option.some.inj down
    exact h
  | cons i place ih =>
    obtain ⟨part, found, down⟩ := Option.bind_eq_some_iff.mp down
    exact ih (h.parts part (List.mem_of_getElem? found)) down

theorem legible_dumpAt (h : e.Within listed) (level : Nat) : ∀ line ∈ e.dumpAt level, line.Legible := by
  intro line member
  rw [dumpAt_eq_map] at member
  obtain ⟨⟨place, node⟩, stands, rfl⟩ := List.mem_map.mp member
  exact (h.node (mem_placed_iff.mp stands)).legible _

end Expr

end Kaleidoscope
