import Kaleidoscope.Proofs.Number.Spelling
import Kaleidoscope.Tree.Spelling

/-! What occurs in a tree: its literals, names and operators, and how deep it is. Neither depends on the
locations, and the literals alone decide whether the tree has a canonical text. -/
namespace Kaleidoscope

structure Vocabulary where
  literal : Double → Prop
  name : String → Prop
  operator : String → Prop

/-- What both `v` and `w` admit, `u` admits. -/
structure Vocabulary.Both (u v w : Vocabulary) : Prop where
  literal : ∀ x, v.literal x → w.literal x → u.literal x
  name : ∀ x, v.name x → w.name x → u.name x
  operator : ∀ x, v.operator x → w.operator x → u.operator x

/-- A letter with letters and digits behind it. -/
def IsWord (word : String) : Prop :=
  ∃ c body, word.toList = c :: body ∧ c.isAlpha = true ∧ ∀ d ∈ body, d.isAlphanum = true

theorem isWord_def : IsWord "def" := ⟨'d', ['e', 'f'], by simp, rfl, List.all_eq_true.mp rfl⟩

theorem isWord_extern : IsWord "extern" :=
  ⟨'e', ['x', 't', 'e', 'r', 'n'], by simp, rfl, List.all_eq_true.mp rfl⟩

/-- A word that is no keyword. -/
structure IsName (name : String) : Prop where
  word : IsWord name
  not_def : name ≠ "def"
  not_extern : name ≠ "extern"

theorem IsName.ofLetter {name : String} {c : Char} (single : name.toList = [c]) (alpha : c.isAlpha = true) :
    IsName name where
  word := ⟨c, [], single, alpha, by simp⟩
  not_def := by
    intro keyword
    simp [keyword] at single
  not_extern := by
    intro keyword
    simp [keyword] at single

namespace Expr

mutual

/-- Everything that occurs in the expression is in the vocabulary. -/
def Within (v : Vocabulary) : Expr → Prop
  | .number value _ => v.literal value
  | .var name _ => v.name name
  | .binary op lhs rhs _ => v.operator op ∧ lhs.Within v ∧ rhs.Within v
  | .call callee args _ => v.name callee ∧ WithinAll v args

def WithinAll (v : Vocabulary) : List Expr → Prop
  | [] => True
  | e :: rest => e.Within v ∧ WithinAll v rest

end

mutual

/-- The depth of the tree, a leaf being of depth one. -/
def height : Expr → Nat
  | .number .. | .var .. => 1
  | .binary _ lhs rhs _ => max lhs.height rhs.height + 1
  | .call _ args _ => heightAll args + 1

def heightAll : List Expr → Nat
  | [] => 0
  | e :: rest => max e.height (heightAll rest)

end

variable {u v w : Vocabulary}

mutual

theorem Within.both {e : Expr} (h : e.Within v) (k : e.Within w) (all : Vocabulary.Both u v w) :
    e.Within u :=
  match e with
  | .number value _ => all.literal value h k
  | .var name _ => all.name name h k
  | .binary op _ _ _ => ⟨all.operator op h.1 k.1, h.2.1.both k.2.1 all, h.2.2.both k.2.2 all⟩
  | .call callee _ _ => ⟨all.name callee h.1 k.1, WithinAll.both h.2 k.2 all⟩

theorem WithinAll.both {args : List Expr} (h : WithinAll v args) (k : WithinAll w args)
    (all : Vocabulary.Both u v w) : WithinAll u args :=
  match args with
  | [] => trivial
  | _ :: _ => ⟨h.1.both k.1 all, WithinAll.both h.2 k.2 all⟩

end

theorem height_pos (e : Expr) : 0 < e.height := by
  cases e <;> simp [height]

mutual

/-- The locations play no part in the canonical text. -/
theorem spelling_bare : (e : Expr) → e.bare.spelling = e.spelling
  | .number .. | .var .. => by simp [bare, spelling]
  | .binary _ lhs rhs _ => by simp [bare, spelling, spelling_bare lhs, spelling_bare rhs]
  | .call _ args _ => by simp [bare, spelling, spellingAll_bareAll args]

theorem spellingAll_bareAll : (args : List Expr) → spellingAll (bareAll args) = spellingAll args
  | [] => rfl
  | e :: rest => by simp [bareAll, spellingAll, spelling_bare e, spellingAll_bareAll rest]

end

theorem spelling_binary_iff {op text : String} {lhs rhs : Expr} {at? : Option Location} :
    (binary op lhs rhs at?).spelling = .ok text ↔ ∃ left right,
      lhs.spelling = .ok left ∧ rhs.spelling = .ok right ∧
        text = "(" ++ left ++ " " ++ op ++ " " ++ right ++ ")" := by
  rw [spelling]
  cases lhs.spelling <;> cases rhs.spelling <;> simp [bind, Except.bind, pure, Except.pure, eq_comm]

theorem spelling_call_iff {callee text : String} {args : List Expr} {at? : Option Location} :
    (call callee args at?).spelling = .ok text ↔ ∃ texts,
      spellingAll args = .ok texts ∧ text = callee ++ "(" ++ ", ".intercalate texts ++ ")" := by
  rw [spelling]
  cases spellingAll args <;> simp [bind, Except.bind, pure, Except.pure, eq_comm]

theorem spellingAll_cons_iff {e : Expr} {rest : List Expr} {texts : List String} :
    spellingAll (e :: rest) = .ok texts ↔ ∃ text more,
      e.spelling = .ok text ∧ spellingAll rest = .ok more ∧ texts = text :: more := by
  rw [spellingAll]
  cases e.spelling <;> cases spellingAll rest <;> simp [bind, Except.bind, pure, Except.pure, eq_comm]

def spellable : Vocabulary where
  literal x := x.isNegative = false ∧ x.isFinite = true
  name _ := True
  operator _ := True

mutual

theorem exists_spelling_iff : (e : Expr) → ((∃ text, e.spelling = .ok text) ↔ e.Within spellable)
  | .number value _ => by
    simp only [spelling, Double.spelling, Within, spellable, ← Double.isSome_spelling?_iff]
    cases value.spelling? <;> simp
  | .var .. => by simp [spelling, Within, spellable]
  | .binary _ lhs rhs _ => by
    simp only [spelling_binary_iff, Within, ← exists_spelling_iff lhs, ← exists_spelling_iff rhs]
    simp [spellable]
  | .call _ args _ => by
    simp only [spelling_call_iff, Within, ← exists_spellingAll_iff args]
    simp [spellable]

theorem exists_spellingAll_iff : (args : List Expr) →
    ((∃ texts, spellingAll args = .ok texts) ↔ WithinAll spellable args)
  | [] => by simp [spellingAll, WithinAll]
  | e :: rest => by
    simp only [spellingAll_cons_iff, WithinAll, ← exists_spelling_iff e, ← exists_spellingAll_iff rest]
    simp

end

end Expr

def Prototype.Within (v : Vocabulary) (p : Prototype) : Prop :=
  v.name p.name ∧ ∀ param ∈ p.params, v.name param

namespace Entity

def body? : Entity → Option Expr
  | .declaration _ => none
  | .function f => some f.body

def height : Entity → Nat
  | .declaration _ => 0
  | .function f => f.body.height

/-- Everything that occurs in the entity is in the vocabulary, and it has no parameters without a name. -/
def Within (v : Vocabulary) : Entity → Prop
  | .declaration p => p.Within v
  | .function f => (if f.isAnonymous then f.proto.params = [] else f.proto.Within v) ∧ f.body.Within v

@[simp] theorem body?_anonymous (e : Expr) : (function (.anonymous e)).body? = some e := rfl

@[simp] theorem within_anonymous {v : Vocabulary} {e : Expr} :
    (function (.anonymous e)).Within v ↔ e.Within v := by
  simp [Within, Function.anonymous, Function.isAnonymous, Prototype.isAnonymous]

theorem height_le_iff {entity : Entity} {levels : Nat} :
    entity.height ≤ levels ↔ ∀ body ∈ entity.body?, body.height ≤ levels := by
  cases entity <;> simp [height, body?]

theorem spelling_function_iff {f : Function} {text : String} :
    (function f).spelling = .ok text ↔ ∃ body, f.body.spelling = .ok body ∧
      text = if f.isAnonymous then body else "def " ++ f.proto.signature ++ " " ++ body := by
  rw [spelling]
  cases f.body.spelling with
  | error fault => simp [bind, Except.bind]
  | ok body =>
    simp only [bind, Except.bind, pure, Except.pure, Except.ok.injEq, exists_eq_left']
    exact eq_comm

theorem exists_spelling_iff {entity : Entity} :
    (∃ text, entity.spelling = .ok text) ↔ ∀ body ∈ entity.body?, body.Within Expr.spellable := by
  cases entity with
  | declaration p => simp [spelling, body?]
  | function f =>
    have body := Expr.exists_spelling_iff f.body
    simp [spelling_function_iff, body?, body]

theorem spelling_bare (entity : Entity) : entity.bare.spelling = entity.spelling := by
  cases entity with
  | declaration p => rfl
  | function f =>
    simp only [bare, spelling, Function.bare, Expr.spelling_bare]
    rfl

end Entity

theorem programSpelling_nil : programSpelling [] = .ok "" := rfl

theorem programSpelling_cons_iff {entity : Entity} {entities : List Entity} {text : String} :
    programSpelling (entity :: entities) = .ok text ↔ ∃ first more,
      entity.spelling = .ok first ∧ programSpelling entities = .ok more ∧
        text = first ++ ";\n" ++ more := by
  simp only [programSpelling, List.mapM_cons]
  cases entity.spelling <;> cases entities.mapM Entity.spelling <;>
    simp [bind, Except.bind, pure, Except.pure, Except.map, programOf, eq_comm, Functor.map]

/-- A program has a canonical text just when all literals in it can be written. -/
theorem exists_programSpelling_iff {entities : List Entity} :
    (∃ text, programSpelling entities = .ok text) ↔
      ∀ entity ∈ entities, ∀ body ∈ entity.body?, body.Within Expr.spellable := by
  induction entities with
  | nil => simp [programSpelling_nil]
  | cons entity entities ih =>
    rw [List.forall_mem_cons, ← ih, ← Entity.exists_spelling_iff]
    simp [programSpelling_cons_iff]

end Kaleidoscope
