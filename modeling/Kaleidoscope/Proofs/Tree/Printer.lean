import Kaleidoscope.Proofs.Tree.DumpLines

/-! The printer of dumps. It goes as far out again as it went in, so each entity is printed as if it were the first, and
what it prints is one tree's only. -/
namespace Kaleidoscope

namespace Prototype

variable {p q : Prototype}

theorem toList_signature (p : Prototype) :
    p.signature.toList = p.name.toList ++ '(' :: ([' '].intercalate (p.params.map String.toList) ++ [')']) := by
  simp [signature, String.toList_intercalate]

theorem signature_inj (h : p.Within listed) (h' : q.Within listed) : p.signature = q.signature ↔ p.bare = q.bare := by
  have bracket {p : Prototype} (h : p.Within listed) : '(' ∉ p.name.toList := h.1.notMem rfl
  have words {p : Prototype} (h : p.Within listed) :
      ∀ word ∈ p.params.map String.toList, ' ' ∉ word ∧ word ≠ [] := by
    intro word member
    obtain ⟨param, present, rfl⟩ := List.mem_map.mp member
    exact ⟨(h.2 param present).notMem rfl, (h.2 param present).toList_ne_nil⟩
  have params : p.params.map String.toList = q.params.map String.toList ↔ p.params = q.params :=
    List.map_inj_right fun _ _ => String.toList_inj.mp
  rw [← String.toList_inj, toList_signature, toList_signature, append_cons_inj (bracket h) (bracket h'),
    String.toList_inj, List.append_cancel_right_eq, intercalate_inj (words h) (words h'), params]
  simp [bare]

theorem of_mem_signature (h : p.Within listed) {c : Char} (member : c ∈ p.signature.toList) :
    c.isAlphanum = true ∨ c = '(' ∨ c = ' ' ∨ c = ')' := by
  rw [toList_signature, List.mem_append, List.mem_cons, List.mem_append, List.mem_singleton] at member
  rcases member with name | opening | params | closing
  · exact .inl (h.1.isAlphanum c name)
  · exact .inr (.inl opening)
  · rcases of_mem_intercalate params with space | ⟨word, present, inside⟩
    · exact .inr (.inr (.inl (List.mem_singleton.mp space)))
    · obtain ⟨param, declared, rfl⟩ := List.mem_map.mp present
      exact .inl ((h.2 param declared).isAlphanum c inside)
  · exact .inr (.inr (.inr closing))

end Prototype

namespace Entity

/-- The entities are the same but for locations and for numbers with the same brief text. -/
def Resembles : Entity → Entity → Prop
  | .declaration p, .declaration q => p.bare = q.bare
  | .function f, .function g => f.proto.bare = g.proto.bare ∧ f.body.Resembles g.body
  | _, _ => False

def heading : Entity → String
  | .declaration p => "Extern: " ++ p.signature
  | .function f => if f.isAnonymous then "TopLevelExpr" else "Function: " ++ f.proto.signature

variable {a b entity : Entity}

theorem dumpLines_eq (entity : Entity) :
    entity.dumpLines = ⟨0, entity.heading⟩ :: (entity.body?.map (Expr.dumpAt 1)).getD [] := by
  cases entity <;> rfl

theorem Within.legible_heading (h : entity.Within listed) : DumpLine.Legible ⟨0, entity.heading⟩ := by
  have signature {p : Prototype} (h : p.Within listed) : '\n' ∉ p.signature.toList := by
    intro member
    simpa using p.of_mem_signature h member
  cases entity with
  | declaration p => constructor <;> simp [heading, signature h]
  | function f =>
    obtain ⟨proto, -⟩ := h
    unfold heading
    split at proto
    · next anonymous => constructor <;> simp [anonymous]
    · next named => constructor <;> simp [named, signature proto]

theorem Within.legible (h : entity.Within listed) : ∀ line ∈ entity.dumpLines, line.Legible := by
  rw [dumpLines_eq, List.forall_mem_cons]
  refine ⟨h.legible_heading, ?_⟩
  cases entity with
  | declaration p => simp [body?]
  | function f => exact Expr.legible_dumpAt h.2 1

/-- What the heading of a function leaves out is nothing but locations. -/
theorem heading_inj {f g : Function} (h : if f.isAnonymous then f.proto.params = [] else f.proto.Within listed)
    (h' : if g.isAnonymous then g.proto.params = [] else g.proto.Within listed) :
    (function f).heading = (function g).heading ↔ f.proto.bare = g.proto.bare := by
  by_cases name : f.proto.name = "" <;> by_cases name' : g.proto.name = "" <;>
    simp only [Function.isAnonymous, Prototype.isAnonymous, name, name', decide_true, decide_false, if_true,
      Bool.false_eq_true, if_false, heading] at h h' ⊢
  · simp [Prototype.bare, name, name', h, h']
  · simp [Prototype.bare, name, Ne.symm name', ← String.toList_inj]
  · simp [Prototype.bare, name, name', ← String.toList_inj]
  · simp [Prototype.signature_inj h h']

theorem dumpLines_inj (ha : a.Within listed) (hb : b.Within listed) : a.dumpLines = b.dumpLines ↔ a.Resembles b := by
  have body {e e' : Expr} (h : e.Within listed) (h' : e'.Within listed) :
      e.dumpAt 1 = e'.dumpAt 1 ↔ e.Resembles e' := by
    simpa using @Expr.dumpAt_append_inj e e' 1 [] [] h h'
  cases a with
  | declaration p =>
    cases b with
    | declaration q => simpa [dumpLines, Resembles] using Prototype.signature_inj ha hb
    | function g =>
      simp only [dumpLines, Resembles, List.cons.injEq, DumpLine.mk.injEq, iff_false]
      split <;> simp [← String.toList_inj]
  | function f =>
    cases b with
    | declaration q =>
      simp only [dumpLines, Resembles, List.cons.injEq, DumpLine.mk.injEq, iff_false]
      split <;> simp [← String.toList_inj]
    | function g =>
      obtain ⟨proto, inner⟩ := ha
      obtain ⟨proto', inner'⟩ := hb
      simp only [dumpLines, Resembles, List.cons.injEq, DumpLine.mk.injEq, true_and, body inner inner']
      exact and_congr_left fun _ => heading_inj proto proto'

theorem Within.dump_layout (h : entity.Within listed) : ∃ nodes : List (List Nat × Expr),
    nodes.Pairwise (·.1 < ·.1) ∧
    (∀ place node, (place, node) ∈ nodes ↔ ∃ body ∈ entity.body?, body.node? place = some node) ∧
    entity.dump.toList.splitOn '\n' = entity.heading.toList :: nodes.map (fun (place, node) =>
      List.replicate (2 * (place.length + 1)) ' ' ++ node.label.toList) ∧
    ∀ label ∈ entity.heading :: nodes.map (·.2.label), label.toList.head? ≠ some ' ' := by
  have some : entity.dumpLines ≠ [] := by simp [dumpLines_eq]
  rw [dump, DumpLine.splitOn_textAll some h.legible, dumpLines_eq]
  cases entity with
  | declaration p =>
    exact ⟨[], .nil, by simp [body?], by simp [body?, DumpLine.toList_text], by simpa using h.legible_heading.setOff⟩
  | function f =>
    refine ⟨f.body.placed, f.body.pairwise_placed, ?_, ?_, ?_⟩
    · intro place node
      simp [body?, Expr.mem_placed_iff]
    · simp [body?, Expr.dumpAt_eq_map, DumpLine.toList_text, Expr.lineAt, Nat.add_comm 1]
    · refine List.forall_mem_cons.mpr ⟨h.legible_heading.setOff, ?_⟩
      intro label member
      obtain ⟨⟨place, node⟩, stands, rfl⟩ := List.mem_map.mp member
      exact ((h.2.node (Expr.mem_placed_iff.mp stands)).legible 0).setOff

end Entity

/-- The printer of dumps: the lines that it has put out, and how far in the next one is to stand. -/
structure Printer where
  lines : List String
  level : Nat

namespace Printer

def emit (label : String) (p : Printer) : Printer := { p with lines := p.lines ++ [DumpLine.text ⟨p.level, label⟩] }

def indent (p : Printer) : Printer := { p with level := p.level + 1 }

def dedent (p : Printer) : Printer := { p with level := p.level - 1 }

mutual

def visit : Expr → Printer → Printer
  | .number value at?, p => p.emit (Expr.number value at?).label
  | .var name at?, p => p.emit (Expr.var name at?).label
  | .binary op lhs rhs at?, p => (visit rhs (visit lhs (p.emit (Expr.binary op lhs rhs at?).label).indent)).dedent
  | .call callee args at?, p => (visitAll args (p.emit (Expr.call callee args at?).label).indent).dedent

def visitAll : List Expr → Printer → Printer
  | [], p => p
  | e :: rest, p => visitAll rest (visit e p)

end

def visitEntity : Entity → Printer → Printer
  | .declaration q, p => p.emit (Entity.declaration q).heading
  | .function f, p => (visit f.body (p.emit (Entity.function f).heading).indent).dedent

def clear (p : Printer) : Printer := { p with lines := [], level := 0 }

def print (p : Printer) (entity : Entity) : String × Printer :=
  let after := visitEntity entity p.clear
  ("\n".intercalate after.lines, after)

def printAll : Printer → List Entity → List String
  | _, [] => []
  | p, entity :: rest => (p.print entity).1 :: (p.print entity).2.printAll rest

mutual

/-- A visit puts the lines of the node behind those that are there, and goes as far out again as it went in. -/
theorem visit_eq : (e : Expr) → (p : Printer) →
    visit e p = ⟨p.lines ++ (e.dumpAt p.level).map DumpLine.text, p.level⟩
  | .number .., p | .var .., p => rfl
  | .binary op lhs rhs at?, p => by
    rw [visit, visit_eq rhs, visit_eq lhs]
    simp [emit, indent, dedent, Expr.dumpAt]
  | .call callee args at?, p => by
    rw [visit, visitAll_eq args]
    simp [emit, indent, dedent, Expr.dumpAt]

theorem visitAll_eq : (args : List Expr) → (p : Printer) →
    visitAll args p = ⟨p.lines ++ (Expr.dumpAllAt p.level args).map DumpLine.text, p.level⟩
  | [], p => by simp [visitAll, Expr.dumpAllAt]
  | e :: rest, p => by
    rw [visitAll, visit_eq e, visitAll_eq rest]
    simp [Expr.dumpAllAt]

end

theorem visitEntity_eq (entity : Entity) (p : Printer) : visitEntity entity p.clear =
    ⟨entity.dumpLines.map DumpLine.text, 0⟩ := by
  cases entity with
  | declaration q => rfl
  | function f =>
    rw [visitEntity, visit_eq, Entity.dumpLines_eq]
    simp [emit, indent, dedent, clear, Entity.body?]

/-- What a printer has printed before does not show. -/
theorem printAll_eq (p : Printer) (entities : List Entity) : p.printAll entities = entities.map Entity.dump := by
  induction entities generalizing p with
  | nil => rfl
  | cons entity rest ih =>
    rw [printAll, ih, print, visitEntity_eq]
    rfl

end Printer

/-- Two dumps are the same just when the entities are, but for locations and for numbers with the same brief text. A
dump has a line for the entity and one for each node of its body, in the order of their places and two spaces further in
for each level. It does not matter what else its printer has printed. -/
theorem dump_unambiguous :
    (∀ a b : Entity, a.Within listed → b.Within listed → (a.dump = b.dump ↔ a.Resembles b)) ∧
    (∀ entity : Entity, entity.Within listed → ∃ nodes : List (List Nat × Expr),
      nodes.Pairwise (·.1 < ·.1) ∧
      (∀ place node, (place, node) ∈ nodes ↔ ∃ body ∈ entity.body?, body.node? place = some node) ∧
      entity.dump.toList.splitOn '\n' = entity.heading.toList :: nodes.map (fun (place, node) =>
        List.replicate (2 * (place.length + 1)) ' ' ++ node.label.toList) ∧
      ∀ label ∈ entity.heading :: nodes.map (·.2.label), label.toList.head? ≠ some ' ') ∧
    ∀ (printer : Printer) (entities : List Entity), printer.printAll entities = entities.map Entity.dump := by
  refine ⟨?_, fun _ within => within.dump_layout, Printer.printAll_eq⟩
  intro a b ha hb
  have some (entity : Entity) : entity.dumpLines ≠ [] := by simp [Entity.dumpLines_eq]
  exact (DumpLine.textAll_inj (some a) (some b) ha.legible hb.legible).trans (Entity.dumpLines_inj ha hb)

/-- One and the next number after it look the same, and a call looks different from the sum. -/
theorem dump_unambiguous_sum :
    let one : Double := ⟨0x3FF0000000000000⟩
    let next : Double := ⟨0x3FF0000000000001⟩
    let definition (body : Expr) : Entity := .function ⟨⟨"f", ["x"], none⟩, body, none⟩
    let sum (value : Double) (at? : Option Location) := definition (.binary "+" (.var "x" none) (.number value at?) none)
    let call := definition (.call "f" [.var "x" none, .number one none] none)
    (∀ value at?, (sum value at?).Within listed) ∧ call.Within listed ∧
    (sum one none).dump = (sum next (some ⟨"sum", 1, 14⟩)).dump ∧ (sum one none).dump ≠ call.dump ∧
    ∃ nodes : List (List Nat × Expr), nodes.Pairwise (·.1 < ·.1) ∧
      (∀ place node, (place, node) ∈ nodes ↔ ∃ body ∈ call.body?, body.node? place = some node) ∧
      call.dump.toList.splitOn '\n' = call.heading.toList :: nodes.map fun (place, node) =>
        List.replicate (2 * (place.length + 1)) ' ' ++ node.label.toList := by
  intro one next definition sum call
  have f : IsWord "f" := (IsName.ofLetter (c := 'f') (by simp) rfl).word
  have x : IsWord "x" := (IsName.ofLetter (c := 'x') (by simp) rfl).word
  have proto : Prototype.Within listed ⟨"f", ["x"], none⟩ := ⟨f, by simpa [listed] using x⟩
  have sums : ∀ value at?, (sum value at?).Within listed := fun _ _ => ⟨proto, ⟨'+', rfl, by decide⟩, x, trivial⟩
  have calls : call.Within listed := ⟨proto, f, x, trivial, trivial⟩
  have brief : one.briefText = next.briefText := by decide +kernel
  obtain ⟨unambiguous, layout, -⟩ := dump_unambiguous
  obtain ⟨nodes, ordered, all, lines, -⟩ := layout call calls
  refine ⟨sums, calls, ?_, ?_, nodes, ordered, all, lines⟩
  · exact (unambiguous _ _ (sums _ _) (sums _ _)).mpr ⟨rfl, rfl, rfl, brief⟩
  · intro same
    exact ((unambiguous _ _ (sums _ _) calls).mp same).2

end Kaleidoscope
