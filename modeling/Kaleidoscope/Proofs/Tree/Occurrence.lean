import Kaleidoscope.Tree.Walk

/-! Where the nodes of an expression stand. A place is the way down to a node, and places are in the order of words in
a dictionary: a node comes before its parts, and these from left to right. The calls of an expression are those of
all its places, in that order. -/
namespace Kaleidoscope.Expr

def parts : Expr → List Expr
  | .number .. | .var .. => []
  | .binary _ lhs rhs _ => [lhs, rhs]
  | .call _ args _ => args

/-- The node at a place, which says for each level the number of the part to enter. -/
def node? (e : Expr) : List Nat → Option Expr
  | [] => some e
  | i :: place => e.parts[i]?.bind fun part => part.node? place

theorem sizeOf_lt_of_mem_parts {e part : Expr} (member : part ∈ e.parts) : sizeOf part < sizeOf e := by
  cases e with
  | number | var => cases member
  | binary op lhs rhs at? =>
    simp only [parts, List.mem_cons, List.not_mem_nil, or_false] at member
    rcases member with rfl | rfl <;> simp <;> omega
  | call callee args at? =>
    have smaller : sizeOf part < sizeOf args := List.sizeOf_lt_of_mem member
    simp only [call.sizeOf_spec]
    omega

/-- What holds of a node whenever it holds of its parts holds of every expression. -/
theorem parts_induction {motive : Expr → Prop} (node : ∀ e, (∀ part ∈ e.parts, motive part) → motive e) (e : Expr) :
    motive e :=
  node e fun part _member => parts_induction node part
termination_by sizeOf e
decreasing_by exact sizeOf_lt_of_mem_parts _member

/-- Things with places in the part with this number, with their places in the whole. -/
def within {α : Type} (i : Nat) (placed : List (List Nat × α)) : List (List Nat × α) :=
  placed.map fun (place, thing) => (i :: place, thing)

mutual

/-- The nodes with their places, as a walk comes to them. -/
def placed : Expr → List (List Nat × Expr)
  | .number value at? => [([], .number value at?)]
  | .var name at? => [([], .var name at?)]
  | .binary op lhs rhs at? => ([], .binary op lhs rhs at?) :: (within 0 lhs.placed ++ within 1 rhs.placed)
  | .call callee args at? => ([], .call callee args at?) :: placedFrom 0 args

def placedFrom (first : Nat) : List Expr → List (List Nat × Expr)
  | [] => []
  | e :: rest => within first e.placed ++ placedFrom (first + 1) rest

end

variable {α : Type} {e node : Expr} {args : List Expr} {place : List Nat} {first i : Nat} {thing : α}
  {things : List (List Nat × α)}

theorem mem_within : (place, thing) ∈ within i things ↔ ∃ inner, place = i :: inner ∧ (inner, thing) ∈ things := by
  simp only [within, List.mem_map, Prod.mk.injEq, Prod.exists]
  constructor
  · intro h
    obtain ⟨inner, _, member, rfl, rfl⟩ := h
    exact ⟨inner, rfl, member⟩
  · intro h
    obtain ⟨inner, rfl, member⟩ := h
    exact ⟨inner, thing, member, rfl, rfl⟩

theorem pairwise_within (ordered : things.Pairwise (·.1 < ·.1)) : (within i things).Pairwise (·.1 < ·.1) := by
  rw [within, List.pairwise_map]
  exact ordered.imp fun before => List.Lex.cons before

theorem placed_eq (e : Expr) : e.placed = ([], e) :: placedFrom 0 e.parts := by
  cases e <;> simp [placed, placedFrom, parts]

theorem mem_placedFrom_iff : (place, node) ∈ placedFrom first args ↔
    ∃ i inner part, place = (first + i) :: inner ∧ args[i]? = some part ∧ (inner, node) ∈ part.placed := by
  induction args generalizing first with
  | nil => simp [placedFrom]
  | cons e rest ih =>
    rw [placedFrom, List.mem_append, mem_within, ih]
    constructor
    · rintro (⟨inner, rfl, member⟩ | ⟨i, inner, part, rfl, found, member⟩)
      · exact ⟨0, inner, e, rfl, rfl, member⟩
      · exact ⟨i + 1, inner, part, by rw [Nat.add_assoc, Nat.add_comm 1], found, member⟩
    · rintro ⟨i, inner, part, rfl, found, member⟩
      cases i with
      | zero =>
        obtain rfl := Option.some.inj found
        exact .inl ⟨inner, rfl, member⟩
      | succ i => exact .inr ⟨i, inner, part, by rw [Nat.add_assoc, Nat.add_comm 1], found, member⟩

theorem mem_placed_iff : (place, node) ∈ e.placed ↔ e.node? place = some node := by
  induction e using parts_induction generalizing place with
  | node e ih =>
    rw [placed_eq, List.mem_cons, mem_placedFrom_iff]
    cases place with
    | nil => simp [node?, eq_comm]
    | cons i place =>
      simp only [Prod.mk.injEq, reduceCtorEq, false_and, false_or, node?, Option.bind_eq_some_iff, Nat.zero_add,
        List.cons.injEq]
      constructor
      · rintro ⟨_, _, part, ⟨rfl, rfl⟩, found, member⟩
        exact ⟨part, found, (ih part (List.mem_of_getElem? found)).mp member⟩
      · rintro ⟨part, found, down⟩
        exact ⟨i, place, part, ⟨rfl, rfl⟩, found, (ih part (List.mem_of_getElem? found)).mpr down⟩

theorem pairwise_placedFrom (each : ∀ part ∈ args, part.placed.Pairwise (·.1 < ·.1)) (first : Nat) :
    (placedFrom first args).Pairwise (·.1 < ·.1) := by
  induction args generalizing first with
  | nil => exact .nil
  | cons e rest ih =>
    obtain ⟨here, others⟩ := List.forall_mem_cons.mp each
    refine List.pairwise_append.mpr ⟨pairwise_within here, ih others (first + 1), ?_⟩
    rintro ⟨left, _⟩ inFirst ⟨right, _⟩ inRest
    obtain ⟨_, rfl, -⟩ := mem_within.mp inFirst
    obtain ⟨i, _, _, rfl, -⟩ := mem_placedFrom_iff.mp inRest
    exact List.Lex.rel (by omega)

theorem pairwise_placed (e : Expr) : e.placed.Pairwise (·.1 < ·.1) := by
  induction e using parts_induction with
  | node e ih =>
    rw [placed_eq]
    refine List.pairwise_cons.mpr ⟨?_, pairwise_placedFrom ih 0⟩
    rintro ⟨place, _⟩ member
    obtain ⟨i, inner, _, rfl, -⟩ := mem_placedFrom_iff.mp member
    exact List.Lex.nil

section Calls

variable {site : CallSite}

def callSite? : Expr → Option CallSite
  | .call callee args at? => some ⟨callee, args.length, at?⟩
  | _ => none

def CallAt (e : Expr) (place : List Nat) (site : CallSite) : Prop :=
  ∃ node, e.node? place = some node ∧ node.callSite? = some site

mutual

/-- The calls with their places, as a walk comes to them. -/
def placedCalls : Expr → List (List Nat × CallSite)
  | .number .. | .var .. => []
  | .binary _ lhs rhs _ => within 0 lhs.placedCalls ++ within 1 rhs.placedCalls
  | .call callee args at? => ([], ⟨callee, args.length, at?⟩) :: placedCallsFrom 0 args

def placedCallsFrom (first : Nat) : List Expr → List (List Nat × CallSite)
  | [] => []
  | e :: rest => within first e.placedCalls ++ placedCallsFrom (first + 1) rest

end

theorem map_snd_within (i : Nat) (calls : List (List Nat × CallSite)) : (within i calls).map (·.2) = calls.map (·.2) := by
  simp [within]

mutual

theorem map_placedCalls : (e : Expr) → e.placedCalls.map (·.2) = e.calls
  | .number .. | .var .. => rfl
  | .binary _ lhs rhs _ => by
    simp [placedCalls, calls, map_snd_within, map_placedCalls lhs, map_placedCalls rhs]
  | .call _ args _ => by simp [placedCalls, calls, map_placedCallsFrom 0 args]

theorem map_placedCallsFrom (first : Nat) : (args : List Expr) →
    (placedCallsFrom first args).map (·.2) = callsAll args
  | [] => rfl
  | e :: rest => by
    simp [placedCallsFrom, callsAll, map_snd_within, map_placedCalls e, map_placedCallsFrom (first + 1) rest]

end

def placedCall? (placed : List Nat × Expr) : Option (List Nat × CallSite) :=
  placed.2.callSite?.map fun site => (placed.1, site)

theorem filterMap_within (i : Nat) (nodes : List (List Nat × Expr)) :
    (within i nodes).filterMap placedCall? = within i (nodes.filterMap placedCall?) := by
  rw [within, within, List.filterMap_map, List.map_filterMap]
  congr 1
  funext placed
  simp [placedCall?, Function.comp_def]

theorem placedCallsFrom_eq (each : ∀ part ∈ args, part.placedCalls = part.placed.filterMap placedCall?) (first : Nat) :
    placedCallsFrom first args = (placedFrom first args).filterMap placedCall? := by
  induction args generalizing first with
  | nil => rfl
  | cons e rest ih =>
    obtain ⟨here, others⟩ := List.forall_mem_cons.mp each
    rw [placedCallsFrom, placedFrom, List.filterMap_append, filterMap_within, here, ih others]

theorem placedCalls_eq (e : Expr) : e.placedCalls = e.placed.filterMap placedCall? := by
  induction e using parts_induction with
  | node e ih =>
    rw [placed_eq, List.filterMap_cons, ← placedCallsFrom_eq ih]
    cases e <;> simp [placedCall?, callSite?, placedCalls, placedCallsFrom, parts]

theorem pairwise_placedCalls (e : Expr) : e.placedCalls.Pairwise (·.1 < ·.1) := by
  rw [placedCalls_eq, List.pairwise_filterMap]
  refine e.pairwise_placed.imp ?_
  rintro ⟨place, node⟩ ⟨place', node'⟩ before _ found _ found'
  obtain ⟨_, -, rfl⟩ := Option.map_eq_some_iff.mp found
  obtain ⟨_, -, rfl⟩ := Option.map_eq_some_iff.mp found'
  exact before

theorem mem_placedCalls_iff (e : Expr) : (place, site) ∈ e.placedCalls ↔ e.CallAt place site := by
  rw [placedCalls_eq, List.mem_filterMap, CallAt]
  constructor
  · rintro ⟨⟨_, node⟩, member, found⟩
    obtain ⟨_, call, ⟨⟩⟩ := Option.map_eq_some_iff.mp found
    exact ⟨node, mem_placed_iff.mp member, call⟩
  · rintro ⟨node, down, call⟩
    exact ⟨(place, node), mem_placed_iff.mpr down, by simp [placedCall?, call]⟩

end Calls

section Search

variable {α : Type} {f : CallSite → Option α} {result : α}

theorem findSome?_calls (f : CallSite → Option α) (e : Expr) :
    e.calls.findSome? f = e.placedCalls.findSome? fun placed => f placed.2 := by
  rw [← map_placedCalls, List.findSome?_map]
  rfl

/-- What a search through the calls comes to first stands before all else that it could come to. -/
theorem findSome?_calls_eq_some_iff : e.calls.findSome? f = some result ↔
    ∃ place site, e.CallAt place site ∧ f site = some result ∧
      ∀ earlier other, earlier < place → e.CallAt earlier other → f other = none := by
  have ordered := pairwise_placedCalls e
  rw [findSome?_calls, List.findSome?_eq_some_iff]
  constructor
  · intro h
    obtain ⟨front, ⟨place, site⟩, back, split, found, nothing⟩ := h
    refine ⟨place, site, (mem_placedCalls_iff e).mp (by simp [split]), found, ?_⟩
    intro earlier other before stands
    rw [split, List.pairwise_append, List.pairwise_cons] at ordered
    have member := (mem_placedCalls_iff e).mpr stands
    rw [split, List.mem_append, List.mem_cons] at member
    rcases member with inFront | same | inBack
    · exact nothing _ inFront
    · cases same
      exact absurd before (List.lt_irrefl _)
    · exact absurd before (List.lt_asymm (ordered.2.1.1 _ inBack))
  · intro h
    obtain ⟨place, site, stands, found, nothing⟩ := h
    obtain ⟨front, back, split⟩ := List.append_of_mem ((mem_placedCalls_iff e).mpr stands)
    refine ⟨front, (place, site), back, split, found, ?_⟩
    intro placed inFront
    rw [split, List.pairwise_append] at ordered
    have before := ordered.2.2 placed inFront _ List.mem_cons_self
    exact nothing _ _ before ((mem_placedCalls_iff e).mp (by simp [split, inFront]))

theorem findSome?_calls_eq_none_iff : e.calls.findSome? f = none ↔
    ∀ place site, e.CallAt place site → f site = none := by
  rw [findSome?_calls, List.findSome?_eq_none_iff]
  constructor
  · intro nothing place site stands
    exact nothing _ ((mem_placedCalls_iff e).mpr stands)
  · intro nothing placed member
    exact nothing _ _ ((mem_placedCalls_iff e).mp member)

end Search

end Kaleidoscope.Expr
