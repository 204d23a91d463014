import Kaleidoscope.Grammar.Chain

/-! The tree of an operator chain is the one that splits the chain at its rightmost operator of least
precedence. The waiting operators are what makes the two agree: an operator that is looser than all
before it takes the whole of them as its left operand, and tighter ones after it leave it waiting. -/
namespace Kaleidoscope.Chain

/-- The rightmost link of least precedence, with the links before and behind it. -/
def pivot? : List Link → Option (List Link × Link × List Link)
  | [] => none
  | link :: links =>
    match pivot? links with
    | none => some ([], link, [])
    | some (before, least, behind) =>
      if link.precedence < least.precedence then some ([], link, links)
      else some (link :: before, least, behind)

structure Pivot (links before : List Link) (link : Link) (behind : List Link) : Prop where
  split : links = before ++ link :: behind
  least : ∀ other ∈ before, link.precedence ≤ other.precedence
  rightmost : ∀ other ∈ behind, link.precedence < other.precedence

theorem pivot?_eq_none {links : List Link} : pivot? links = none ↔ links = [] := by
  cases links with
  | nil => simp [pivot?]
  | cons link links =>
    simp only [pivot?]
    split
    · simp
    · split <;> simp

theorem pivot_of_pivot? {links before behind : List Link} {link : Link}
    (h : pivot? links = some (before, link, behind)) : Pivot links before link behind := by
  induction links generalizing before link behind with
  | nil => cases h
  | cons first links ih =>
    simp only [pivot?] at h
    cases found : pivot? links with
    | none =>
      rw [found] at h
      obtain rfl := pivot?_eq_none.mp found
      cases h
      exact ⟨rfl, by simp, by simp⟩
    | some pivot =>
      obtain ⟨before', least, behind'⟩ := pivot
      have inner := ih found
      rw [found] at h
      simp only at h
      split at h
      · next looser =>
        cases h
        refine ⟨rfl, by simp, fun other member => ?_⟩
        rw [inner.split] at member
        rcases List.mem_append.mp member with old | new
        · exact Int.lt_of_lt_of_le looser (inner.least other old)
        · rcases List.mem_cons.mp new with rfl | new
          · exact looser
          · exact Int.lt_trans looser (inner.rightmost other new)
      · next tighter =>
        cases h
        refine ⟨by rw [inner.split]; rfl, fun other member => ?_, inner.rightmost⟩
        rcases List.mem_cons.mp member with rfl | member
        · exact Int.not_lt.mp tighter
        · exact inner.least other member

theorem exists_pivot {links : List Link} (some : links ≠ []) :
    ∃ before link behind, pivot? links = .some (before, link, behind) := by
  cases found : pivot? links with
  | none => exact absurd (pivot?_eq_none.mp found) some
  | some pivot => exact ⟨_, _, _, rfl⟩

theorem Pivot.not_before {links before behind more behind' : List Link} {link link' : Link}
    (p : Pivot links before link behind) (q : Pivot links (before ++ link :: more) link' behind')
    (later : behind = more ++ link' :: behind') : False := by
  have atMost := q.least link (by simp)
  have above := p.rightmost link' (by simp [later])
  omega

theorem Pivot.unique {links before before' behind behind' : List Link} {link link' : Link}
    (p : Pivot links before link behind) (q : Pivot links before' link' behind') :
    before = before' ∧ link = link' ∧ behind = behind' := by
  have same := p.split.symm.trans q.split
  rcases List.append_eq_append_iff.mp same with ⟨more, rfl, tail⟩ | ⟨more, rfl, tail⟩
  · cases more with
    | nil => simpa using tail
    | cons other more =>
      obtain ⟨rfl, later⟩ := List.cons.inj tail
      exact (p.not_before q later).elim
  · cases more with
    | nil => simpa [eq_comm] using tail
    | cons other more =>
      obtain ⟨rfl, later⟩ := List.cons.inj tail
      exact (q.not_before p later).elim

theorem pivot?_eq_some_iff {links before behind : List Link} {link : Link} :
    pivot? links = some (before, link, behind) ↔ Pivot links before link behind := by
  constructor
  · exact pivot_of_pivot?
  · intro pivot
    have some : links ≠ [] := by
      rw [pivot.split]
      simp
    obtain ⟨before', link', behind', found⟩ := exists_pivot some
    obtain ⟨rfl, rfl, rfl⟩ := pivot.unique (pivot_of_pivot? found)
    exact found

/-- The reference tree: an operand alone is itself, and a longer chain is divided at its pivot. -/
def reference (operand : Expr) (links : List Link) : Expr :=
  match _found : pivot? links with
  | none => operand
  | some (before, link, behind) =>
    join (reference operand before) link.op (reference link.operand behind)
termination_by links.length
decreasing_by
  all_goals
    have split := congrArg List.length (pivot_of_pivot? _found).split
    simp only [List.length_append, List.length_cons] at split
    omega

@[simp] theorem reference_nil (operand : Expr) : reference operand [] = operand := by
  unfold reference
  rfl

theorem reference_pivot {links before behind : List Link} {link : Link}
    (pivot : Pivot links before link behind) (operand : Expr) :
    reference operand links =
      join (reference operand before) link.op (reference link.operand behind) := by
  have found := pivot?_eq_some_iff.mpr pivot
  rw [reference]
  split
  · next none => rw [found] at none; cases none
  · next some =>
    rw [found] at some
    cases some
    rfl

theorem build_cons (waiting : List Waiting) (operand : Expr) (link : Link) (links : List Link) :
    build waiting operand (link :: links) =
      build (⟨(reduce link.precedence operand waiting).1, link.op, link.precedence⟩ ::
        (reduce link.precedence operand waiting).2) link.operand links := rfl

/-- Operators that are all at least as tight give way to one that is no tighter. -/
theorem reduce_all {precedence : Int} {waiting : List Waiting}
    (tight : ∀ w ∈ waiting, precedence ≤ w.precedence) (operand : Expr) :
    reduce precedence operand waiting = (build waiting operand [], []) := by
  induction waiting generalizing operand with
  | nil => rfl
  | cons w waiting ih =>
    have first : ¬ w.precedence < precedence := Int.not_lt.mpr (tight w List.mem_cons_self)
    rw [reduce, if_neg first, ih fun w member => tight w (List.mem_cons_of_mem _ member)]
    rfl

theorem mem_of_mem_reduce {precedence : Int} {operand : Expr} {waiting : List Waiting} {w : Waiting}
    (member : w ∈ (reduce precedence operand waiting).2) : w ∈ waiting := by
  induction waiting generalizing operand with
  | nil => exact member
  | cons first waiting ih =>
    rw [reduce] at member
    split at member
    · exact member
    · exact List.mem_cons_of_mem _ (ih member)

/-- A tighter operator leaves the outer ones waiting. -/
theorem reduce_append {precedence : Int} {outer : List Waiting}
    (loose : ∀ w ∈ outer, w.precedence < precedence) (inner : List Waiting) (operand : Expr) :
    reduce precedence operand (inner ++ outer) =
      ((reduce precedence operand inner).1, (reduce precedence operand inner).2 ++ outer) := by
  induction inner generalizing operand with
  | nil =>
    cases outer with
    | nil => rfl
    | cons w outer => simp [reduce, loose w List.mem_cons_self]
  | cons w inner ih =>
    simp only [List.cons_append, reduce]
    split
    · rfl
    · exact ih _

/-- What stands behind a waiting operator is a chain of its own as long as it is tighter. -/
theorem build_append {outer : List Waiting} {links : List Link}
    (tight : ∀ link ∈ links, ∀ w ∈ outer, w.precedence < link.precedence)
    (inner : List Waiting) (operand : Expr) :
    build (inner ++ outer) operand links = build outer (build inner operand links) [] := by
  induction links generalizing inner operand with
  | nil => simp [build]
  | cons link links ih =>
    have later : ∀ link ∈ links, ∀ w ∈ outer, w.precedence < link.precedence :=
      fun link member => tight link (List.mem_cons_of_mem _ member)
    rw [build_cons, build_cons, reduce_append (tight link List.mem_cons_self)]
    exact ih later (_ :: _) link.operand

/-- An operator that is no tighter than all before it takes the whole of them as its left operand. -/
theorem build_upTo {link : Link} {before : List Link}
    (tight : ∀ other ∈ before, link.precedence ≤ other.precedence) (behind : List Link)
    {waiting : List Waiting} (waits : ∀ w ∈ waiting, link.precedence ≤ w.precedence)
    (operand : Expr) :
    build waiting operand (before ++ link :: behind) =
      build [⟨build waiting operand before, link.op, link.precedence⟩] link.operand behind := by
  induction before generalizing waiting operand with
  | nil => rw [List.nil_append, build_cons, reduce_all waits]
  | cons other before ih =>
    have later : ∀ other ∈ before, link.precedence ≤ other.precedence :=
      fun other member => tight other (List.mem_cons_of_mem _ member)
    rw [List.cons_append, build_cons, build_cons]
    apply ih later
    intro w member
    rcases List.mem_cons.mp member with rfl | member
    · exact tight other List.mem_cons_self
    · exact waits w (mem_of_mem_reduce member)

theorem tree_pivot {links before behind : List Link} {link : Link}
    (pivot : Pivot links before link behind) (operand : Expr) :
    tree operand links = join (tree operand before) link.op (tree link.operand behind) := by
  have inner : ∀ other ∈ behind, ∀ w ∈ [Waiting.mk (tree operand before) link.op link.precedence],
      w.precedence < other.precedence := by
    intro other member w waits
    rw [List.mem_singleton.mp waits]
    exact pivot.rightmost other member
  calc tree operand links
      = build [] operand (before ++ link :: behind) := by rw [tree, pivot.split]
    _ = build [⟨tree operand before, link.op, link.precedence⟩] link.operand behind :=
        build_upTo pivot.least behind (by simp) operand
    _ = join (tree operand before) link.op (tree link.operand behind) :=
        build_append inner [] link.operand

/-- Tighter operators behind an operand take it first, and what they make of it is the operand of a looser one. -/
theorem tree_grouped {link : Link} {inner outer : List Link}
    (tight : ∀ other ∈ inner, link.precedence < other.precedence)
    (loose : ∀ other ∈ outer.head?, other.precedence ≤ link.precedence) (operand : Expr) :
    tree operand (link :: inner ++ outer) = tree (join operand link.op (tree link.operand inner)) outer := by
  let waiting : List Waiting := [⟨operand, link.op, link.precedence⟩]
  have waits : ∀ other ∈ inner, ∀ w ∈ waiting, w.precedence < other.precedence := by simpa [waiting] using tight
  have alone : build waiting link.operand inner = join operand link.op (tree link.operand inner) :=
    build_append waits [] link.operand
  cases outer with
  | nil =>
    rw [List.append_nil]
    exact alone
  | cons next outer =>
    have loose : next.precedence ≤ link.precedence := loose next rfl
    have above : ∀ other ∈ inner, next.precedence ≤ other.precedence := by
      intro other member
      exact Int.le_of_lt (Int.lt_of_le_of_lt loose (tight other member))
    have tighter : ∀ w ∈ waiting, next.precedence ≤ w.precedence := by simpa [waiting] using loose
    calc tree operand (link :: inner ++ next :: outer)
        = build waiting link.operand (inner ++ next :: outer) := rfl
      _ = build [⟨build waiting link.operand inner, next.op, next.precedence⟩] next.operand outer :=
          build_upTo above outer tighter link.operand
      _ = tree (join operand link.op (tree link.operand inner)) (next :: outer) := by
          rw [alone]
          rfl

/-- Left to right, with operators waiting for their operands, gives the tree that is divided at pivots. -/
theorem tree_eq_reference (operand : Expr) (links : List Link) :
    tree operand links = reference operand links := by
  induction operand, links using reference.induct with
  | case1 operand links found =>
    obtain rfl := pivot?_eq_none.mp found
    rw [reference_nil]
    rfl
  | case2 operand links before link behind found left right =>
    have pivot := pivot_of_pivot? found
    rw [tree_pivot pivot, reference_pivot pivot, left, right]

/-- The operators and operands of an expression, from left to right, are those of a chain; to the left of
each operator stand none that are looser, and to its right only tighter ones. -/
inductive Arranged : Expr → Expr → List Link → Prop where
  | operand : Arranged operand operand []
  | operation (left : Arranged lhs operand before) (right : Arranged rhs link.operand behind)
      (pivot : Pivot links before link behind) : Arranged (join lhs link.op rhs) operand links

theorem arranged_reference (operand : Expr) (links : List Link) :
    Arranged (reference operand links) operand links := by
  induction operand, links using reference.induct with
  | case1 operand links found =>
    obtain rfl := pivot?_eq_none.mp found
    rw [reference_nil]
    exact .operand
  | case2 operand links before link behind found left right =>
    have pivot := pivot_of_pivot? found
    rw [reference_pivot pivot]
    exact .operation left right pivot

end Kaleidoscope.Chain
