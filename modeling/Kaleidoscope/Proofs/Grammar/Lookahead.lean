import Kaleidoscope.Proofs.Grammar.Recovery
import Kaleidoscope.Proofs.Token.Lookahead

/-! What a parser has asked for is all that its attempts depend on. Two parsers whose tokens start alike have the
same outcomes, as long as the token that an attempt leaves current is one that both have. -/
namespace Kaleidoscope

namespace StartAlike

variable {m : Nat} {final final' : Token} {tokens tokens' used rest front tail : List Token}

theorem symm (h : StartAlike m final final' tokens tokens') : StartAlike m final' final tokens' tokens := by
  obtain ⟨front, tail, tail', split, split', within, beyond, beyond'⟩ := h
  exact ⟨front, tail', tail, split', split, within, beyond', beyond⟩

theorem behind_first (h : StartAlike m final final' tokens tokens') :
    StartAlike m final final' tokens.tail tokens'.tail := by
  obtain ⟨front, tail, tail', rfl, rfl, within, beyond, beyond'⟩ := h
  cases front with
  | nil =>
    have shorter {last : Token} {tokens : List Token} (beyond : ∀ token ∈ last :: tokens, m < token.window.requests) :
        ∀ token ∈ last :: tokens.tail, m < token.window.requests :=
      fun token member => beyond token (List.cons_subset_cons last (List.tail_suffix tokens).subset member)
    exact ⟨[], tail.tail, tail'.tail, rfl, rfl, within, shorter beyond, shorter beyond'⟩
  | cons first front =>
    exact ⟨front, tail, tail', rfl, rfl, (List.forall_mem_cons.mp within).2, beyond, beyond'⟩

theorem head_cases (h : StartAlike m final final' tokens tokens') :
    (tokens'.headD final' = tokens.headD final ∧ (tokens.headD final).window.requests ≤ m) ∨
    (m < (tokens.headD final).window.requests ∧ m < (tokens'.headD final').window.requests) := by
  obtain ⟨front, tail, tail', rfl, rfl, within, beyond, beyond'⟩ := h
  cases front with
  | nil =>
    have head {last : Token} {tokens : List Token} (beyond : ∀ token ∈ last :: tokens, m < token.window.requests) :
        m < (tokens.headD last).window.requests := by
      apply beyond
      cases tokens <;> simp
    exact .inr ⟨head beyond, head beyond'⟩
  | cons first front => exact .inl ⟨rfl, within first List.mem_cons_self⟩

theorem split_front (beyond : ∀ token ∈ final :: tail, m < token.window.requests)
    (split : front ++ tail = used ++ rest) (next : (rest.headD final).window.requests ≤ m) :
    ∃ token left, front = used ++ token :: left ∧ rest = token :: left ++ tail := by
  cases rest with
  | nil => exact absurd next (Nat.not_le.mpr (beyond final List.mem_cons_self))
  | cons token rest =>
    rcases List.append_eq_append_iff.mp split with ⟨more, rfl, behind⟩ | ⟨left, rfl, behind⟩
    · have member : token ∈ tail := behind ▸ List.mem_append_right more List.mem_cons_self
      exact absurd next (Nat.not_le.mpr (beyond token (List.mem_cons_of_mem final member)))
    · cases left with
      | nil =>
        have member : token ∈ tail := by
          rw [List.nil_append] at behind
          exact behind ▸ List.mem_cons_self
        exact absurd next (Nat.not_le.mpr (beyond token (List.mem_cons_of_mem final member)))
      | cons first left =>
        obtain ⟨rfl, rfl⟩ := List.cons.inj behind
        exact ⟨token, left, rfl, rfl⟩

theorem beyond_of_suffix (within : ∀ token ∈ front, token.window.requests ≤ m)
    (beyond : ∀ token ∈ final :: tail, m < token.window.requests) (split : front ++ tail = used ++ rest)
    (next : m < (rest.headD final).window.requests) : ∀ token ∈ final :: rest, m < token.window.requests := by
  have inside : rest ⊆ tail := by
    rcases List.append_eq_append_iff.mp split with ⟨more, rfl, rfl⟩ | ⟨left, rfl, rfl⟩
    · exact List.subset_append_right more rest
    · cases left with
      | nil => exact List.Subset.refl _
      | cons first left =>
        have near := within first (by simp)
        exact absurd near (Nat.not_le.mpr next)
  exact fun token member => beyond token (List.cons_subset_cons final inside member)

end StartAlike

namespace Parser

open Grammar

/-- Two parsers have come equally far in tokens that start alike. -/
structure InStep (m : Nat) (p q : Parser) : Prop where
  table : q.table = p.table
  nesting : q.nesting = p.nesting
  started : q.started = p.started
  tokens : StartAlike m p.sequence.final q.sequence.final p.ahead q.ahead

variable {m : Nat} {p q : Parser}

theorem InStep.symm (h : InStep m p q) : InStep m q p :=
  ⟨h.table.symm, h.nesting.symm, h.started.symm, h.tokens.symm⟩

theorem InStep.current_cases (h : InStep m p q) :
    (q.current = p.current ∧ p.current.window.requests ≤ m) ∨
    (m < p.current.window.requests ∧ m < q.current.window.requests) :=
  h.tokens.head_cases

theorem InStep.advance (h : InStep m p q) : InStep m p.advance q.advance := by
  by_cases started : p.started = true
  · rw [Parser.advance, if_pos started, Parser.advance, if_pos (h.started.trans started)]
    exact ⟨h.table, h.nesting, h.started, h.tokens.behind_first⟩
  · rw [Parser.advance, if_neg started, Parser.advance, if_neg (h.started ▸ started)]
    exact ⟨h.table, h.nesting, rfl, h.tokens⟩

theorem InStep.further (h : InStep m p q)
    (tokens : StartAlike m p.sequence.final q.sequence.final p.nextEntity.2.ahead q.nextEntity.2.ahead) :
    InStep m p.nextEntity.2 q.nextEntity.2 := by
  obtain ⟨table, nesting, sequence⟩ := p.elsewhere_nextEntity
  obtain ⟨table', nesting', sequence'⟩ := q.elsewhere_nextEntity
  refine ⟨?_, ?_, ?_, ?_⟩
  · rw [table, table', h.table]
  · rw [nesting, nesting', h.nesting]
  · rw [p.nextEntity_progress.1, q.nextEntity_progress.1]
  · rwa [sequence, sequence']

/-- An attempt that leaves a token within the limit current has the same outcome for both. -/
theorem InStep.nextEntity_within (h : InStep m p q) (within : p.nextEntity.2.current.window.requests ≤ m) :
    q.nextEntity.1 = p.nextEntity.1 ∧ InStep m p.nextEntity.2 q.nextEntity.2 := by
  have levels : q.levels = p.levels := congrArg Int.toNat h.nesting
  obtain ⟨front, tail, tail', ahead, ahead', near, beyond, beyond'⟩ := h.tokens
  have further {token : Token} {left : List Token} (reached : p.nextEntity.2.ahead = token :: left ++ tail)
      (reached' : q.nextEntity.2.ahead = token :: left ++ tail') {used : List Token}
      (split : front = used ++ token :: left) : InStep m p.nextEntity.2 q.nextEntity.2 :=
    h.further ⟨token :: left, tail, tail', reached, reached',
      fun token member => near token (split ▸ List.mem_append_right used member), beyond, beyond'⟩
  rcases p.nextEntity_cases with ⟨nothing, attempt⟩ | ⟨first, rest, start, semicolon, attempt⟩ |
    ⟨entity, rest, yields, attempt⟩ | ⟨first, behind, expected, rest, p', start, other, fails, reached, attempt⟩
  · rw [attempt, current, look, nothing] at within
    exact absurd within (Nat.not_le.mpr (beyond _ List.mem_cons_self))
  · rw [attempt] at within
    have one : front ++ tail = [first] ++ rest := ahead.symm.trans start
    obtain ⟨token, left, split, rfl⟩ := StartAlike.split_front beyond one within
    have start' : q.ahead = first :: (token :: left ++ tail') := by
      rw [ahead', split, List.append_assoc]
      rfl
    have attempt' := nextEntity_separator start' semicolon
    have instep := further (by rw [attempt]) (by rw [attempt']) split
    exact ⟨by rw [attempt, attempt'], instep⟩
  · rw [attempt] at within
    obtain ⟨used, tokens, -, moved⟩ := (yields_entity_iff.mp yields).split
    obtain ⟨token, left, split, rfl⟩ := StartAlike.split_front beyond (ahead.symm.trans tokens) within
    have takes := moved (token :: left ++ tail') rfl
    rw [← List.append_assoc, ← split, ← ahead', ← h.table, ← levels] at takes
    have attempt' : q.nextEntity = (.accepted entity, { q.look with ahead := token :: left ++ tail' }) :=
      nextEntity_eq_accepted_iff.mpr ⟨takes, rfl⟩
    have instep := further (by rw [attempt]) (by rw [attempt']) split
    exact ⟨by rw [attempt, attempt'], instep⟩
  · rw [attempt, reached] at within
    obtain ⟨used, tokens, -, moved⟩ := (fails_entity_iff.mp fails).split
    obtain ⟨token, left, split, rfl⟩ := StartAlike.split_front beyond (ahead.symm.trans tokens) within
    have sticks := moved (token :: left ++ tail') rfl
    rw [← List.append_assoc, ← split, ← ahead', ← h.table, ← levels] at sticks
    obtain ⟨behind', start'⟩ : ∃ behind', q.ahead = first :: behind' := by
      obtain ⟨next, front', same⟩ : ∃ next front', front = next :: front' := by
        cases used <;> exact ⟨_, _, split⟩
      rw [ahead, same] at start
      exact ⟨front' ++ tail', by rw [ahead', same, (List.cons.inj start).1]; rfl⟩
    obtain ⟨q', reached'⟩ : ∃ q' : Parser, q' = { q.look with ahead := token :: left ++ tail' } := ⟨_, rfl⟩
    have attempt' := nextEntity_refused start' other (fails_entity_iff.mpr sticks) reached'
    have same : q'.diagnose expected = p'.diagnose expected := by
      rw [reached, reached']
      simp [diagnose, current, look, h.nesting]
    have instep := further (by rw [attempt, reached]) (by rw [attempt', reached']) split
    exact ⟨by rw [attempt, attempt', same], instep⟩

/-- Parsers in step stay in step through attempts. -/
theorem InStep.nextEntity (h : InStep m p q) : InStep m p.nextEntity.2 q.nextEntity.2 := by
  by_cases within : p.nextEntity.2.current.window.requests ≤ m
  · exact (h.nextEntity_within within).2
  by_cases within' : q.nextEntity.2.current.window.requests ≤ m
  · exact (h.symm.nextEntity_within within').2.symm
  obtain ⟨front, tail, tail', ahead, ahead', near, beyond, beyond'⟩ := h.tokens
  obtain ⟨used, split⟩ := p.nextEntity_suffix
  obtain ⟨used', split'⟩ := q.nextEntity_suffix
  have next := Nat.lt_of_not_le within
  have next' := Nat.lt_of_not_le within'
  rw [current, p.elsewhere_nextEntity.2.2] at next
  rw [current, q.elsewhere_nextEntity.2.2] at next'
  exact h.further ⟨[], _, _, rfl, rfl, by simp,
    StartAlike.beyond_of_suffix near beyond (ahead.symm.trans split.symm) next,
    StartAlike.beyond_of_suffix near beyond' (ahead'.symm.trans split'.symm) next'⟩

theorem InStep.calls (h : InStep m p q) {calls : List Call}
    (only : ∀ call ∈ calls, call = .advance ∨ call = .nextEntity) :
    InStep m (calls.foldl after p) (calls.foldl after q) := by
  induction calls generalizing p q with
  | nil => exact h
  | cons call calls ih =>
    obtain ⟨first, others⟩ := List.forall_mem_cons.mp only
    rcases first with rfl | rfl
    · exact ih h.advance others
    · exact ih h.nextEntity others

/-- On texts that start with the same characters an attempt that needs no others has the same outcome. -/
theorem attempt_congr (table : OperatorTable) (nesting : Int) (file : String) {text text' : String}
    (front : text'.toList.take m = text.toList.take m) {calls : List Call}
    (only : ∀ call ∈ calls, call = .advance ∨ call = .nextEntity) :
    let attempt (text : String) := (calls.foldl after (ofText table nesting file text)).nextEntity
    (attempt text).2.current.window.requests ≤ m →
      (attempt text').1 = (attempt text).1 ∧ (attempt text').2.current = (attempt text).2.current := by
  intro attempt within
  rcases startAlike_tokenize file front with rfl | alike
  · exact ⟨rfl, rfl⟩
  · have parsers : InStep m (ofText table nesting file text) (ofText table nesting file text') :=
      ⟨rfl, rfl, rfl, alike⟩
    obtain ⟨same, further⟩ := (parsers.calls only).nextEntity_within within
    rcases further.current_cases with ⟨current, -⟩ | ⟨beyond, -⟩
    · exact ⟨same, current⟩
    · exact absurd within (Nat.not_le.mpr beyond)

end Parser
end Kaleidoscope
