import Kaleidoscope.Proofs.Token.Layout
import Kaleidoscope.Proofs.Token.Streaming

/-! What a lexer has asked for is all that its tokens depend on. On two texts that start with the same characters
two lexers do the same until one of them asks for a character behind these. -/
namespace Kaleidoscope

namespace Lexer

variable {m : Nat} {l l' : Lexer} {inside : Char → Bool}

/-- The lexers have come equally far, and what their sources will hand over is the same up to `m` calls in all. -/
structure InStep (m : Nat) (l l' : Lexer) : Prop where
  same : l' = { l with source := l'.source }
  front : l'.source.take (m - l.calls) = l.source.take (m - l.calls)

theorem calls_fetch (l : Lexer) : l.fetch.calls = l.calls + 1 := by
  cases source : l.source <;> simp [fetch, source]

theorem calls_collect_le (inside : Char → Bool) (l : Lexer) : l.calls ≤ (l.collect inside).2.calls := by
  induction l using collect.induct inside with
  | case1 l held => rw [collect_none held]
  | case2 l c held taken ih =>
    rw [collect_some held, if_pos taken]
    exact Nat.le_trans (Nat.le_of_lt (l.calls_fetch ▸ Nat.lt_succ_self _)) ih
  | case3 l c held other => rw [collect_some held, if_neg other]

theorem InStep.held (h : InStep m l l') : l'.held = l.held := by
  rw [h.same]

theorem InStep.fetch (h : InStep m l l') (within : l.fetch.calls ≤ m) : InStep m l.fetch l'.fetch := by
  obtain ⟨same, front⟩ := h
  rw [calls_fetch] at within
  obtain ⟨more, limit⟩ : ∃ more, m - l.calls = more + 1 := ⟨m - l.calls - 1, by omega⟩
  have left : m - l.fetch.calls = more := by
    rw [calls_fetch]
    omega
  rw [limit] at front
  rw [same]
  generalize l'.source = source' at front
  cases source : l.source with
  | nil =>
    obtain rfl : source' = [] := by simpa [source] using front
    exact ⟨by simp [Lexer.fetch, source], by simp [Lexer.fetch, source]⟩
  | cons c rest =>
    rw [source, List.take_succ_cons] at front
    obtain ⟨rest', rfl⟩ : ∃ rest', source' = c :: rest' := by
      cases source' with
      | nil => cases front
      | cons d rest' => exact ⟨rest', by rw [(List.cons.inj front).1]⟩
    refine ⟨by simp [Lexer.fetch, source], ?_⟩
    rw [left]
    simpa [Lexer.fetch, source] using front

theorem InStep.collect (h : InStep m l l') (within : (l.collect inside).2.calls ≤ m) :
    (l'.collect inside).1 = (l.collect inside).1 ∧ InStep m (l.collect inside).2 (l'.collect inside).2 := by
  induction l using collect.induct inside generalizing l' with
  | case1 l held =>
    rw [collect_none held, collect_none (h.held.trans held)]
    exact ⟨rfl, h⟩
  | case2 l c held taken ih =>
    rw [collect_some held, if_pos taken] at within ⊢
    rw [collect_some (h.held.trans held), if_pos taken]
    obtain ⟨chars, further⟩ := ih (h.fetch (Nat.le_trans (calls_collect_le inside l.fetch) within)) within
    exact ⟨congrArg (c :: ·) chars, further⟩
  | case3 l c held other =>
    rw [collect_some held, if_neg other, collect_some (h.held.trans held), if_neg other]
    exact ⟨rfl, h⟩

theorem InStep.place (h : InStep m l l') : l'.place = l.place := by
  rw [h.same]
  rfl

theorem InStep.window (h : InStep m l l') : l'.window = l.window := by
  rw [h.same]

theorem InStep.calls (h : InStep m l l') : l'.calls = l.calls := by
  rw [h.same]

theorem InStep.warnings (h : InStep m l l') : l'.warnings = l.warnings := by
  rw [h.same]

theorem InStep.warn (h : InStep m l l') (warning? : Option String) :
    InStep m (l.warn warning?) (l'.warn warning?) where
  same := by
    rw [h.same]
    rfl
  front := h.front

/-- A token that starts with the character that is held needs at least one more call. -/
theorem calls_fetch_le_scan (l : Lexer) (c : Char) : l.fetch.calls ≤ (l.scan c).2.calls := by
  unfold scan
  split
  · exact calls_collect_le _ _
  · split
    · exact calls_collect_le _ _
    · exact Nat.le_refl _

theorem InStep.scan {c : Char} (h : InStep m l l') (within : (l.scan c).2.calls ≤ m) :
    (l'.scan c).1 = (l.scan c).1 ∧ InStep m (l.scan c).2 (l'.scan c).2 := by
  have fetched := h.fetch (Nat.le_trans (l.calls_fetch_le_scan c) within)
  by_cases alpha : c.isAlpha = true
  · simp only [Lexer.scan, alpha, if_true] at within ⊢
    obtain ⟨chars, further⟩ := fetched.collect within
    exact ⟨by rw [chars, h.place, further.window], further⟩
  by_cases numeral : isNumeral c = true
  · simp only [Lexer.scan, alpha, numeral, Bool.false_eq_true, if_true, if_false] at within ⊢
    obtain ⟨chars, further⟩ := fetched.collect within
    rw [chars, h.place, further.window]
    exact ⟨rfl, further.warn _⟩
  · simp only [Lexer.scan, alpha, numeral, Bool.false_eq_true, if_false] at within ⊢
    exact ⟨by rw [h.place, fetched.window], fetched⟩

theorem calls_passed_le_next (l : Lexer) : (l.collect isLayout).2.calls ≤ l.next.2.calls := by
  induction l using next.induct with
  | case1 l held =>
    rw [next_eq rfl, held]
  | case2 l held ih =>
    rw [next_eq rfl]
    simp only [held, if_true]
    have fetched := calls_fetch (l.collect isLayout).2
    have commented := calls_collect_le (!endsComment ·) (l.collect isLayout).2.fetch
    have passed := calls_collect_le isLayout ((l.collect isLayout).2.fetch.collect (!endsComment ·)).2
    omega
  | case3 l c held other =>
    rw [next_eq rfl]
    simp only [held, other, if_false]
    have fetched := calls_fetch (l.collect isLayout).2
    have scanned := calls_fetch_le_scan (l.collect isLayout).2 c
    omega

theorem calls_le_next (l : Lexer) : l.calls ≤ l.next.2.calls :=
  Nat.le_trans (calls_collect_le isLayout l) l.calls_passed_le_next

/-- As long as the calls for it are within the limit, the next token is the same for both. -/
theorem InStep.next (h : InStep m l l') (within : l.next.2.calls ≤ m) :
    l'.next.1 = l.next.1 ∧ InStep m l.next.2 l'.next.2 := by
  induction l using next.induct generalizing l' with
  | case1 l held =>
    obtain ⟨-, passed⟩ := h.collect (Nat.le_trans l.calls_passed_le_next within)
    rw [next_eq (l := l) rfl, next_eq (l := l') rfl, passed.held, held]
    exact ⟨by rw [passed.place, passed.window], passed⟩
  | case2 l held ih =>
    obtain ⟨-, passed⟩ := h.collect (Nat.le_trans l.calls_passed_le_next within)
    rw [next_eq (l := l) rfl, held] at within ⊢
    rw [next_eq (l := l') rfl, passed.held, held]
    simp only [if_true] at within ⊢
    have commented := Nat.le_trans (calls_le_next _) within
    have fetched := passed.fetch (Nat.le_trans (calls_collect_le _ _) commented)
    exact ih (fetched.collect commented).2 within
  | case3 l c held other =>
    obtain ⟨-, passed⟩ := h.collect (Nat.le_trans l.calls_passed_le_next within)
    rw [next_eq (l := l) rfl, held] at within ⊢
    rw [next_eq (l := l') rfl, passed.held, held]
    simp only [other, if_false] at within ⊢
    exact passed.scan within

theorem calls_next_le_pulled (l : Lexer) (i : Nat) : l.next.2.calls ≤ (l.pulled i).2.calls := by
  induction i generalizing l with
  | zero => exact Nat.le_refl _
  | succ i ih => exact Nat.le_trans (calls_le_next _) (ih l.next.2)

theorem calls_le_pulled (l : Lexer) (i : Nat) : l.calls ≤ (l.pulled i).2.calls :=
  Nat.le_trans l.calls_le_next (l.calls_next_le_pulled i)

theorem calls_pulled_mono (l : Lexer) {i j : Nat} (before : i ≤ j) :
    (l.pulled i).2.calls ≤ (l.pulled j).2.calls := by
  induction i generalizing l j with
  | zero => exact l.calls_next_le_pulled j
  | succ i ih =>
    obtain ⟨j, rfl⟩ := Nat.exists_eq_succ_of_ne_zero (Nat.ne_of_gt (Nat.lt_of_lt_of_le (Nat.succ_pos i) before))
    exact ih l.next.2 (Nat.le_of_succ_le_succ before)

theorem InStep.pulled (h : InStep m l l') {i : Nat} (within : (l.pulled i).2.calls ≤ m) :
    (l'.pulled i).1 = (l.pulled i).1 ∧ InStep m (l.pulled i).2 (l'.pulled i).2 := by
  induction i generalizing l l' with
  | zero => exact h.next within
  | succ i ih => exact ih (h.next (Nat.le_trans (l.next.2.calls_le_pulled i) within)).2 within

theorem inStep_start (file : String) {text text' : String}
    (front : text'.toList.take m = text.toList.take m) : InStep m (start file text) (start file text') :=
  ⟨rfl, front⟩

end Lexer

section Lists

variable {α : Type} {p : α → Bool}

/-- Lists whose elements of a kind stand at the same places start with the same ones of them. -/
theorem takeWhile_congr {all others : List α}
    (same : ∀ (i : Nat) (a : α), all[i]? = some a → p a = true → others[i]? = some a)
    (same' : ∀ (i : Nat) (a : α), others[i]? = some a → p a = true → all[i]? = some a) :
    others.takeWhile p = all.takeWhile p := by
  induction all generalizing others with
  | nil =>
    cases others with
    | nil => rfl
    | cons b others =>
      by_cases kind : p b = true
      · simpa using same' 0 b rfl kind
      · simp [kind]
  | cons a all ih =>
    by_cases kind : p a = true
    · obtain ⟨others, rfl⟩ : ∃ rest, others = a :: rest :=
        List.head?_eq_some_iff.mp (List.head?_eq_getElem?.trans (same 0 a rfl kind))
      have rest := ih (fun i => same (i + 1)) (fun i => same' (i + 1))
      rw [List.takeWhile_cons_of_pos kind, List.takeWhile_cons_of_pos kind, rest]
    · rw [List.takeWhile_cons_of_neg kind]
      cases others with
      | nil => rfl
      | cons b others =>
        by_cases kind' : p b = true
        · obtain rfl : a = b := by simpa using same' 0 b rfl kind'
          exact absurd kind' kind
        · rw [List.takeWhile_cons_of_neg kind']

end Lists

/-- Both start with the same tokens, which are complete within so many requests, and all others are not. -/
def StartAlike (m : Nat) (final final' : Token) (tokens tokens' : List Token) : Prop :=
  ∃ front tail tail', tokens = front ++ tail ∧ tokens' = front ++ tail' ∧
    (∀ token ∈ front, token.window.requests ≤ m) ∧ (∀ token ∈ final :: tail, m < token.window.requests) ∧
      ∀ token ∈ final' :: tail', m < token.window.requests

section Text

variable {file text text' : String} {m : Nat}

theorem requests_final (file text : String) :
    (tokenize file text).final.window.requests = text.toList.length + 1 := by
  have last : (tokenize file text).final.window = (SitedText.ofText text).ending := rfl
  have reading : (text.toList.foldl Window.read .start).atEnd = false := Window.atEnd_foldl_read .start _
  rw [last, SitedText.ending_ofText, Window.requests_close reading, Window.requests_foldl_read]
  exact congrArg (· + 1) (Nat.zero_add _)

theorem pulled_of_getElem? {i : Nat} {token : Token} (found : (tokenize file text).tokens[i]? = some token) :
    ((Lexer.start file text).pulled i).1 = token ∧
      ((Lexer.start file text).pulled i).2.calls = token.window.requests := by
  obtain ⟨_, decomposes⟩ := exists_decomposes text.toList
  obtain ⟨pieces, division⟩ := decomposes.exists_longestMatch
  obtain ⟨said, requests, -⟩ := Lexer.pulled_start file division i
  rw [found] at said
  exact ⟨said, by rw [← requests, said]; rfl⟩

theorem pairwise_requests (file text : String) :
    (tokenize file text).tokens.Pairwise (fun a b => a.window.requests ≤ b.window.requests) := by
  apply List.pairwise_iff_getElem.mpr
  intro i j hi hj before
  rw [← (pulled_of_getElem? (List.getElem?_eq_getElem hi)).2, ← (pulled_of_getElem? (List.getElem?_eq_getElem hj)).2]
  exact Lexer.calls_pulled_mono _ (Nat.le_of_lt before)

/-- A token within the limit stands at the same place in both texts, if the end of neither is within it. -/
theorem getElem?_congr (front : text'.toList.take m = text.toList.take m) (long : m ≤ text'.toList.length) {i : Nat}
    {token : Token} (found : (tokenize file text).tokens[i]? = some token) (within : token.window.requests ≤ m) :
    (tokenize file text').tokens[i]? = some token := by
  obtain ⟨said, requests⟩ := pulled_of_getElem? found
  obtain ⟨same, -⟩ := (Lexer.inStep_start file front).pulled (Nat.le_trans (Nat.le_of_eq requests) within)
  obtain ⟨_, decomposes⟩ := exists_decomposes text'.toList
  obtain ⟨pieces, division⟩ := decomposes.exists_longestMatch
  obtain ⟨said', -⟩ := Lexer.pulled_start file division i
  rw [same, said] at said'
  cases found' : (tokenize file text').tokens[i]? with
  | some token' =>
    rw [found'] at said'
    rw [said']
    rfl
  | none =>
    rw [found'] at said'
    have last : token.window.requests = text'.toList.length + 1 := by
      rw [said', ← requests_final file text']
      rfl
    omega

theorem lt_requests_of_mem_dropWhile {tokens : List Token}
    (ordered : tokens.Pairwise (fun a b => a.window.requests ≤ b.window.requests)) :
    ∀ token ∈ tokens.dropWhile (·.window.requests ≤ m), m < token.window.requests := by
  induction tokens with
  | nil => simp
  | cons first tokens ih =>
    obtain ⟨above, ordered⟩ := List.pairwise_cons.mp ordered
    by_cases within : first.window.requests ≤ m
    · rw [List.dropWhile_cons_of_pos (by simpa using within)]
      exact ih ordered
    · rw [List.dropWhile_cons_of_neg (by simpa using within)]
      refine List.forall_mem_cons.mpr ⟨Nat.lt_of_not_le within, fun token member => ?_⟩
      exact Nat.lt_of_lt_of_le (Nat.lt_of_not_le within) (above token member)

theorem eq_of_take_eq (front : text'.toList.take m = text.toList.take m) (short : text.toList.length < m) :
    text' = text := by
  rw [List.take_of_length_le (Nat.le_of_lt short)] at front
  have length := congrArg List.length front
  rw [List.length_take] at length
  rw [List.take_of_length_le (by omega)] at front
  exact String.toList_injective front

/-- The tokens of texts that start with the same characters start alike, if the texts are not the same. -/
theorem startAlike_tokenize (file : String) (front : text'.toList.take m = text.toList.take m) :
    text' = text ∨ StartAlike m (tokenize file text).final (tokenize file text').final (tokenize file text).tokens
      (tokenize file text').tokens := by
  by_cases short : text.toList.length < m
  · exact .inl (eq_of_take_eq front short)
  by_cases short' : text'.toList.length < m
  · exact .inl (eq_of_take_eq front.symm short').symm
  have long : m < (tokenize file text).final.window.requests := by
    rw [requests_final]
    omega
  have long' : m < (tokenize file text').final.window.requests := by
    rw [requests_final]
    omega
  let within (token : Token) : Bool := token.window.requests ≤ m
  have same : (tokenize file text').tokens.takeWhile within = (tokenize file text).tokens.takeWhile within := by
    apply takeWhile_congr
    · intro i token found inside
      exact getElem?_congr front (Nat.le_of_not_lt short') found (by simpa [within] using inside)
    · intro i token found inside
      exact getElem?_congr front.symm (Nat.le_of_not_lt short) found (by simpa [within] using inside)
  refine .inr ⟨(tokenize file text).tokens.takeWhile within, (tokenize file text).tokens.dropWhile within,
    (tokenize file text').tokens.dropWhile within, List.takeWhile_append_dropWhile.symm, ?_, ?_, ?_, ?_⟩
  · rw [← same]
    exact List.takeWhile_append_dropWhile.symm
  · intro token member
    simpa [within] using List.mem_takeWhile_imp member
  · exact List.forall_mem_cons.mpr ⟨long, lt_requests_of_mem_dropWhile (pairwise_requests file text)⟩
  · exact List.forall_mem_cons.mpr ⟨long', lt_requests_of_mem_dropWhile (pairwise_requests file text')⟩

end Text
end Kaleidoscope
