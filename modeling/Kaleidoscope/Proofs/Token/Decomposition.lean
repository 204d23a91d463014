import Mathlib.Data.List.TakeWhile
import Kaleidoscope.Operator.Table
import Kaleidoscope.Token.Scan

/-! How a text falls into tokens, apart from where they stand. Blanks and comments are passed over, words
and numerals are as long as they can be, and every other character is a token by itself; each text can be
taken apart in just one way, which is the way the scanner takes it apart. -/
namespace Kaleidoscope

def Stops (inside : Char → Bool) (text : List Char) : Prop :=
  ∀ c ∈ text.head?, inside c = false

/-- What the spelling of a number says, and that spelling if only a part of it can be read. -/
def numeralToken (spelling : List Char) : Lexeme × Option String :=
  let literal := Literal.ofText spelling
  (.number literal.value, if literal.isExact then none else some (String.ofList spelling))

/-- The characters of a text fall into these lexemes, each with its spelling if it is a misspelt number. -/
inductive Decomposes : List Char → List (Lexeme × Option String) → Prop where
  | done : Decomposes [] []
  | layout (blank : isLayout c = true) (behind : Decomposes text lexemes) :
      Decomposes (c :: text) lexemes
  | comment (inside : ∀ c ∈ body, endsComment c = false) (ends : Stops (!endsComment ·) text)
      (behind : Decomposes text lexemes) : Decomposes ('#' :: (body ++ text)) lexemes
  | word (first : c.isAlpha = true) (inside : ∀ d ∈ body, d.isAlphanum = true)
      (ends : Stops Char.isAlphanum text) (behind : Decomposes text lexemes) :
      Decomposes (c :: (body ++ text)) ((.ofWord (String.ofList (c :: body)), none) :: lexemes)
  | numeral (first : isNumeral c = true) (inside : ∀ d ∈ body, isNumeral d = true)
      (ends : Stops isNumeral text) (behind : Decomposes text lexemes) :
      Decomposes (c :: (body ++ text)) (numeralToken (c :: body) :: lexemes)
  | lone (alone : isLoneCharacter c = true) (behind : Decomposes text lexemes) :
      Decomposes (c :: text) ((.character c, none) :: lexemes)

theorem stops_dropWhile (inside : Char → Bool) (text : List Char) :
    Stops inside (text.dropWhile inside) := by
  intro c first
  have := List.head?_dropWhile_not inside text
  rw [Option.mem_def.mp first] at this
  simpa using this

theorem start_cases (c : Char) :
    isLayout c = true ∨ c = '#' ∨ c.isAlpha = true ∨ isNumeral c = true ∨ isLoneCharacter c = true := by
  by_cases lone : isLoneCharacter c = true
  · exact .inr (.inr (.inr (.inr lone)))
  · simp only [isLoneCharacter, Char.isAlphanum, Bool.not_eq_true', Bool.not_eq_false, Bool.or_eq_true,
      beq_iff_eq] at lone
    simp only [isNumeral, Bool.or_eq_true, beq_iff_eq]
    rcases lone with (((alpha | digit) | blank) | point) | hash
    · exact .inr (.inr (.inl alpha))
    · exact .inr (.inr (.inr (.inl (.inl digit))))
    · exact .inl blank
    · exact .inr (.inr (.inr (.inl (.inr point))))
    · exact .inr (.inl hash)

theorem exists_decomposes (text : List Char) : ∃ lexemes, Decomposes text lexemes := by
  induction length : text.length using Nat.strongRecOn generalizing text with
  | ind n ih =>
    subst length
    cases text with
    | nil => exact ⟨[], .done⟩
    | cons c text =>
      have behind (inside : Char → Bool) : ∃ lexemes, Decomposes (text.dropWhile inside) lexemes :=
        ih _ (Nat.lt_succ_of_le (List.dropWhile_suffix _).length_le) _ rfl
      have split (inside : Char → Bool) : text = text.takeWhile inside ++ text.dropWhile inside :=
        List.takeWhile_append_dropWhile.symm
      obtain ⟨lexemes, all⟩ := ih _ (Nat.lt_succ_self _) text rfl
      rcases start_cases c with blank | rfl | alpha | numeral | lone
      · exact ⟨lexemes, .layout blank all⟩
      · obtain ⟨lexemes, decomposes⟩ := behind (!endsComment ·)
        rw [split (!endsComment ·)]
        exact ⟨lexemes, .comment (fun c member => by simpa using List.mem_takeWhile_imp member)
          (stops_dropWhile _ _) decomposes⟩
      · obtain ⟨lexemes, decomposes⟩ := behind Char.isAlphanum
        rw [split Char.isAlphanum]
        exact ⟨_, .word alpha (fun c member => List.mem_takeWhile_imp member) (stops_dropWhile _ _) decomposes⟩
      · obtain ⟨lexemes, decomposes⟩ := behind isNumeral
        rw [split isNumeral]
        exact ⟨_, .numeral numeral (fun c member => List.mem_takeWhile_imp member) (stops_dropWhile _ _)
          decomposes⟩
      · exact ⟨_, .lone lone all⟩

theorem not_isLayout_of_isAlpha {c : Char} (h : c.isAlpha = true) : isLayout c = false ∧ c ≠ '#' := by
  constructor
  · by_contra blank
    simp only [isLayout, Bool.not_eq_false, Bool.or_eq_true, beq_iff_eq] at blank
    rcases blank with ((((rfl | rfl) | rfl) | rfl) | rfl) | rfl <;> cases h
  · rintro rfl
    cases h

theorem not_isAlpha_of_isDigit {c : Char} (h : c.isDigit = true) : c.isAlpha = false := by
  have below : c.val ≤ '9'.val := by simpa using (Bool.and_eq_true_iff.mp h).2
  have letters : c.isAlpha = (decide ('A'.val ≤ c.val ∧ c.val ≤ 'Z'.val) ||
      (decide ('a'.val ≤ c.val) && decide (c.val ≤ 'z'.val))) := rfl
  have upper : ¬ 'A'.val ≤ c.val := fun above => absurd (UInt32.le_trans above below) (by decide)
  have lower : ¬ 'a'.val ≤ c.val := fun above => absurd (UInt32.le_trans above below) (by decide)
  rw [letters, decide_eq_false fun upperCase => upper upperCase.1, decide_eq_false lower]
  rfl

theorem not_isLayout_of_isNumeral {c : Char} (h : isNumeral c = true) :
    isLayout c = false ∧ c ≠ '#' ∧ c.isAlpha = false := by
  refine ⟨?_, ?_, ?_⟩
  · by_contra blank
    simp only [isLayout, Bool.not_eq_false, Bool.or_eq_true, beq_iff_eq] at blank
    rcases blank with ((((rfl | rfl) | rfl) | rfl) | rfl) | rfl <;> cases h
  · rintro rfl
    cases h
  · simp only [isNumeral, Bool.or_eq_true, beq_iff_eq] at h
    rcases h with digit | rfl
    · exact not_isAlpha_of_isDigit digit
    · rfl

theorem lone_classes {c : Char} (h : isLoneCharacter c = true) :
    isLayout c = false ∧ c ≠ '#' ∧ c.isAlpha = false ∧ isNumeral c = false := by
  simp only [isLoneCharacter, Char.isAlphanum, Bool.not_eq_true', Bool.or_eq_false_iff, beq_eq_false_iff_ne] at h
  obtain ⟨⟨⟨⟨alpha, digit⟩, blank⟩, point⟩, hash⟩ := h
  simp [isNumeral, alpha, digit, blank, point, hash]

namespace Scan

variable {file : String} {ending : Window} {inside : Char → Bool} {site : Site} {rest sites : List Site}
  {lexemes : List (Lexeme × Option String)}

theorem tokens_of_none {found : List Token} (ends : next? file ending sites = none) :
    tokens file ending found sites = found.reverse := by
  rw [tokens]
  split
  · rfl
  · simp_all

theorem tokens_of_some {found : List Token} {token : Token}
    (first : next? file ending sites = some (token, rest)) :
    tokens file ending found sites = tokens file ending (token :: found) rest := by
  rw [tokens]
  split
  · simp_all
  · simp_all

theorem tokens_found (found : List Token) (sites : List Site) :
    tokens file ending found sites = found.reverse ++ tokens file ending [] sites := by
  induction length : sites.length using Nat.strongRecOn generalizing found sites with
  | ind n ih =>
    subst length
    cases first : next? file ending sites with
    | none => simp [tokens_of_none first]
    | some next =>
      obtain ⟨token, rest⟩ := next
      have shorter := next?_shorter first
      rw [tokens_of_some first, tokens_of_some first, ih _ shorter _ _ rfl, ih _ shorter [token] _ rfl]
      simp

theorem tokens_skip (sites : List Site) :
    tokens file ending [] (skip sites) = tokens file ending [] sites := by
  have again (sites : List Site) : skip (skip sites) = skip sites := by
    fun_induction skip sites with
    | case1 => rw [skip]
    | case2 _ _ _ ih => exact ih
    | case3 _ _ _ _ ih => exact ih
    | case4 site rest blank hash => rw [skip, if_neg blank, if_neg hash]
  have same : next? file ending (skip sites) = next? file ending sites := by
    rw [next?, next?, again]
  cases first : next? file ending sites with
  | none => rw [tokens_of_none first, tokens_of_none (same.trans first)]
  | some next => rw [tokens_of_some first, tokens_of_some (same.trans first)]

theorem tokens_nil : tokens file ending [] [] = [] := by
  rw [tokens_of_none (by simp [next?, skip])]
  rfl

theorem tokens_layout (blank : isLayout site.char = true) :
    tokens file ending [] (site :: rest) = tokens file ending [] rest := by
  rw [← tokens_skip, skip, if_pos blank, tokens_skip]

theorem tokens_comment (hash : site.char = '#') : tokens file ending [] (site :: rest) =
    tokens file ending [] (rest.dropWhile (!endsComment ·.char)) := by
  rw [← tokens_skip, skip, if_neg (by simp [hash, isLayout]), if_pos hash, tokens_skip]

def tokenAt (file : String) (ending : Window) (site : Site) (rest : List Site) : Token :=
  let (lexeme, misspelling, rest) := lexeme site rest
  ⟨lexeme, ⟨file, site.line, site.column⟩, windowBefore ending rest, misspelling⟩

theorem tokens_lexeme (blank : isLayout site.char = false) (hash : site.char ≠ '#') :
    tokens file ending [] (site :: rest) =
      tokenAt file ending site rest :: tokens file ending [] (lexeme site rest).2.2 := by
  have front : skip (site :: rest) = site :: rest := by
    rw [skip, if_neg (by simp [blank]), if_neg hash]
  have first : next? file ending (site :: rest) =
      some (tokenAt file ending site rest, (lexeme site rest).2.2) := by
    simp only [next?, front]
    rfl
  rw [tokens_of_some first, tokens_found]
  rfl

def said (file : String) (ending : Window) (sites : List Site) : List (Lexeme × Option String) :=
  (tokens file ending [] sites).map fun token => (token.lexeme, token.misspelling)

theorem said_nil : said file ending [] = [] := by
  rw [said, tokens_nil]
  rfl

theorem said_layout (blank : isLayout site.char = true) :
    said file ending (site :: rest) = said file ending rest := by
  rw [said, tokens_layout blank]
  rfl

theorem said_comment (hash : site.char = '#') :
    said file ending (site :: rest) = said file ending (rest.dropWhile (!endsComment ·.char)) := by
  rw [said, tokens_comment hash]
  rfl

theorem said_lexeme (blank : isLayout site.char = false) (hash : site.char ≠ '#') :
    said file ending (site :: rest) = ((lexeme site rest).1, (lexeme site rest).2.1) ::
      said file ending (lexeme site rest).2.2 := by
  rw [said, tokens_lexeme blank hash]
  rfl

theorem run_split {body text : List Char} (chars : rest.map (·.char) = body ++ text)
    (all : ∀ c ∈ body, inside c = true) (ends : Stops inside text) :
    (rest.takeWhile (inside ·.char)).map (·.char) = body ∧
      (rest.dropWhile (inside ·.char)).map (·.char) = text := by
  have nothing : text.takeWhile inside = [] ∧ text.dropWhile inside = text := by
    cases text with
    | nil => exact ⟨rfl, rfl⟩
    | cons c text => simp [ends c rfl]
  have taken : (rest.map (·.char)).takeWhile inside = body := by
    rw [chars, List.takeWhile_append_of_pos all, nothing.1, List.append_nil]
  have dropped : (rest.map (·.char)).dropWhile inside = text := by
    rw [chars, List.dropWhile_append_of_pos all, nothing.2]
  exact ⟨by rw [← taken, List.takeWhile_map]; rfl, by rw [← dropped, List.dropWhile_map]; rfl⟩

theorem lexeme_word {body text : List Char} (first : site.char.isAlpha = true)
    (inside : ∀ c ∈ body, c.isAlphanum = true) (ends : Stops Char.isAlphanum text)
    (chars : rest.map (·.char) = body ++ text) : lexeme site rest =
      (.ofWord (String.ofList (site.char :: body)), none, rest.dropWhile (·.char.isAlphanum)) := by
  have start : site.char.isAlphanum = true := by simp [Char.isAlphanum, first]
  simp [lexeme, first, run, start, (run_split chars inside ends).1]

theorem lexeme_numeral {body text : List Char} (first : isNumeral site.char = true)
    (inside : ∀ c ∈ body, isNumeral c = true) (ends : Stops isNumeral text)
    (chars : rest.map (·.char) = body ++ text) : lexeme site rest =
      ((numeralToken (site.char :: body)).1, (numeralToken (site.char :: body)).2,
        rest.dropWhile (isNumeral ·.char)) := by
  obtain ⟨-, -, alpha⟩ := not_isLayout_of_isNumeral first
  simp [lexeme, alpha, first, run, numeralToken, (run_split chars inside ends).1]

theorem lexeme_lone (alone : isLoneCharacter site.char = true) :
    lexeme site rest = (.character site.char, none, rest) := by
  obtain ⟨-, -, alpha, numeral⟩ := lone_classes alone
  simp [lexeme, alpha, numeral]

theorem said_word {body text : List Char} (first : site.char.isAlpha = true)
    (inside : ∀ c ∈ body, c.isAlphanum = true) (ends : Stops Char.isAlphanum text)
    (chars : rest.map (·.char) = body ++ text) :
    said file ending (site :: rest) = (.ofWord (String.ofList (site.char :: body)), none) ::
      said file ending (rest.dropWhile (·.char.isAlphanum)) := by
  obtain ⟨blank, hash⟩ := not_isLayout_of_isAlpha first
  rw [said_lexeme blank hash, lexeme_word first inside ends chars]

theorem said_numeral {body text : List Char} (first : isNumeral site.char = true)
    (inside : ∀ c ∈ body, isNumeral c = true) (ends : Stops isNumeral text)
    (chars : rest.map (·.char) = body ++ text) :
    said file ending (site :: rest) = numeralToken (site.char :: body) ::
      said file ending (rest.dropWhile (isNumeral ·.char)) := by
  obtain ⟨blank, hash, -⟩ := not_isLayout_of_isNumeral first
  rw [said_lexeme blank hash, lexeme_numeral first inside ends chars]

theorem said_lone (alone : isLoneCharacter site.char = true) :
    said file ending (site :: rest) = (.character site.char, none) :: said file ending rest := by
  obtain ⟨blank, hash, -, -⟩ := lone_classes alone
  rw [said_lexeme blank hash, lexeme_lone alone]

theorem said_of_decomposes {text : List Char} (decomposes : Decomposes text lexemes)
    (chars : sites.map (·.char) = text) : said file ending sites = lexemes := by
  induction decomposes generalizing sites with
  | done =>
    rw [List.map_eq_nil_iff.mp chars, said_nil]
  | layout blank _ ih =>
    obtain ⟨site, rest, rfl, rfl, rfl⟩ := List.map_eq_cons_iff.mp chars
    rw [said_layout blank, ih rfl]
  | comment inside ends _ ih =>
    obtain ⟨site, rest, rfl, hash, split⟩ := List.map_eq_cons_iff.mp chars
    rw [said_comment hash]
    exact ih (run_split split (by simpa using inside) ends).2
  | word first inside ends _ ih =>
    obtain ⟨site, rest, rfl, rfl, split⟩ := List.map_eq_cons_iff.mp chars
    rw [said_word first inside ends split, ih (run_split split inside ends).2]
  | numeral first inside ends _ ih =>
    obtain ⟨site, rest, rfl, rfl, split⟩ := List.map_eq_cons_iff.mp chars
    rw [said_numeral first inside ends split, ih (run_split split inside ends).2]
  | lone alone _ ih =>
    obtain ⟨site, rest, rfl, rfl, rfl⟩ := List.map_eq_cons_iff.mp chars
    rw [said_lone alone, ih rfl]

/-- The scanner takes a text apart in the one way there is. -/
theorem said_eq_iff : said file ending sites = lexemes ↔ Decomposes (sites.map (·.char)) lexemes := by
  constructor
  · rintro rfl
    obtain ⟨lexemes, decomposes⟩ := exists_decomposes (sites.map (·.char))
    rwa [said_of_decomposes decomposes rfl]
  · exact fun decomposes => said_of_decomposes decomposes rfl

end Scan

theorem SitedText.chars_layOut (w : Window) (before : List Site) (text : List Char) :
    (SitedText.layOut w before text).sites.map (·.char) = (before.reverse.map (·.char)) ++ text := by
  induction text generalizing w before with
  | nil => simp [SitedText.layOut]
  | cons c text ih => simp [SitedText.layOut, ih, SitedText.siteAt]

/-- What the tokens of a text say is what the text falls into. -/
theorem tokenize_eq_iff {file text : String} {lexemes : List (Lexeme × Option String)} :
    (tokenize file text).tokens.map (fun token => (token.lexeme, token.misspelling)) = lexemes ↔
      Decomposes text.toList lexemes := by
  have chars : (SitedText.ofText text).sites.map (·.char) = text.toList := by
    rw [SitedText.ofText, SitedText.chars_layOut]
    rfl
  rw [← chars]
  exact Scan.said_eq_iff

theorem Decomposes.length_le {text : List Char} {lexemes : List (Lexeme × Option String)}
    (decomposes : Decomposes text lexemes) : lexemes.length ≤ text.length := by
  induction decomposes <;> simp_all <;> omega

theorem length_tokens_le (file text : String) :
    (tokenize file text).tokens.length ≤ text.length := by
  have decomposes := tokenize_eq_iff.mp (Eq.refl ((tokenize file text).tokens.map _))
  rw [← String.length_toList]
  simpa using decomposes.length_le

end Kaleidoscope
