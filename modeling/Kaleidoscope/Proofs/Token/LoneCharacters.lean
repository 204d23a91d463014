import Kaleidoscope.Proofs.Token.Decomposition

/-! Characters that are always tokens. While it goes through a text, the scanner looks for a token at the start, behind
each token, and behind each blank and comment that it passes over. The lone characters are those that are the token
wherever it looks for one at them. -/
namespace Kaleidoscope

/-- Going through all the sites, the scanner looks for a token at the front of these. -/
inductive Scan.LooksAt (file : String) (ending : Window) (all : List Site) : List Site → Prop where
  | start : LooksAt file ending all all
  | behindLayout (before : LooksAt file ending all (site :: rest)) (blank : isLayout site.char = true) :
      LooksAt file ending all rest
  | behindComment (before : LooksAt file ending all (site :: rest)) (hash : site.char = '#') :
      LooksAt file ending all (rest.dropWhile (!endsComment ·.char))
  | behindToken (before : LooksAt file ending all sites) (first : next? file ending sites = some (token, rest)) :
      LooksAt file ending all rest

/-- In every text, wherever a token is looked for at this character, the next token is the character and no more: it
stands there, and the one behind it is looked for right behind the character. -/
def IsAlwaysToken (c : Char) : Prop :=
  ∀ (file text : String) (site : Site) (rest : List Site),
    let laid := SitedText.ofText text
    Scan.LooksAt file laid.ending laid.sites (site :: rest) → site.char = c →
      ∃ found token, (tokenize file text).tokens = found ++ token :: Scan.tokens file laid.ending [] rest ∧
        token.lexeme = .character c ∧ token.location = ⟨file, site.line, site.column⟩

variable {file : String} {ending : Window} {all sites : List Site} {c : Char}

theorem Scan.LooksAt.exists_found (looks : LooksAt file ending all sites) :
    ∃ found, tokens file ending [] all = found ++ tokens file ending [] sites := by
  induction looks with
  | start => exact ⟨[], rfl⟩
  | behindLayout _ blank ih => rwa [tokens_layout blank] at ih
  | behindComment _ hash ih => rwa [tokens_comment hash] at ih
  | @behindToken sites token rest _ first ih =>
    obtain ⟨found, split⟩ := ih
    refine ⟨found ++ [token], ?_⟩
    rw [split, tokens_of_some first, tokens_found, List.append_assoc]
    rfl

theorem Scan.tokens_lone (file : String) (ending : Window) {site : Site} (alone : isLoneCharacter site.char = true)
    (rest : List Site) : ∃ token, tokens file ending [] (site :: rest) = token :: tokens file ending [] rest ∧
      token.lexeme = .character site.char ∧ token.location = ⟨file, site.line, site.column⟩ := by
  obtain ⟨blank, hash, -⟩ := lone_classes alone
  refine ⟨tokenAt file ending site rest, ?_, ?_, rfl⟩
  · rw [tokens_lexeme blank hash, lexeme_lone alone]
  · rw [tokenAt, lexeme_lone alone]

theorem Decomposes.lone_of_mem {text : List Char} {lexemes : List (Lexeme × Option String)}
    (decomposes : Decomposes text lexemes) (member : .character c ∈ lexemes.map (·.1)) :
    isLoneCharacter c = true := by
  induction decomposes with
  | done => cases member
  | layout _ _ ih | comment _ _ _ ih => exact ih member
  | word _ _ _ _ ih =>
    rcases List.mem_cons.mp member with here | later
    · simp only [Lexeme.ofWord] at here
      split at here
      · cases here
      · split at here <;> cases here
    · exact ih later
  | numeral _ _ _ _ ih =>
    rcases List.mem_cons.mp member with here | later
    · cases here
    · exact ih later
  | lone alone _ ih =>
    rcases List.mem_cons.mp member with here | later
    · cases here
      exact alone
    · exact ih later

theorem isLoneCharacter_of_mem {file text : String} {token : Token} (member : token ∈ (tokenize file text).tokens)
    (lexeme : token.lexeme = .character c) : isLoneCharacter c = true := by
  have decomposes := tokenize_eq_iff.mp (Eq.refl ((tokenize file text).tokens.map _))
  apply decomposes.lone_of_mem
  rw [List.map_map, ← lexeme]
  exact List.mem_map_of_mem (f := (·.lexeme)) member

theorem isAlwaysToken_iff : IsAlwaysToken c ↔ isLoneCharacter c = true := by
  constructor
  · intro always
    -- The text that is only this character decides.
    obtain ⟨site, sites, here⟩ : ∃ site, (SitedText.ofText c.toString).sites = [site] ∧ site.char = c :=
      ⟨SitedText.siteAt .start c, by simp [SitedText.ofText, SitedText.layOut], rfl⟩
    obtain ⟨found, token, split, lexeme, -⟩ := always "" c.toString site [] (sites ▸ .start) here
    exact isLoneCharacter_of_mem (split ▸ List.mem_append_right _ List.mem_cons_self) lexeme
  · rintro alone file text site rest laid looks rfl
    obtain ⟨found, before⟩ := looks.exists_found
    obtain ⟨token, next, lexeme, location⟩ := Scan.tokens_lone file laid.ending alone rest
    exact ⟨found, token, next ▸ before, lexeme, location⟩

end Kaleidoscope
