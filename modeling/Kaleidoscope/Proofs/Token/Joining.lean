import Kaleidoscope.Proofs.Token.LongestMatch

/-! Texts joined at the end of a line. The tokens before a line feed are those of the text that ends there, and
the tokens of what stands below it are its own, moved down by the lines above. -/
namespace Kaleidoscope

/-- The location so many lines further down. -/
def Location.lower (lines : Nat) (loc : Location) : Location :=
  { loc with line := loc.line + lines }

/-- The window when the text stands below the line that the other window is at the end of. -/
def Window.below (above w : Window) : Window :=
  ⟨above.taken + 1 + w.taken, w.atEnd, w.line + above.line, w.column, w.current,
    w.previous.or (some above.current)⟩

def Site.below (above : Window) (site : Site) : Site :=
  ⟨site.char, site.line + above.line, site.column, above.below site.window⟩

def Token.below (above : Window) (token : Token) : Token :=
  ⟨token.lexeme, token.location.lower above.line, above.below token.window, token.misspelling⟩

namespace Window

variable {above w : Window}

theorem below_start (reading : above.atEnd = false) : above.below .start = above.read '\n' := by
  simp [below, start, read, reading, Nat.add_comm]

@[simp] theorem read_below (above w : Window) (c : Char) :
    (above.below w).read c = above.below (w.read c) := by
  by_cases feed : c = '\n' <;> simp [read, below, feed] <;> omega

theorem foldl_read_below (above w : Window) (text : List Char) :
    text.foldl read (above.below w) = above.below (text.foldl read w) :=
  List.foldl_hom above.below (fun w c => above.read_below w c)

theorem atEnd_foldl_read (w : Window) (text : List Char) : (text.foldl read w).atEnd = w.atEnd := by
  induction text generalizing w with
  | nil => rfl
  | cons c text ih =>
    rw [List.foldl_cons, ih, read]
    split <;> rfl

theorem requests_read (w : Window) (c : Char) : (w.read c).requests = w.requests + 1 := by
  unfold read
  split <;> simp only [requests] <;> omega

theorem requests_foldl_read (w : Window) (text : List Char) :
    (text.foldl read w).requests = w.requests + text.length := by
  induction text generalizing w with
  | nil => rfl
  | cons c text ih =>
    rw [List.foldl_cons, ih, requests_read, List.length_cons]
    omega

theorem requests_close_le (w : Window) : w.requests ≤ w.close.requests := by
  simp only [requests, close]
  split <;> simp

/-- Lines are counted from one on, and no line stands before the first. -/
structure Counts (w : Window) : Prop where
  positive : 1 ≤ w.line
  first : w.previous = none → w.line = 1

theorem counts_start : start.Counts := ⟨Nat.le_refl 1, fun _ => rfl⟩

theorem Counts.read (h : w.Counts) (c : Char) : (w.read c).Counts := by
  unfold Window.read
  split
  · exact ⟨Nat.le_add_left 1 w.line, by simp⟩
  · exact ⟨h.positive, h.first⟩

theorem Counts.foldl (h : w.Counts) (text : List Char) : (text.foldl Window.read w).Counts := by
  induction text generalizing w with
  | nil => exact h
  | cons c text ih => exact ih (h.read c)

theorem Counts.close (h : w.Counts) : w.close.Counts := ⟨h.positive, h.first⟩

/-- The lines above are not taken for lines of the text. -/
theorem Counts.line?_below (h : w.Counts) {n : Int} (positive : 1 ≤ n) :
    (above.below w).line? (n + above.line) = w.line? n := by
  by_cases here : n = w.line
  · simp [line?, below, here]
  · have elsewhere : ¬ n + above.line = (w.line + above.line : Nat) := by omega
    by_cases before : n + 1 = w.line
    · have kept : w.previous ≠ none := fun none => by have := h.first none; omega
      obtain ⟨line, previous⟩ := Option.ne_none_iff_exists'.mp kept
      have above' : n + above.line + 1 = (w.line + above.line : Nat) := by omega
      simp [line?, below, here, before, above', previous]
    · have unseen : ¬ n + above.line + 1 = (w.line + above.line : Nat) := by omega
      simp only [line?, below, here, before, elsewhere, unseen, if_false]

end Window

namespace SitedText

theorem layOut_cons_sites (w : Window) (c : Char) (text : List Char) :
    (layOut w [] (c :: text)).sites = siteAt w c :: (layOut (w.read c) [] text).sites := by
  rw [layOut, layOut_sites]
  rfl

theorem ending_ofText (text : String) : (ofText text).ending = (text.toList.foldl Window.read .start).close :=
  layOut_ending .start [] text.toList

theorem ofText_eq {text : String} {sites : List Site} (laid : (layOut .start [] text.toList).sites = sites) :
    ofText text = ⟨sites, (text.toList.foldl Window.read .start).close⟩ := by
  rw [← ending_ofText, ← laid]
  rfl

theorem layOut_below (above w : Window) (text : List Char) :
    (layOut (above.below w) [] text).sites = (layOut w [] text).sites.map (Site.below above) := by
  induction text generalizing w with
  | nil => rfl
  | cons c text ih =>
    rw [layOut_cons_sites, layOut_cons_sites, above.read_below, ih, List.map_cons, siteAt, above.read_below]
    rfl

/-- What holds of the windows while a text is laid out holds of all its sites. -/
theorem sites_within {w : Window} (counts : w.Counts) (text : List Char) :
    ∀ site ∈ (layOut w [] text).sites, 1 ≤ site.line ∧ site.window.Counts ∧
      site.window.requests ≤ (text.foldl Window.read w).requests := by
  induction text generalizing w with
  | nil => simp [layOut]
  | cons c text ih =>
    have behind : (w.read c).requests ≤ (text.foldl Window.read (w.read c)).requests := by
      rw [Window.requests_foldl_read]
      exact Nat.le_add_right _ _
    rw [layOut_cons_sites]
    exact List.forall_mem_cons.mpr ⟨⟨counts.positive, counts.read c, behind⟩, ih (counts.read c)⟩

end SitedText

namespace Scan

variable {file : String} {ending above : Window} {feed site : Site} {rest more sites : List Site}

/-- Sites are scanned from the front on: a blank, a comment or a token at a time. -/
theorem induction {motive : List Site → Prop} (nil : motive [])
    (layout : ∀ site rest, isLayout site.char = true → motive rest → motive (site :: rest))
    (comment : ∀ site rest, site.char = '#' → motive (rest.dropWhile (!endsComment ·.char)) →
      motive (site :: rest))
    (token : ∀ site rest, isLayout site.char = false → site.char ≠ '#' →
      motive (lexeme site rest).2.2 → motive (site :: rest)) (sites : List Site) : motive sites := by
  induction length : sites.length using Nat.strongRecOn generalizing sites with
  | ind n ih =>
    subst length
    cases sites with
    | nil => exact nil
    | cons site rest =>
      by_cases blank : isLayout site.char = true
      · exact layout site rest blank (ih _ (Nat.lt_succ_self _) _ rfl)
      by_cases hash : site.char = '#'
      · exact comment site rest hash (ih _ (Nat.lt_succ_of_le (List.dropWhile_suffix _).length_le) _ rfl)
      · exact token site rest (Bool.eq_false_iff.mpr blank) hash
          (ih _ (Nat.lt_succ_of_le (length_lexeme_le site rest)) _ rfl)

section Below

theorem takeWhile_below (inside : Char → Bool) (sites : List Site) :
    (sites.map (Site.below above)).takeWhile (inside ·.char) =
      (sites.takeWhile (inside ·.char)).map (Site.below above) :=
  List.takeWhile_map

theorem dropWhile_below (inside : Char → Bool) (sites : List Site) :
    (sites.map (Site.below above)).dropWhile (inside ·.char) =
      (sites.dropWhile (inside ·.char)).map (Site.below above) :=
  List.dropWhile_map

theorem run_below (inside : Char → Bool) (sites : List Site) :
    run inside (sites.map (Site.below above)) = run inside sites := by
  rw [run, takeWhile_below, List.map_map]
  rfl

theorem lexeme_below (site : Site) (rest : List Site) :
    lexeme (site.below above) (rest.map (Site.below above)) =
      ((lexeme site rest).1, (lexeme site rest).2.1, (lexeme site rest).2.2.map (Site.below above)) := by
  have char : (site.below above).char = site.char := rfl
  simp only [lexeme, ← List.map_cons (f := Site.below above), run_below, dropWhile_below, char]
  by_cases alpha : site.char.isAlpha = true
  · simp [alpha]
  by_cases numeral : isNumeral site.char = true
  · simp [alpha, numeral]
  · simp [alpha, numeral]

theorem tokenAt_below (site : Site) (rest : List Site) :
    tokenAt file (above.below ending) (site.below above) (rest.map (Site.below above)) =
      (tokenAt file ending site rest).below above := by
  have windows (sites : List Site) : windowBefore (above.below ending) (sites.map (Site.below above)) =
      above.below (windowBefore ending sites) := by
    cases sites <;> rfl
  simp only [tokenAt, lexeme_below, windows]
  simp [Token.below, Site.below, Location.lower]

theorem tokens_below (sites : List Site) :
    tokens file (above.below ending) [] (sites.map (Site.below above)) =
      (tokens file ending [] sites).map (Token.below above) := by
  induction sites using Scan.induction with
  | nil => simp [tokens_nil]
  | layout site rest blank ih =>
    have blank' : isLayout (site.below above).char = true := blank
    rw [List.map_cons, tokens_layout blank', tokens_layout blank, ih]
  | comment site rest hash ih =>
    have hash' : (site.below above).char = '#' := hash
    rw [List.map_cons, tokens_comment hash', tokens_comment hash, dropWhile_below (!endsComment ·), ih]
  | token site rest blank hash ih =>
    have blank' : isLayout (site.below above).char = false := blank
    have hash' : (site.below above).char ≠ '#' := hash
    rw [List.map_cons, tokens_lexeme blank' hash', tokens_lexeme blank hash, lexeme_below, tokenAt_below, ih,
      List.map_cons]

end Below

section Append

theorem dropWhile_append (inside : Char → Bool) (stops : inside feed.char = false) (sites : List Site) :
    (sites ++ feed :: more).dropWhile (inside ·.char) =
      sites.dropWhile (inside ·.char) ++ feed :: more := by
  rw [List.dropWhile_append]
  split
  · next none => simp [List.isEmpty_iff.mp none, stops]
  · rfl

theorem run_append {inside : Char → Bool} (stops : inside feed.char = false) (sites : List Site) :
    run inside (sites ++ feed :: more) = run inside sites := by
  rw [run, run, List.takeWhile_append]
  split
  · next all => simp [stops, (List.takeWhile_prefix _).eq_of_length all]
  · rfl

theorem lexeme_append (line : feed.char = '\n') (site : Site) (rest : List Site) :
    lexeme site (rest ++ feed :: more) =
      ((lexeme site rest).1, (lexeme site rest).2.1, (lexeme site rest).2.2 ++ feed :: more) := by
  have alphanum : Char.isAlphanum feed.char = false := line ▸ rfl
  have numeral : isNumeral feed.char = false := line ▸ rfl
  simp only [lexeme, ← List.cons_append, run_append alphanum, run_append numeral, dropWhile_append _ alphanum,
    dropWhile_append _ numeral]
  by_cases alpha : site.char.isAlpha = true
  · simp [alpha]
  by_cases digits : isNumeral site.char = true
  · simp [alpha, digits]
  · simp [alpha, digits]

theorem tokenAt_append (line : feed.char = '\n') (site : Site) (rest : List Site) :
    tokenAt file ending site (rest ++ feed :: more) = tokenAt file feed.window site rest := by
  have windows (sites : List Site) :
      windowBefore ending (sites ++ feed :: more) = windowBefore feed.window sites := by
    cases sites <;> rfl
  simp only [tokenAt, lexeme_append line, windows]

/-- No token goes beyond the end of its line. -/
theorem tokens_append (line : feed.char = '\n') (sites : List Site) :
    tokens file ending [] (sites ++ feed :: more) =
      tokens file feed.window [] sites ++ tokens file ending [] more := by
  induction sites using Scan.induction with
  | nil => rw [List.nil_append, tokens_layout (line ▸ rfl), tokens_nil, List.nil_append]
  | layout site rest blank ih => rw [List.cons_append, tokens_layout blank, tokens_layout blank, ih]
  | comment site rest hash ih =>
    have ends : (!endsComment feed.char) = false := line ▸ rfl
    rw [List.cons_append, tokens_comment hash, tokens_comment hash, dropWhile_append (!endsComment ·) ends, ih]
  | token site rest blank hash ih =>
    rw [List.cons_append, tokens_lexeme blank hash, tokens_lexeme blank hash, lexeme_append line,
      tokenAt_append line, ih, List.cons_append]

theorem tokens_bar {semicolon : Site} (line : feed.char = '\n') (bar : semicolon.char = ';')
    (sites : List Site) :
    tokens file ending [] (sites ++ feed :: semicolon :: more) = tokens file feed.window [] sites ++
      ⟨.character ';', ⟨file, semicolon.line, semicolon.column⟩, windowBefore ending more, none⟩ ::
        tokens file ending [] more := by
  have lone : isLoneCharacter semicolon.char = true := bar ▸ rfl
  obtain ⟨blank, hash, -⟩ := lone_classes lone
  rw [tokens_append line, tokens_lexeme blank hash, tokenAt, lexeme_lone lone, bar]

end Append

theorem lexeme_suffix (site : Site) (rest : List Site) : (lexeme site rest).2.2 <:+ rest := by
  unfold lexeme
  split
  · exact List.dropWhile_suffix _
  · split
    · exact List.dropWhile_suffix _
    · exact List.suffix_refl rest

/-- A token stands where a site does, and is complete at a site or the end. -/
theorem token_origin {all : List Site} {token : Token} (inside : sites <:+ all)
    (member : token ∈ tokens file ending [] sites) :
    (∃ site ∈ all, token.location = ⟨file, site.line, site.column⟩) ∧
      (token.window = ending ∨ ∃ site ∈ all, token.window = site.window) := by
  have behind {site : Site} {rest : List Site} (inside : site :: rest <:+ all) : rest <:+ all :=
    (List.suffix_cons site rest).trans inside
  induction sites using Scan.induction with
  | nil => simp [tokens_nil] at member
  | layout site rest blank ih => exact ih (behind inside) (tokens_layout blank ▸ member)
  | comment site rest hash ih =>
    exact ih ((List.dropWhile_suffix _).trans (behind inside)) (tokens_comment hash ▸ member)
  | token site rest blank hash ih =>
    have left : (lexeme site rest).2.2 <:+ all := (lexeme_suffix site rest).trans (behind inside)
    rw [tokens_lexeme blank hash] at member
    rcases List.mem_cons.mp member with rfl | later
    · refine ⟨⟨site, inside.subset List.mem_cons_self, rfl⟩, ?_⟩
      cases last : (lexeme site rest).2.2 with
      | nil => exact .inl (by simp [tokenAt, last, windowBefore])
      | cons next more =>
        rw [last] at left
        exact .inr ⟨next, left.subset List.mem_cons_self, by simp [tokenAt, last, windowBefore]⟩
    · exact ih left later

end Scan

section Text

variable {file text : String} {token : Token}

/-- The tokens of a text quote its lines only, and are complete before its end is asked for once more. -/
theorem counts_of_mem_tokenize (member : token ∈ (tokenize file text).tokens) :
    1 ≤ token.location.line ∧ token.window.Counts ∧
      token.window.requests ≤ (tokenize file text).final.window.requests := by
  have ending := SitedText.ending_ofText text
  have within := SitedText.sites_within Window.counts_start text.toList
  have last : (tokenize file text).final.window = (SitedText.ofText text).ending := rfl
  obtain ⟨⟨site, inside, place⟩, window⟩ := Scan.token_origin (List.suffix_refl _) member
  rw [place, last, ending]
  refine ⟨Int.ofNat_le.mpr (within site inside).1, ?_⟩
  rcases window with window | ⟨other, inside, window⟩
  · rw [window, ending]
    exact ⟨(Window.counts_start.foldl text.toList).close, Nat.le_refl _⟩
  · rw [window]
    obtain ⟨-, counts, requests⟩ := within other inside
    exact ⟨counts, Nat.le_trans requests (Window.requests_close_le _)⟩

theorem completeBy_final (file text : String) :
    TokenSequence.completeBy (tokenize file text).final.window.requests (tokenize file text).tokens =
      (tokenize file text).tokens := by
  rw [TokenSequence.completeBy, List.takeWhile_eq_self_iff]
  intro token member
  exact decide_eq_true (counts_of_mem_tokenize member).2.2

theorem sourceLine?_below (above : Window) (member : token ∈ (tokenize file text).tokens) :
    (token.below above).sourceLine? = token.sourceLine? := by
  obtain ⟨positive, counts, -⟩ := counts_of_mem_tokenize member
  exact counts.line?_below positive

theorem sourceLine?_final_below (above : Window) (file text : String) :
    ((tokenize file text).final.below above).sourceLine? = (tokenize file text).final.sourceLine? := by
  have counts : (tokenize file text).final.window.Counts := by
    rw [tokenize, SitedText.ending_ofText]
    exact (Window.counts_start.foldl text.toList).close
  exact counts.line?_below (Int.ofNat_le.mpr counts.positive)

end Text

/-- The window at the end of a text with a semicolon on a line of its own below it. -/
def Window.behindBar (text : String) : Window := (text ++ "\n;").toList.foldl read start

/-- The line of the semicolon is the number of lines that are above what comes next. -/
theorem Window.line_behindBar (text : String) :
    (behindBar text).line = 2 + text.toList.count '\n' := by
  have behind := isBehind_start.foldl (text ++ "\n;").toList
  rw [behindBar, behind.line]
  simp
  omega

namespace SitedText

/-- A text with a semicolon on a line of its own below it, at its end and before another text. -/
theorem exists_bar (first second : String) :
    let above := Window.behindBar first
    ∃ sites feed semicolon, feed.char = '\n' ∧ semicolon.char = ';' ∧ semicolon.line = above.line ∧
      ofText (first ++ "\n;") = ⟨sites ++ feed :: [semicolon], above.close⟩ ∧
      ofText (first ++ "\n;\n" ++ second) =
        ⟨sites ++ feed :: semicolon :: siteAt above '\n' :: (ofText second).sites.map (Site.below above),
          above.below (ofText second).ending⟩ := by
  intro above
  let feed := siteAt (first.toList.foldl Window.read .start) '\n'
  let semicolon := siteAt feed.window ';'
  have reached : semicolon.window = above := by
    simp [above, Window.behindBar, semicolon, feed, siteAt]
  have reading : above.atEnd = false := Window.atEnd_foldl_read .start _
  have laid (back : List Char) : (layOut .start [] (first.toList ++ '\n' :: ';' :: back)).sites =
      (layOut .start [] first.toList).sites ++ feed :: semicolon :: (layOut above [] back).sites := by
    rw [layOut_append, layOut_cons_sites, layOut_cons_sites, ← reached]
    rfl
  have below : (layOut above [] ('\n' :: second.toList)).sites =
      siteAt above '\n' :: (ofText second).sites.map (Site.below above) := by
    rw [layOut_cons_sites, ← Window.below_start reading, layOut_below]
    rfl
  have ending : (first ++ "\n;\n" ++ second).toList.foldl Window.read .start =
      above.below (second.toList.foldl Window.read .start) := by
    rw [← Window.foldl_read_below, Window.below_start reading]
    simp [above, Window.behindBar]
  refine ⟨(layOut .start [] first.toList).sites, feed, semicolon, rfl, rfl, ?_, ?_, ?_⟩
  · rw [← reached]
    rfl
  · exact ofText_eq (by simpa [layOut] using laid [])
  · rw [ofText_eq (by simpa [below] using laid ('\n' :: second.toList)), ending, ending_ofText]
    rfl

end SitedText

/-- A semicolon on a line of its own divides the tokens of a text. -/
theorem tokenize_bar (file first second : String) :
    let above := Window.behindBar first
    ∃ front bar, bar.lexeme = .character ';' ∧
      ({ bar with window := above.read '\n' } : Token).sourceLine? = bar.sourceLine? ∧
      (tokenize file (first ++ "\n;")).tokens = front ++ [bar] ∧
      (tokenize file (first ++ "\n;\n" ++ second)).tokens =
        front ++ { bar with window := above.read '\n' } ::
          (tokenize file second).tokens.map (Token.below above) ∧
      (tokenize file (first ++ "\n;\n" ++ second)).final = (tokenize file second).final.below above := by
  intro above
  obtain ⟨sites, feed, semicolon, line, bar, place, before, whole⟩ := SitedText.exists_bar first second
  refine ⟨Scan.tokens file feed.window [] sites,
    ⟨.character ';', ⟨file, semicolon.line, semicolon.column⟩, above.close, none⟩, rfl, ?_, ?_, ?_, ?_⟩
  · simp [above, Token.sourceLine?, place, Window.line?, Window.read, Window.close]
  · rw [tokenize, before, Scan.tokens_bar line bar, Scan.tokens_nil]
    rfl
  · rw [tokenize, whole, Scan.tokens_bar line bar, Scan.tokens_layout rfl, Scan.tokens_below]
    rfl
  · rw [tokenize, tokenize, whole]
    simp [above, Token.below, Location.lower, Window.below]

end Kaleidoscope
