/-!
# Sites

A text is read one character at a time. While it is read, the line being read and the line before it
are kept, for the messages that quote them: this is the `Window`. A `Site` is a character with the
place where it stands and the window as it was once the character had been read.
-/

namespace Kaleidoscope

structure Window where
  taken : Nat
  atEnd : Bool
  line : Nat
  column : Nat
  /-- What has been read of that line, last character first. -/
  current : List Char
  /-- The line before, last character first. -/
  previous : Option (List Char)
  deriving DecidableEq, Repr

namespace Window

def start : Window := ⟨0, false, 1, 1, [], none⟩

/-- The window after one more character; a line feed starts a line. -/
def read (w : Window) (c : Char) : Window :=
  if c = '\n' then ⟨w.taken + 1, w.atEnd, w.line + 1, 1, [], some w.current⟩
  else ⟨w.taken + 1, w.atEnd, w.line, w.column + 1, c :: w.current, w.previous⟩

def close (w : Window) : Window := { w with atEnd := true }

/-- How many requests for a character have been made; the one that finds the end counts. -/
def requests (w : Window) : Nat := w.taken + if w.atEnd then 1 else 0

/-- A kept line as it is quoted: without the carriage returns at its end. -/
def quotable (line : List Char) : String :=
  String.ofList (line.dropWhile (· == '\r')).reverse

/-- The text read so far of a line, if the line is kept. -/
def line? (w : Window) (n : Int) : Option String :=
  if n = w.line then some (quotable w.current)
  else if n + 1 = w.line then w.previous.map quotable
  else none

end Window

structure Site where
  char : Char
  line : Nat
  column : Nat
  window : Window
  deriving DecidableEq, Repr

/-- A text laid out: a site for each character, and the window at its end. -/
structure SitedText where
  sites : List Site
  ending : Window

namespace SitedText

def siteAt (w : Window) (c : Char) : Site := ⟨c, w.line, w.column, w.read c⟩

def layOut (w : Window) (before : List Site) : List Char → SitedText
  | [] => ⟨before.reverse, w.close⟩
  | c :: rest => layOut (w.read c) (siteAt w c :: before) rest

def ofText (text : String) : SitedText := layOut .start [] text.toList

theorem layOut_sites (w : Window) (before : List Site) (text : List Char) :
    (layOut w before text).sites = before.reverse ++ (layOut w [] text).sites := by
  induction text generalizing w before with
  | nil => simp [layOut]
  | cons c rest ih =>
    simp only [layOut]
    rw [ih, ih (w.read c) [siteAt w c]]
    simp

theorem layOut_ending (w : Window) (before : List Site) (text : List Char) :
    (layOut w before text).ending = (text.foldl Window.read w).close := by
  induction text generalizing w before with
  | nil => rfl
  | cons c rest ih => exact ih (w.read c) (siteAt w c :: before)

theorem length_layOut_sites (w : Window) (before : List Site) (text : List Char) :
    (layOut w before text).sites.length = before.length + text.length := by
  induction text generalizing w before with
  | nil => simp [layOut]
  | cons c rest ih => simp only [layOut, ih, List.length_cons]; omega

end SitedText
end Kaleidoscope
