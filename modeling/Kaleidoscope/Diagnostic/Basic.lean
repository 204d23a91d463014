import Kaleidoscope.Source.Location

/-!
# Diagnostics

A diagnostic is a problem, with the location in the source and the text of its line where these are
known. As a text it shows the line with a caret below the column, and a hint last.
-/

namespace Kaleidoscope

inductive Problem where
  | general (message : String) (hint? : Option String)
  /-- The grammar is violated in no particular way. -/
  | ungrammatical (message : String) (hint? : Option String)
  /-- A call is wrong in no particular way. -/
  | meaningless (message : String) (hint? : Option String)
  | unexpectedToken (message found : String) (expected? : Option String)
  | missingToken (message expected found : String)
  | nestingTooDeep (message found : String) (limit : Int)
  | unknownFunction (name : String)
  | argumentCount (name : String) (expected actual : Int)
  /-- So many problems were found that the rest of the source was not read. -/
  | tooManyErrors (message : String)
  deriving DecidableEq, Repr

namespace Problem

def message : Problem → String
  | .general message _ | .ungrammatical message _ | .meaningless message _
  | .unexpectedToken message _ _ | .missingToken message _ _ | .nestingTooDeep message _ _
  | .tooManyErrors message => message
  | .unknownFunction name => "Unknown function referenced: '" ++ name ++ "'"
  | .argumentCount name expected actual =>
    "Incorrect # arguments passed: '" ++ name ++ "' expects " ++ toString expected ++
      (if expected = 1 then " argument" else " arguments") ++ ", got " ++ toString actual

def hint? : Problem → Option String
  | .general _ hint? | .ungrammatical _ hint? | .meaningless _ hint? => hint?
  | .unexpectedToken _ found _ | .missingToken _ _ found => some ("found " ++ found)
  | .nestingTooDeep _ _ limit =>
    some ("expressions may nest at most " ++ toString limit ++ " levels deep")
  | .unknownFunction _ => some "declare it with 'extern' or define it with 'def' first"
  | .argumentCount .. | .tooManyErrors _ => none

end Problem

structure Diagnostic where
  problem : Problem
  location? : Option Location
  sourceLine? : Option String
  deriving DecidableEq, Repr

namespace Diagnostic

def message (d : Diagnostic) : String := d.problem.message

/-- Quoted source is indented by so many columns. -/
def indentation : Int := 4

def spaces (count : Int) : String := String.ofList (List.replicate count.toNat ' ')

def headline (d : Diagnostic) : String :=
  match d.location? with
  | some loc => loc.text ++ ": error: " ++ d.message
  | none => "error: " ++ d.message

/-- The source line and a caret below the column, if line and column are known. -/
def excerpt (d : Diagnostic) : List String :=
  match d.sourceLine?, d.location? with
  | some line, some loc =>
    let caret := if 0 < loc.column then [spaces (indentation + loc.column - 1) ++ "^"] else []
    (spaces indentation ++ line) :: caret
  | _, _ => []

/-- A hint is shown unless it is empty. -/
def advice (d : Diagnostic) : List String :=
  match d.problem.hint? with
  | some hint => if hint = "" then [] else ["hint: " ++ hint]
  | none => []

def text (d : Diagnostic) : String :=
  "\n".intercalate (d.headline :: (d.excerpt ++ d.advice))

def remark (d : Diagnostic) : String :=
  (match d.location? with
    | some loc => loc.text
    | none => "None") ++ ": " ++ d.message

end Diagnostic
end Kaleidoscope
