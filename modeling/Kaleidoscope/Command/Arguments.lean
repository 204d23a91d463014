/-!
# Command line arguments

Arguments are options and positional arguments. An option starts with a hyphen and has a long name;
flags may also have a letter, and letters can share a hyphen. The value of an option is its next
argument, whatever that looks like, or stands behind an equals sign. Two hyphens alone end the options.
-/

namespace Kaleidoscope.Arguments

/-- Which options there are, and whether they may follow positional arguments. -/
structure Shape where
  flags : List String
  letters : List (Char × String)
  valued : List String
  interspersed : Bool

structure Parsed where
  options : List (String × Option String)
  positional : List String
  deriving DecidableEq, Repr

namespace Parsed

def addOptions (more : List (String × Option String)) (p : Parsed) : Parsed :=
  { p with options := more ++ p.options }

def addPositional (arg : String) (p : Parsed) : Parsed :=
  { p with positional := arg :: p.positional }

def has (p : Parsed) (name : String) : Bool := p.options.any (·.1 == name)

def values (p : Parsed) (name : String) : List String :=
  p.options.filterMap fun option => if option.1 == name then option.2 else none

end Parsed

def splitValue (arg : List Char) : String × Option String :=
  let name := String.ofList (arg.takeWhile (· != '='))
  match arg.dropWhile (· != '=') with
  | [] => (name, none)
  | _ :: value => (name, some (String.ofList value))

inductive Form where
  | endOfOptions
  | positional
  | long (name : String) (value? : Option String)
  | letters (letters : List Char)

def form (arg : String) : Form :=
  match arg.toList with
  | ['-', '-'] => .endOfOptions
  | '-' :: '-' :: rest => .long (splitValue ('-' :: '-' :: rest)).1 (splitValue ('-' :: '-' :: rest)).2
  | '-' :: c :: rest => .letters (c :: rest)
  | _ => .positional

/-- Sorts arguments, unless one is no option of this shape or misses or refuses a value. -/
def parse? (shape : Shape) : List String → Option Parsed
  | [] => some ⟨[], []⟩
  | arg :: rest =>
    match form arg with
    | .endOfOptions => some ⟨[], rest⟩
    | .positional =>
      if shape.interspersed then (parse? shape rest).map (·.addPositional arg)
      else some ⟨[], arg :: rest⟩
    | .letters letters =>
      (letters.mapM fun c => (shape.letters.find? (·.1 == c)).map (·.2)).bind fun names =>
        (parse? shape rest).map (·.addOptions (names.map (·, none)))
    | .long name (some value) =>
      if shape.valued.contains name then
        (parse? shape rest).map (·.addOptions [(name, some value)])
      else none
    | .long name none =>
      if shape.flags.contains name then (parse? shape rest).map (·.addOptions [(name, none)])
      else if shape.valued.contains name then
        match rest with
        | [] => none
        | value :: behind => (parse? shape behind).map (·.addOptions [(name, some value)])
      else none

end Kaleidoscope.Arguments
