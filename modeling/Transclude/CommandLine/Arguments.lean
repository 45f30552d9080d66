import Transclude.Include.Options

/-!
# Command-line arguments

What the arguments of a command ask for.  They are read from left to right; the first one that
is wrong, or that asks for information only, decides.

Main definitions:

- {lit}`Arguments`: what a run is given.
- {lit}`Invocation.ofArguments`: what a list of arguments asks for.
-/

namespace Transclude

/-- What a run is given. -/
structure Arguments where
  /-- The format that the document is converted to in the end; it makes no difference here. -/
  targetFormat : Option String := none
  input : Option String := none
  output : Option String := none
  baseDir : Option String := none
  program : Option String := none
  defaultDialect : Option String := none
  maxDepth : Option Nat := none
  deriving DecidableEq, Repr, Inhabited

/-- What a list of arguments asks for: a run, information, or nothing that makes sense. -/
inductive Invocation where
  | run (arguments : Arguments)
  | version
  | help
  | misuse
  deriving DecidableEq, Repr, Inhabited

namespace Arguments

/-- The options that take a value. -/
inductive Key where
  | input
  | output
  | baseDir
  | program
  | defaultDialect
  | maxDepth
  deriving DecidableEq, Repr, Inhabited

/-- The long names of options. -/
def Key.ofLongName? (name : String) : Option Key :=
  if name = "input" then some .input
  else if name = "output" then some .output
  else if name = "base-dir" then some .baseDir
  else if name = "pandoc" then some .program
  else if name = "default-dialect" then some .defaultDialect
  else if name = "max-depth" then some .maxDepth
  else none

/-- The one-letter names of options. -/
def Key.ofShortName? (c : Char) : Option Key :=
  if c = 'i' then some .input else if c = 'o' then some .output else none

/-- A number of 64 bits: decimal digits, perhaps after a plus sign. -/
def word? (text : String) : Option Nat :=
  let digits :=
    match text.toList with
    | '+' :: rest => rest
    | all => all
  if digits.isEmpty || !digits.all Char.isDigit then none
  else
    let n := digits.foldl (fun n c => n * 10 + (c.toNat - '0'.toNat)) 0
    if n < 0x10000000000000000 then some n else none

/-- Give an option its value.  No option is given twice, a file has a name, and a depth is a
number. -/
def set? (a : Arguments) (key : Key) (value : String) : Option Arguments :=
  match key with
  | .input => if a.input.isSome || value.isEmpty then none else some { a with input := some value }
  | .output =>
    if a.output.isSome || value.isEmpty then none else some { a with output := some value }
  | .baseDir =>
    if a.baseDir.isSome || value.isEmpty then none else some { a with baseDir := some value }
  | .program =>
    if a.program.isSome || value.isEmpty then none else some { a with program := some value }
  | .defaultDialect =>
    if a.defaultDialect.isSome then none else some { a with defaultDialect := some value }
  | .maxDepth =>
    if a.maxDepth.isSome then none
    else (word? value).map fun n => { a with maxDepth := some n }

/-- Give the one argument that belongs to no option. -/
def setPositional? (a : Arguments) (value : String) : Option Arguments :=
  if a.targetFormat.isSome then none else some { a with targetFormat := some value }

/-- What one argument is by itself: an option and perhaps its value, a request for information,
the end of all options, a value, or nothing that is known. -/
inductive Word where
  | option (key : Key) (value : Option String)
  | version
  | help
  | endOfOptions
  | positional (value : String)
  | unknown
  deriving DecidableEq, Repr, Inhabited

/-- An option by its long name, perhaps with a value after an equals sign. -/
def Word.ofLong (body : List Char) : Word :=
  let name := String.ofList (body.takeWhile (· != '='))
  let value :=
    match body.dropWhile (· != '=') with
    | [] => none
    | _ :: rest => some (String.ofList rest)
  match Key.ofLongName? name with
  | some key => .option key value
  | none =>
    if value.isSome then .unknown
    else if name = "version" then .version
    else if name = "help" then .help
    else .unknown

/-- An option by its letter, perhaps with a value right after it or after an equals sign. -/
def Word.ofShort (c : Char) (rest : List Char) : Word :=
  if c = 'V' then .version
  else if c = 'h' then .help
  else
    match Key.ofShortName? c with
    | none => .unknown
    | some key =>
      match rest with
      | [] => .option key none
      | '=' :: value => .option key (some (String.ofList value))
      | value => .option key (some (String.ofList value))

/-- What one argument is by itself. -/
def Word.ofText (text : String) : Word :=
  match text.toList with
  | ['-', '-'] => .endOfOptions
  | '-' :: '-' :: body => .ofLong body
  | '-' :: c :: rest => .ofShort c rest
  | _ => .positional text

/-- Whether an argument can be the value of the option in front of it. -/
def isValue (text : String) : Bool :=
  text = "-" || text.toList.head? != some '-'

/-- The arguments after the end of all options. -/
def readPositionals (a : Arguments) : List String → Invocation
  | [] => .run a
  | value :: rest =>
    match a.setPositional? value with
    | some a => readPositionals a rest
    | none => .misuse

/-- The arguments from one on, given what those before it have set. -/
def read (a : Arguments) : List String → Invocation
  | [] => .run a
  | text :: rest =>
    match Word.ofText text with
    | .option key (some value) =>
      match a.set? key value with
      | some a => read a rest
      | none => .misuse
    | .option key none =>
      match rest with
      | [] => .misuse
      | value :: rest =>
        if isValue value then
          match a.set? key value with
          | some a => read a rest
          | none => .misuse
        else .misuse
    | .positional value =>
      match a.setPositional? value with
      | some a => read a rest
      | none => .misuse
    | .endOfOptions => readPositionals a rest
    | .version => .version
    | .help => .help
    | .unknown => .misuse

/-- The options of inclusion that a run is given. -/
def options (a : Arguments) : Options :=
  let default : Options := {}
  { default with
    defaultDialect := a.defaultDialect.getD default.defaultDialect
    maxDepth := a.maxDepth.getD default.maxDepth }

end Arguments

/-- What a list of arguments asks for. -/
def Invocation.ofArguments (arguments : List String) : Invocation :=
  Arguments.read {} arguments

example : Invocation.ofArguments ["-iin.json", "--max-depth=007"] =
    .run { input := some "in.json", maxDepth := some 7 } := by decide +kernel
example : Invocation.ofArguments ["-i", "--version"] = .misuse := by decide +kernel

end Transclude
