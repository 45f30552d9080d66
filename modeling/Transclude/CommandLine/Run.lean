import Transclude.CommandLine.Arguments
import Transclude.Filter
import Transclude.Host.Convert

/-!
# Command-line runs

A run reads a document, expands it and writes it.  Nothing is written before everything else has
succeeded, so a failed run leaves all files as they were.

Main definitions:

- {lit}`CommandError`: why a run fails.
- {lit}`CommandError.report`: what the user is told.
- {lit}`CommandLine.execute`: what a command does, and its exit code.
-/

namespace Transclude

/-- Why a run fails. -/
inductive CommandError where
  /-- The input cannot be opened. -/
  | openFailed (file : String) (cause : HostFault)
  /-- The document cannot be read, expanded or put together. -/
  | filter (cause : FilterError)
  /-- The output cannot be written. -/
  | writeFailed (file : String) (cause : HostFault)
  deriving DecidableEq, Repr, Inhabited

namespace CommandError

/-- The wording of a run's failure. -/
def message : CommandError → String
  | .openFailed file _ => "Failed to open " ++ file
  | .filter cause => cause.message
  | .writeFailed file _ => "Failed to write " ++ file

/-- The causes of a run's failure. -/
def causes : CommandError → List String
  | .openFailed _ cause => [cause.message]
  | .filter cause => cause.causes
  | .writeFailed _ cause => [cause.message]

/-- A text with something in front of its first line and blanks of that width in front of all
others. -/
def indented (label : String) (text : String) : String :=
  let blanks := String.ofList (List.replicate label.length ' ')
  let lines := (Text.pieces '\n' text.toList).map String.ofList
  label ++ ("\n" ++ blanks).intercalate lines

/-- The number of a cause in a width of five, and a colon. -/
def numberLabel (n : Nat) : String :=
  let digits := toString n
  String.ofList (List.replicate (5 - digits.length) ' ') ++ digits ++ ": "

/-- The lines for causes from a number on. -/
def numbered : Nat → List String → List String
  | _, [] => []
  | n, cause :: rest => indented (numberLabel n) cause :: numbered (n + 1) rest

/-- The lines for all causes: a single one has no number. -/
def causeLines : List String → List String
  | [cause] => [indented "    " cause]
  | causes => numbered 0 causes

/-- What the user is told. -/
def report (e : CommandError) : String :=
  let head := "Error: " ++ e.message ++ "\n"
  match causeLines e.causes with
  | [] => head
  | lines => head ++ "\nCaused by:\n" ++ "\n".intercalate lines ++ "\n"

end CommandError

namespace CommandLine

variable {m : Type → Type} [Monad m] [Host m]

/-- The bytes of the input.  A directory opens, but nothing can be read from it. -/
def readSource (source : Option String) : m (Except CommandError (List UInt8)) := do
  match source with
  | none => return .ok (← Host.readInput)
  | some file =>
    match ← Host.readFile file with
    | .ok bytes => return .ok bytes
    | .error .isADirectory => return .error (.filter (.read .invalidJson))
    | .error fault => return .error (.openFailed file fault)

/-- Write the output. -/
def writeTarget (target : Option String) (bytes : List UInt8) : m (Except CommandError Unit) := do
  match target with
  | none => return .ok (← Host.writeOutput bytes)
  | some file => return (← Host.writeFile file bytes).mapError (.writeFailed file)

/-- The bytes of the expanded document, once there is the directory from which its files are
found. -/
def expandedFrom (a : Arguments) (baseDir : String) : m (Except CommandError (List UInt8)) := do
  let program ← Convert.chosen a.program
  match ← readSource a.input with
  | .error e => return .error e
  | .ok bytes =>
    let change := Document.expand a.options (Convert.byProgram program) baseDir
    match ← Filter.transformed change bytes with
    | .error e => return .error (.filter e)
    | .ok d => return .ok d.toBytes

/-- The bytes of the expanded document. -/
def expanded (a : Arguments) : m (Except CommandError (List UInt8)) := do
  let baseDir ←
    match a.baseDir with
    | some dir => pure dir
    | none => Host.currentDir
  expandedFrom a baseDir

/-- A run: read, expand, write. -/
def run (a : Arguments) : m (Except CommandError Unit) := do
  match ← expanded a with
  | .error e => return .error e
  | .ok bytes => writeTarget a.output bytes

/-- The name and version of the program. -/
def versionText : String :=
  "pandoc-include 0.0.0\n"

/-- What the program does and how it is called, for who asks. -/
def helpText : String :=
  "Pandoc JSON filter that expands include directives into the referenced documents\n\n" ++
  "Usage: pandoc-include [OPTIONS] [TARGET_FORMAT]\n\n" ++
  "Arguments:\n" ++
  "  [TARGET_FORMAT]  Output format; pandoc passes it to every JSON filter. Ignored\n\n" ++
  "Options:\n" ++
  "  -i, --input <INPUT>           Read the document from FILE instead of stdin\n" ++
  "  -o, --output <OUTPUT>         Write the document to FILE instead of stdout\n" ++
  "      --base-dir <BASE_DIR>     Directory that relative include paths are resolved against\n" ++
  "      --pandoc <PATH>           Pandoc executable used to convert included files\n" ++
  "      --default-dialect <NAME>  Input format for references that do not name one\n" ++
  "      --max-depth <N>           Deepest allowed chain of nested includes\n" ++
  "  -h, --help                    Print help\n" ++
  "  -V, --version                 Print version\n"

/-- How every report on arguments that make no sense ends. -/
def misuseText : String :=
  "For more information, try '--help'.\n"

/-- What a command does, and its exit code. -/
def execute (arguments : List String) : m Nat := do
  match Invocation.ofArguments arguments with
  | .version =>
    Host.writeOutput (Utf8.encode versionText)
    return 0
  | .help =>
    Host.writeOutput (Utf8.encode helpText)
    return 0
  | .misuse =>
    Host.writeError misuseText
    return 2
  | .run a =>
    match ← run a with
    | .ok () => return 0
    | .error e =>
      Host.writeError e.report
      return 1

end CommandLine

end Transclude
