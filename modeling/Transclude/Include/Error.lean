import Transclude.Host.Fault
import Transclude.Path
import Transclude.Text.Escaped
import Transclude.Text.Utf8
import Transclude.Wire.ReadError

/-!
# Why inclusion fails

Each error has a message and a list of causes, from the nearest to the farthest.

Main definitions:

- {lit}`ConverterError`: why a file does not become a document.
- {lit}`IncludeError`: why a document is not expanded.
- {lit}`FilterError`: why a filter run fails.
-/

namespace Transclude

/-- The causes of a reading error: what is wrong with a text that is no JSON. -/
def ReadError.causes : ReadError → List String
  | .invalidJson => ["the text is not a JSON value"]
  | _ => []

/-- The message of a reading error, with what is wrong with a text that is no JSON. -/
def ReadError.fullMessage (e : ReadError) : String :=
  ": ".intercalate (e.message :: e.causes)

/-! ## Conversion -/

/-- Why a file does not become a document. -/
inductive ConverterError where
  /-- There is no such file. -/
  | notFound (path : String)
  /-- The program does not start. -/
  | spawnFailed (program : String) (cause : HostFault)
  /-- The program ends badly. -/
  | nonZeroExit (program path : String) (status : ExitStatus)
  /-- The program writes something that is no text. -/
  | invalidUtf8Output (program : String) (cause : Utf8.Fault)
  /-- What the file is converted to is no document. -/
  | parse (path : String) (cause : ReadError)
  /-- The file cannot be read. -/
  | io (path : String) (cause : HostFault)
  deriving DecidableEq, Repr, Inhabited

namespace ConverterError

/-- The wording of a conversion error. -/
def message : ConverterError → String
  | .notFound path => "file not found: " ++ path
  | .spawnFailed program _ => "failed to run " ++ program
  | .nonZeroExit program path status =>
    program ++ " exited with " ++ status.message ++ " while converting " ++ path
  | .invalidUtf8Output program _ => program ++ " produced output that is not valid UTF-8"
  | .parse path _ => "could not read the converted document for " ++ path
  | .io path _ => "failed to read " ++ path

/-- The causes of a conversion error. -/
def causes : ConverterError → List String
  | .notFound _ => []
  | .spawnFailed _ cause => [cause.message]
  | .nonZeroExit _ _ _ => []
  | .invalidUtf8Output _ cause => [cause.message]
  | .parse _ cause => cause.fullMessage :: cause.causes
  | .io _ cause => [cause.message]

end ConverterError

/-! ## Inclusion -/

/-- Why a document is not expanded. -/
inductive IncludeError where
  /-- A directive names no files. -/
  | emptyDirective (baseDir : String)
  /-- A file that a directive names does not become a document. -/
  | convert (path : Path) (directive : String) (cause : ConverterError)
  /-- A file includes itself; the chain leads from the outermost open file back to an open one. -/
  | cycle (chain : List Path)
  /-- Too many files would be open at once. -/
  | depthExceeded (maxDepth : Nat) (path : Path)
  /-- A directive is met for which no expansion has been prepared. -/
  | unplannedDirective (text : String)
  deriving DecidableEq, Repr, Inhabited

namespace IncludeError

/-- The wording of an inclusion error. -/
def message : IncludeError → String
  | .emptyDirective baseDir => "include directive in " ++ baseDir ++ " names no files"
  | .convert path directive _ =>
    "could not include " ++ path.toText ++ " (directive: " ++ Text.escaped directive ++ ")"
  | .cycle chain => "include cycle: " ++ " -> ".intercalate (chain.map Path.toText)
  | .depthExceeded maxDepth path =>
    "includes nested deeper than " ++ toString maxDepth ++ " levels at " ++ path.toText
  | .unplannedDirective text =>
    "include directive " ++ Text.escaped text ++ " was not expanded"

/-- The causes of an inclusion error. -/
def causes : IncludeError → List String
  | .convert _ _ cause => cause.message :: cause.causes
  | _ => []

end IncludeError

/-! ## Filtering -/

/-- Why a filter run fails. -/
inductive FilterError where
  /-- The input is no document. -/
  | read (cause : ReadError)
  /-- The document is not expanded. -/
  | transform (cause : IncludeError)
  /-- The output cannot be written. -/
  | write (cause : HostFault)
  deriving DecidableEq, Repr, Inhabited

namespace FilterError

/-- The wording of a filter error; a failed expansion speaks for itself. -/
def message : FilterError → String
  | .read _ => "failed to read the input document"
  | .transform cause => cause.message
  | .write _ => "failed to write the output document"

/-- The causes of a filter error. -/
def causes : FilterError → List String
  | .read cause => cause.fullMessage :: cause.causes
  | .transform cause => cause.causes
  | .write cause => [cause.message]

end FilterError

end Transclude
