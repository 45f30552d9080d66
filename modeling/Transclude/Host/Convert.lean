import Transclude.Host.Basic
import Transclude.Include.Expansion
import Transclude.Wire.Text

/-!
# Conversion by the host

Files become documents by an external program, which is asked to write its result in the data
format.  Files that are written in that format are read without it.

Main definitions:

- {lit}`Convert.locate`: the converter program of the host.
- {lit}`Convert.file`: the document of a file.
- {lit}`Convert.byProgram`: a converter for expansion.
-/

namespace Transclude.Convert

variable {m : Type → Type} [Monad m] [Host m]

/-- The name of the converter program, and of the variable that overrides where it lies. -/
def programName : String := "pandoc"

/-- The variable that names the converter program. -/
def programVariable : String := "PANDOC"

/-- The dialect of files that are documents already. -/
def documentDialect : String := "json"

/-! ## The program -/

/-- The directories of a search path; an empty one is the current directory. -/
def searchDirs (searchPath : String) : List String :=
  (Text.pieces ':' searchPath.toList).map String.ofList

/-- A file of a directory. -/
def inDir (dir name : String) : String :=
  if dir = "" then name
  else if dir.toList.getLast? = some '/' then dir ++ name
  else dir ++ "/" ++ name

/-- The components of a path without those that stay where they are. -/
def movingComponents (path : String) : List String :=
  (Path.components path).filter fun component => component ≠ "" ∧ component ≠ "."

/-- A directory of the search path with the home directory for a leading tilde. -/
def fromHome (home? : Option String) (dir : String) : String :=
  match home?, Path.components dir with
  | some home, "~" :: _ => (movingComponents dir).tail.foldl inDir home
  | _, _ => dir

/-- A path as it is seen from the root.  One that begins there stays as it is written. -/
def fromRoot (currentDir path : String) : String :=
  if Path.isRooted path then path else (movingComponents path).foldl inDir currentDir

/-- The first of some files that may be run. -/
def firstExecutable? : List String → m (Option String)
  | [] => return none
  | file :: files => do
    if ← Host.isExecutable file then return some file
    else firstExecutable? files

/-- The files that may be the program of that name, one for each directory of the search path. -/
def candidates (currentDir : String) (home? : Option String) (searchPath : String) : List String :=
  (searchDirs searchPath).map fun dir =>
    fromRoot currentDir (inDir (fromHome home? dir) programName)

/-- The program of that name on the search path, as it is seen from the root, or else the bare
name. -/
def searched : m String := do
  let searchPath := (← Host.environment? "PATH").getD ""
  let home? := (← Host.environment? "HOME").filter (· ≠ "")
  let found ← firstExecutable? (candidates (← Host.currentDir) home? searchPath)
  return found.getD programName

/-- The converter program: the file that the variable names, if it is one, or else what the
search path offers. -/
def locate : m String := do
  match ← Host.environment? programVariable with
  | some file => if ← Host.isFile file then return file else searched
  | none => searched

/-- The program that was asked for, or else that of the host. -/
def chosen (asked : Option String) : m String :=
  match asked with
  | some program => return program
  | none => locate

/-! ## Files -/

/-- The document of a file that is one already. -/
def documentFile (path : String) : m (Except ConverterError Document) := do
  match ← Host.readFile path with
  | .error fault => return .error (.io path fault)
  | .ok bytes =>
    match Utf8.decode bytes with
    | .error _ => return .error (.io path .invalidText)
    | .ok text => return (Document.ofText text).mapError (.parse path)

/-- The document that a run of the program yields. -/
def outcome (program path : String) (status : ExitStatus) (output : List UInt8) :
    Except ConverterError Document :=
  if status.isSuccess then
    match Utf8.decode output with
    | .error fault => .error (.invalidUtf8Output program fault)
    | .ok text => (Document.ofText text).mapError (.parse path)
  else .error (.nonZeroExit program path status)

/-- Convert a file by running the program. -/
def run (program path dialect : String) : m (Except ConverterError Document) := do
  match ← Host.start program ["-f", dialect, "-t", "json", path] with
  | .error fault => return .error (.spawnFailed program fault)
  | .ok (status, output) => return outcome program path status output

/-- The document of a file in a dialect. -/
def file (program path dialect : String) : m (Except ConverterError Document) := do
  if ← Host.isFile path then
    if dialect = documentDialect then documentFile path else run program path dialect
  else return .error (.notFound path)

/-- Convert the files of an expansion by a program. -/
def byProgram (program : String) : Converter m := fun request =>
  file program request.path.toText request.dialect

end Transclude.Convert
