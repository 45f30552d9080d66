import Transclude.Host.Basic
import Transclude.Host.Convert
import Transclude.Host.FileSystem

/-!
# A world of its own

A host as a value: files, an environment, an input, and programs whose behaviour is a function of
their text, their arguments and the files.  Everything that a run on a host does can be computed
here, and stated as a fact about the world before and after.

Main definitions:

- {lit}`World`: a host and what has been written so far.
- {lit}`World.findProgram`: how the name of a program leads to its text.
-/

namespace Transclude

/-- What the run of a program comes to: how it ends, what it writes, and what it tells the user. -/
structure ProgramRun where
  status : ExitStatus
  output : List UInt8
  diagnostics : List UInt8
  deriving DecidableEq, Repr, Inhabited

/-- How programs behave: the run for the path and text of a program, its arguments and the
files. -/
abbrev Behaviour := FileSystem → (path : String) → (text : List UInt8) → (arguments : List String) →
  ProgramRun

/-- A host and what has been written so far. -/
structure World where
  files : FileSystem
  environment : List (String × String)
  input : List UInt8
  behaviour : Behaviour
  output : List UInt8 := []
  errors : List UInt8 := []

namespace World

/-- The value of a variable of the environment. -/
def environment? (w : World) (name : String) : Option String :=
  (w.environment.find? (·.1 == name)).map Prod.snd

/-- Search the directories of the search path for a program.  The search goes on where there is no
such program and where there is one that may not be run, and ends with any other fault.  When it
comes to nothing, a program that may not be run is the reason, or else what was wrong last. -/
def searchProgram (w : World) (program : String) (denied : Bool) (last : HostFault) :
    List String → Except HostFault (String × List UInt8)
  | [] => .error (if denied then .permissionDenied else last)
  | dir :: dirs =>
    let path := Convert.inDir dir program
    match w.files.readProgram path with
    | .ok text => .ok (path, text)
    | .error .permissionDenied => searchProgram w program true .permissionDenied dirs
    | .error .noSuchFile => searchProgram w program denied .noSuchFile dirs
    | .error .notADirectory => searchProgram w program denied .notADirectory dirs
    | .error fault => .error fault

/-- The path and text of a program.  A name without slashes is looked up on the search path. -/
def findProgram (w : World) (program : String) : Except HostFault (String × List UInt8) :=
  if program = "" then .error .noSuchFile
  else if program.toList.contains '/' then
    (w.files.readProgram program).map fun text => (program, text)
  else
    searchProgram w program false .noSuchFile
      (Convert.searchDirs ((w.environment? "PATH").getD ""))

/-- Run a program. -/
def start (w : World) (program : String) (arguments : List String) :
    Except HostFault ProgramRun :=
  if (program :: arguments).any fun s => s.toList.contains '\x00' then .error .nulInArgument
  else
    (w.findProgram program).map fun (path, text) => w.behaviour w.files path text arguments

/-- A world is a host to whoever may change it. -/
instance : Host (StateM World) where
  environment? name := return (← get).environment? name
  currentDir := return "/" ++ "/".intercalate (← get).files.currentDir
  isFile path := return (← get).files.isFile path
  isExecutable path := return (← get).files.isExecutable path
  readFile path := return (← get).files.read path
  writeFile path content := do
    match (← get).files.write path content with
    | .ok files =>
      modify fun w => { w with files }
      return .ok ()
    | .error fault => return .error fault
  start program arguments := do
    match (← get).start program arguments with
    | .ok run =>
      modify fun w => { w with errors := w.errors ++ run.diagnostics }
      return .ok (run.status, run.output)
    | .error fault => return .error fault
  readInput := return (← get).input
  writeOutput bytes := modify fun w => { w with output := w.output ++ bytes }
  writeError text := modify fun w => { w with errors := w.errors ++ Utf8.encode text }

end World

end Transclude
