import Transclude.Host.Fault
import Transclude.Path
import Transclude.Text.Utf8

/-!
# File systems

A tree of directories and regular files without links, and how the text of a path is followed
through it.  Unlike resolution by text alone, every directory on the way has to be there.

Main definitions:

- {lit}`FileSystem.locate`: the place in the tree that a path leads to.
- {lit}`FileSystem.read`, {lit}`FileSystem.write`: the bytes of a file.
-/

namespace Transclude

/-- A directory, or a regular file that may or may not be run. -/
inductive Entry where
  | directory
  | file (content : List UInt8) (executable : Bool)
  deriving DecidableEq, Repr, Inhabited

/-- The entries of a tree by the names that lead to them from the root, and the names that lead to
the current directory. -/
structure FileSystem where
  entries : List (List String × Entry)
  currentDir : List String
  deriving Inhabited

namespace FileSystem

/-- The entry at a place; the root is always there. -/
def entry? (fs : FileSystem) (place : List String) : Option Entry :=
  if place.isEmpty then some .directory
  else (fs.entries.find? (·.1 == place)).map Prod.snd

/-- Put an entry at a place. -/
def put (fs : FileSystem) (place : List String) (entry : Entry) : FileSystem :=
  { fs with entries := (place, entry) :: fs.entries.filter (·.1 != place) }

/-- Put an entry at a place, and directories at all places on the way that are empty. -/
def install (fs : FileSystem) (place : List String) (entry : Entry) : FileSystem :=
  let ancestors := (List.range place.length).map place.take
  let withDirs := ancestors.foldl
    (fun fs dir => if (fs.entry? dir).isSome then fs else fs.put dir .directory) fs
  withDirs.put place entry

/-! ## Following paths -/

/-- The most bytes that a component of a path may have. -/
def nameLimit : Nat := 255

/-- The most bytes that a path may have. -/
def pathLimit : Nat := 4095

/-- The place that one component leads to from a directory.  Whether something is there is not
asked. -/
def step (fs : FileSystem) (place : List String) (component : String) :
    Except HostFault (List String) :=
  match fs.entry? place with
  | none => .error .noSuchFile
  | some (.file _ _) => .error .notADirectory
  | some .directory =>
    if nameLimit < component.utf8ByteSize then .error .nameTooLong
    else if component = "" ∨ component = "." then .ok place
    else if component = ".." then .ok place.dropLast
    else .ok (place ++ [component])

/-- What is wrong with the text of a path before it is followed. -/
def textFault? (path : String) : Option HostFault :=
  if path.toList.contains '\x00' then some .nulInPath
  else if path = "" then some .noSuchFile
  else if pathLimit < path.utf8ByteSize then some .nameTooLong
  else none

/-- The place where a path starts. -/
def startOf (fs : FileSystem) (path : String) : List String :=
  if Path.isRooted path then [] else fs.currentDir

/-- The place that a path leads to, and what is there. -/
def locate (fs : FileSystem) (path : String) : Except HostFault (List String × Entry) := do
  if let some fault := textFault? path then throw fault
  let place ← (Path.components path).foldlM fs.step (fs.startOf path)
  match fs.entry? place with
  | some entry => return (place, entry)
  | none => throw .noSuchFile

/-! ## Files -/

/-- Whether a path leads to a regular file. -/
def isFile (fs : FileSystem) (path : String) : Bool :=
  match fs.locate path with
  | .ok (_, .file _ _) => true
  | _ => false

/-- Whether a path leads to a regular file that may be run. -/
def isExecutable (fs : FileSystem) (path : String) : Bool :=
  match fs.locate path with
  | .ok (_, .file _ executable) => executable
  | _ => false

/-- The bytes of a file. -/
def read (fs : FileSystem) (path : String) : Except HostFault (List UInt8) := do
  match (← fs.locate path).2 with
  | .file content _ => return content
  | .directory => throw .isADirectory

/-- The bytes of a program. -/
def readProgram (fs : FileSystem) (path : String) : Except HostFault (List UInt8) := do
  match (← fs.locate path).2 with
  | .file content true => return content
  | _ => throw .permissionDenied

/-- Give a file new bytes.  Its directory has to be there; the file need not be.  A path that ends
in a slash or in dots names no file. -/
def write (fs : FileSystem) (path : String) (content : List UInt8) :
    Except HostFault FileSystem := do
  if let some fault := textFault? path then throw fault
  let components := (Path.components path).reverse.dropWhile (· == "")
  let dir ← components.tail.reverse.foldlM fs.step (fs.startOf path)
  let name := components.headD ""
  if path.toList.getLast? = some '/' ∨ name = "." ∨ name = ".." then
    let _ ← fs.step dir "."
    throw .isADirectory
  let place ← fs.step dir name
  match fs.entry? place with
  | some .directory => throw .isADirectory
  | some (.file _ executable) => return fs.put place (.file content executable)
  | none => return fs.put place (.file content false)

end FileSystem

end Transclude
