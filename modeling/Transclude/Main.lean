import Transclude.CommandLine.Run

/-!
# The command

The command on the machine that it is called on.  This host starts no programs, so it includes
only files that are documents already.

Main definitions:

- The instance of {lit}`Host` for the machine.
- {lit}`main`: the command.
-/

namespace Transclude

namespace Machine

/-- The fault behind an error of the system. -/
def fault : IO.Error → HostFault
  | .noFileOrDirectory _ _ _ => .noSuchFile
  | .permissionDenied _ _ _ => .permissionDenied
  | .inappropriateType _ code _ => if code = 20 then .notADirectory else .isADirectory
  | .invalidArgument _ code _ => if code = 36 then .nameTooLong else .unsupported
  | _ => .unsupported

/-- Do something that may fail, and say why it did. -/
def attempt {α : Type} (action : IO α) : IO (Except HostFault α) :=
  try
    return .ok (← action)
  catch e => return .error (fault e)

/-- Whether a path leads to a regular file. -/
def isFile (path : String) : IO Bool :=
  try
    let place ← IO.FS.realPath path
    return (← place.metadata).type == .file
  catch _ => return false

/-- All bytes that a stream still holds. -/
partial def readAll (stream : IO.FS.Stream) (done : ByteArray) : IO ByteArray := do
  let piece ← stream.read 65536
  if piece.isEmpty then return done
  readAll stream (done ++ piece)

/-- The machine is a host that starts no programs. -/
instance : Host IO where
  environment? name := IO.getEnv name
  currentDir := return (← IO.currentDir).toString
  isFile := isFile
  isExecutable := isFile
  readFile path := attempt do return (← IO.FS.readBinFile path).toList
  writeFile path content := attempt do IO.FS.writeBinFile path ⟨content.toArray⟩
  start _ _ := return .error .unsupported
  readInput := do return (← readAll (← IO.getStdin) .empty).toList
  writeOutput bytes := do
    let stream ← IO.getStdout
    stream.write ⟨bytes.toArray⟩
    stream.flush
  writeError text := do
    let stream ← IO.getStderr
    stream.putStr text
    stream.flush

end Machine

end Transclude

/-- The command: expand the document on the standard input, or the one that the arguments name. -/
def main (arguments : List String) : IO UInt32 :=
  return UInt32.ofNat (← Transclude.CommandLine.execute arguments)
