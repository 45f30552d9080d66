import Transclude.Host.Fault

/-!
# Hosts

What a program needs of the machine that it runs on.

Main definitions:

- {lit}`Host`: a monad with files, programs, an environment and standard streams.
-/

namespace Transclude

/-- A monad with files, programs, an environment and standard streams. -/
class Host (m : Type → Type) where
  /-- The value of a variable of the environment. -/
  environment? : String → m (Option String)
  /-- The current directory. -/
  currentDir : m String
  /-- Whether a path leads to a regular file. -/
  isFile : String → m Bool
  /-- Whether a path leads to a regular file that may be run. -/
  isExecutable : String → m Bool
  /-- The bytes of a file.  A directory can be opened, but has no bytes. -/
  readFile : String → m (Except HostFault (List UInt8))
  /-- Give a file new bytes; a file that does not exist is created. -/
  writeFile : String → List UInt8 → m (Except HostFault Unit)
  /-- Run a program with arguments and no input: how it ends, and what it writes.  What it writes
  for the user goes straight to the user. -/
  start : (program : String) → (arguments : List String) →
    m (Except HostFault (ExitStatus × List UInt8))
  /-- All bytes of the standard input. -/
  readInput : m (List UInt8)
  /-- Write to the standard output. -/
  writeOutput : List UInt8 → m Unit
  /-- Write for the user. -/
  writeError : String → m Unit

end Transclude
