/-!
# Faults of the host

What a host answers when it cannot do what it is asked for, and how programs end.

Main definitions:

- {lit}`HostFault`: why reading, writing or starting a program fails.
- {lit}`ExitStatus`: how a program ends.
-/

namespace Transclude

/-- Why reading, writing or starting a program fails. -/
inductive HostFault where
  | noSuchFile
  | permissionDenied
  | notADirectory
  | isADirectory
  | nameTooLong
  | unsupported
  | nulInPath
  | nulInArgument
  | invalidText
  | writerFull
  deriving DecidableEq, Repr, Inhabited

/-- The wording of a fault. -/
def HostFault.message : HostFault → String
  | .noSuchFile => "No such file or directory (os error 2)"
  | .permissionDenied => "Permission denied (os error 13)"
  | .notADirectory => "Not a directory (os error 20)"
  | .isADirectory => "Is a directory (os error 21)"
  | .nameTooLong => "File name too long (os error 36)"
  | .unsupported => "Function not implemented (os error 38)"
  | .nulInPath => "file name contained an unexpected NUL byte"
  | .nulInArgument => "nul byte found in provided data"
  | .invalidText => "stream did not contain valid UTF-8"
  | .writerFull => "writer is full"

/-- How a program ends: by itself, with a code, or by a signal. -/
inductive ExitStatus where
  | code (n : Nat)
  | signal (n : Nat)
  deriving DecidableEq, Repr, Inhabited

namespace ExitStatus

/-- Whether a program ended well. -/
def isSuccess (status : ExitStatus) : Bool :=
  status == .code 0

/-- The names of the signals that end a program. -/
def signalNames : List (Nat × String) :=
  [(1, "SIGHUP"), (2, "SIGINT"), (3, "SIGQUIT"), (4, "SIGILL"), (5, "SIGTRAP"), (6, "SIGABRT"),
    (7, "SIGBUS"), (8, "SIGFPE"), (9, "SIGKILL"), (10, "SIGUSR1"), (11, "SIGSEGV"),
    (12, "SIGUSR2"), (13, "SIGPIPE"), (14, "SIGALRM"), (15, "SIGTERM"), (16, "SIGSTKFLT"),
    (24, "SIGXCPU"), (25, "SIGXFSZ"), (26, "SIGVTALRM"), (27, "SIGPROF"), (29, "SIGIO"),
    (30, "SIGPWR"), (31, "SIGSYS")]

/-- The wording of a status. -/
def message : ExitStatus → String
  | .code n => "exit status: " ++ toString n
  | .signal n =>
    match signalNames.find? (·.1 == n) with
    | some (_, name) => "signal: " ++ toString n ++ " (" ++ name ++ ")"
    | none => "signal: " ++ toString n

end ExitStatus

end Transclude
