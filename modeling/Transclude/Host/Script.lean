import Transclude.Host.World

/-!
# Scripts

Programs that are short scripts of built-in commands, in the common subset of the command
language: words with quotes and parameters, lists of commands with their connectors, and output
that goes to the user.  Scripts have no input.

They only serve test worlds, where a script stands in for the converter.  No run depends on them,
and what is proved of worlds holds whatever the behaviour of their programs is.

Main definitions:

- {lit}`Script.Token.scan`: the words and connectors of a script.
- {lit}`Script.Command.ofTokens`: the commands of a script, each with its connector.
- {lit}`Script.behaviour`: scripts as the programs of a world.
-/

namespace Transclude.Script

/-! ## Words -/

/-- A piece of a word: text as it stands, or a parameter, which is split at blanks unless it is
quoted. -/
inductive Piece where
  | text (s : List Char)
  | parameter (name : Char) (quoted : Bool)
  deriving DecidableEq, Repr, Inhabited

/-- A word that has not been expanded. -/
abbrev Word := List Piece

/-- The words and connectors of a script.  A redirection names the stream that is redirected, and
the one it goes to, unless it goes to the file that the next word names. -/
inductive Token where
  | word (w : Word)
  | both
  | either
  | next
  | newline
  | redirect (stream : Nat) (target : Option Nat)
  deriving DecidableEq, Repr, Inhabited

namespace Token

/-- What surrounds a character: nothing, single or double quotes, or a comment. -/
inductive Quoting where
  | bare
  | single
  | double
  | comment
  deriving DecidableEq

/-- Add a piece to the word under construction, if there is one. -/
def extend (word : Option Word) (piece : Piece) : Option Word :=
  some (word.getD [] ++ [piece])

/-- The token of the word under construction, if there is one. -/
def finish (word : Option Word) : List Token :=
  match word with
  | some w => [.word w]
  | none => []

/-- The stream that a number in front of a redirection names. -/
def redirected (word : Option Word) : List Token × Nat :=
  match word with
  | some [.text ['1']] => ([], 1)
  | some [.text ['2']] => ([], 2)
  | _ => (finish word, 1)

/-- Whether a character names a parameter. -/
def isParameter (c : Char) : Bool :=
  c.isDigit || c == '#' || c == '?' || c == '$' || c == '*' || c == '@'

/-- The tokens of a script, in the middle of a word or between words. -/
def scan : Quoting → Option Word → List Char → List Token
  | _, part, [] => finish part
  | .single, part, '\'' :: rest => scan .bare (extend part (.text [])) rest
  | .single, part, c :: rest => scan .single (extend part (.text [c])) rest
  | .double, part, '"' :: rest => scan .bare (extend part (.text [])) rest
  | .double, part, '\\' :: '\n' :: rest => scan .double part rest
  | .double, part, '\\' :: c :: rest =>
    if c = '$' ∨ c = '"' ∨ c = '\\' ∨ c = '\x60' then
      scan .double (extend part (.text [c])) rest
    else scan .double (extend part (.text ['\\', c])) rest
  | .double, part, '$' :: c :: rest =>
    if isParameter c then scan .double (extend part (.parameter c true)) rest
    else scan .double (extend part (.text ['$', c])) rest
  | .double, part, c :: rest => scan .double (extend part (.text [c])) rest
  | .comment, part, '\n' :: rest => finish part ++ .newline :: scan .bare none rest
  | .comment, part, _ :: rest => scan .comment part rest
  | .bare, none, '#' :: rest => scan .comment none rest
  | .bare, part, '\'' :: rest => scan .single (extend part (.text [])) rest
  | .bare, part, '"' :: rest => scan .double (extend part (.text [])) rest
  | .bare, part, '\\' :: '\n' :: rest => scan .bare part rest
  | .bare, part, '\\' :: c :: rest => scan .bare (extend part (.text [c])) rest
  | .bare, part, '$' :: c :: rest =>
    if isParameter c then scan .bare (extend part (.parameter c false)) rest
    else scan .bare (extend part (.text ['$', c])) rest
  | .bare, part, '&' :: '&' :: rest => finish part ++ .both :: scan .bare none rest
  | .bare, part, '|' :: '|' :: rest => finish part ++ .either :: scan .bare none rest
  | .bare, part, '>' :: '&' :: '1' :: rest =>
    (redirected part).1 ++ .redirect (redirected part).2 (some 1) :: scan .bare none rest
  | .bare, part, '>' :: '&' :: '2' :: rest =>
    (redirected part).1 ++ .redirect (redirected part).2 (some 2) :: scan .bare none rest
  | .bare, part, '>' :: rest =>
    (redirected part).1 ++ .redirect (redirected part).2 none :: scan .bare none rest
  | .bare, part, c :: rest =>
    if c = ' ' ∨ c = '\t' then finish part ++ scan .bare none rest
    else if c = ';' then finish part ++ .next :: scan .bare none rest
    else if c = '\n' then finish part ++ .newline :: scan .bare none rest
    else scan .bare (extend part (.text [c])) rest

end Token

/-! ## Commands -/

/-- When a command runs: always, or after one that succeeded or failed. -/
inductive Connector where
  | always
  | ifSucceeded
  | ifFailed
  deriving DecidableEq, Repr, Inhabited

/-- A command: when it runs, the line it begins on, its words, and where its two output streams
go. -/
structure Command where
  connector : Connector
  line : Nat
  words : List Word := []
  redirections : List (Nat × Option Nat) := []
  deriving Repr, Inhabited

/-- Whether a command has nothing in it yet. -/
def Command.isEmpty (command : Command) : Bool :=
  command.words.isEmpty && command.redirections.isEmpty

/-- How many ends of lines a word spans. -/
def lineEnds (w : Word) : Nat :=
  w.foldl (fun n piece =>
    match piece with
    | .text s => n + s.count '\n'
    | .parameter _ _ => n) 0

/-- The commands of a script from a line on; a word that follows a redirection to a file is its
name, and the end of a line ends no command that has not begun. -/
def Command.ofTokens (current : Command) (line : Nat) (naming : Bool) : List Token → List Command
  | [] => [current]
  | .word w :: rest =>
    if naming then ofTokens current (line + lineEnds w) false rest
    else ofTokens { current with words := current.words ++ [w] } (line + lineEnds w) false rest
  | .redirect stream target :: rest =>
    ofTokens { current with redirections := current.redirections ++ [(stream, target)] } line
      target.isNone rest
  | .next :: rest => current :: ofTokens ⟨.always, line, [], []⟩ line false rest
  | .newline :: rest =>
    if current.isEmpty then ofTokens { current with line := line + 1 } (line + 1) false rest
    else current :: ofTokens ⟨.always, line + 1, [], []⟩ (line + 1) false rest
  | .both :: rest => current :: ofTokens ⟨.ifSucceeded, line, [], []⟩ line false rest
  | .either :: rest => current :: ofTokens ⟨.ifFailed, line, [], []⟩ line false rest

/-! ## Expansion of words -/

/-- What a script knows: the files, its own path, its arguments, the last status and the line of
the command at hand. -/
structure Context where
  files : FileSystem
  path : String
  arguments : List String
  status : Nat
  line : Nat

/-- The process number of a script. -/
def processNumber : String := "1"

/-- The value of a parameter. -/
def Context.value (context : Context) (name : Char) : List Char :=
  if name = '#' then (toString context.arguments.length).toList
  else if name = '?' then (toString context.status).toList
  else if name = '$' then processNumber.toList
  else if name = '*' ∨ name = '@' then (" ".intercalate context.arguments).toList
  else if name = '0' then context.path.toList
  else (context.arguments.getD (name.toNat - '0'.toNat - 1) "").toList

/-- The words that pieces expand to, given the word that has been started.  All arguments in quotes
stay the words that they are. -/
def expandPieces (context : Context) (word : Option (List Char)) : Word → List (List Char)
  | [] => word.toList
  | .text s :: rest => expandPieces context (some (word.getD [] ++ s)) rest
  | .parameter '@' true :: rest =>
    match context.arguments.map String.toList with
    | [] => expandPieces context word rest
    | [only] => expandPieces context (some (word.getD [] ++ only)) rest
    | first :: second :: more =>
      (word.getD [] ++ first) :: (second :: more).dropLast ++
        expandPieces context (some ((second :: more).getLastD [])) rest
  | .parameter name true :: rest =>
    expandPieces context (some (word.getD [] ++ context.value name)) rest
  | .parameter name false :: rest =>
    let value := (context.value name).map fun c => if c = '\t' ∨ c = '\n' then ' ' else c
    match Text.pieces ' ' value with
    | [] => expandPieces context word rest
    | [only] =>
      expandPieces context (if only.isEmpty then word else some (word.getD [] ++ only)) rest
    | first :: second :: more =>
      let front := if first.isEmpty then word.toList else [word.getD [] ++ first]
      let inner := ((second :: more).dropLast).filter fun piece => !piece.isEmpty
      let last := (second :: more).getLastD []
      front ++ inner ++ expandPieces context (if last.isEmpty then none else some last) rest

/-- The words of a command. -/
def Context.expand (context : Context) (words : List Word) : List String :=
  (words.flatMap (expandPieces context none)).map String.ofList

/-! ## Written text -/

/-- The byte of a one-letter escape. -/
def escapeByte? (c : Char) : Option UInt8 :=
  if c = 'a' then some 7 else if c = 'b' then some 8 else if c = 'e' then some 27
  else if c = 'f' then some 12 else if c = 'n' then some 10 else if c = 'r' then some 13
  else if c = 't' then some 9 else if c = 'v' then some 11 else if c = '\\' then some 92
  else none

/-- The value of an octal digit. -/
def octalValue? (c : Char) : Option Nat :=
  if '0' ≤ c ∧ c ≤ '7' then some (c.toNat - '0'.toNat) else none

/-- Where the reading of escapes is: outside of any, after a backslash, or in an octal number
that may have so many digits more. -/
inductive Escape where
  | outside
  | begun
  | octal (value digitsLeft : Nat)

/-- Bytes in front of an outcome. -/
def emit (bytes : List UInt8) (outcome : List UInt8 × Bool) : List UInt8 × Bool :=
  (bytes ++ outcome.1, outcome.2)

/-- The bytes of a text with escapes, and whether it asks for an end of all output.  Where
{lit}`zeroed`, a zero in front of an octal number does not count as a digit. -/
def unescape (zeroed : Bool) : Escape → List Char → List UInt8 × Bool
  | .outside, [] => ([], false)
  | .begun, [] => ([92], false)
  | .octal value _, [] => ([UInt8.ofNat value], false)
  | .outside, c :: rest =>
    if c = '\\' then unescape zeroed .begun rest
    else emit (Utf8.encodeChar c) (unescape zeroed .outside rest)
  | .begun, c :: rest =>
    match escapeByte? c, octalValue? c with
    | some b, _ => emit [b] (unescape zeroed .outside rest)
    | none, some digit =>
      unescape zeroed (.octal digit (if zeroed && digit = 0 then 3 else 2)) rest
    | none, none =>
      if zeroed && c == 'c' then ([], true)
      else emit (92 :: Utf8.encodeChar c) (unescape zeroed .outside rest)
  | .octal value digitsLeft, c :: rest =>
    match octalValue? c, digitsLeft with
    | some digit, more + 1 => unescape zeroed (.octal (value * 8 + digit) more) rest
    | _, _ =>
      if c = '\\' then emit [UInt8.ofNat value] (unescape zeroed .begun rest)
      else emit (UInt8.ofNat value :: Utf8.encodeChar c) (unescape zeroed .outside rest)

/-- Words with blanks between them, on a line of their own unless the first asks for none. -/
def echo (words : List String) : List UInt8 :=
  let bare := words.head? == some "-n"
  let text := " ".intercalate (if bare then words.tail else words)
  let (bytes, ended) := unescape true .outside text.toList
  if bare || ended then bytes else bytes ++ [10]

/-- A part of a format: text as it stands, or the place of an argument, whose own escapes count or
do not. -/
inductive Segment where
  | text (s : List Char)
  | argument (escapes : Bool)
  deriving DecidableEq, Repr, Inhabited

/-- The parts of a format, of which the first begins with some text. -/
def segments (text : List Char) : List Char → List Segment
  | [] => [.text text]
  | '%' :: '%' :: rest => segments (text ++ ['%']) rest
  | '%' :: 's' :: rest => .text text :: .argument false :: segments [] rest
  | '%' :: 'b' :: rest => .text text :: .argument true :: segments [] rest
  | c :: rest => segments (text ++ [c]) rest

/-- One round through a format: the bytes, and the arguments that it leaves. -/
def fillFormat : List Segment → List String → List UInt8 × List String
  | [], arguments => ([], arguments)
  | .text s :: rest, arguments =>
    let (bytes, left) := fillFormat rest arguments
    ((unescape false .outside s).1 ++ bytes, left)
  | .argument escapes :: rest, arguments =>
    let (bytes, left) := fillFormat rest arguments.tail
    let value := arguments.headD ""
    ((if escapes then (unescape true .outside value.toList).1 else Utf8.encode value) ++ bytes,
      left)

/-- The bytes of a format whose rounds go on as long as there are arguments, a number of times at
most. -/
def format (parts : List Segment) : Nat → List String → List UInt8
  | 0, _ => []
  | rounds + 1, arguments =>
    let (bytes, left) := fillFormat parts arguments
    if left.isEmpty || left.length = arguments.length then bytes
    else bytes ++ format parts rounds left

/-! ## Built-in commands -/

/-- What a command comes to: it goes on with a status and some output, or the script ends, perhaps
with a complaint. -/
inductive Effect where
  | go (status : Nat) (output : List UInt8)
  | stop (status : ExitStatus) (complaint : List UInt8 := [])
  deriving DecidableEq, Repr, Inhabited

/-- The numbers of signals by name. -/
def signalNumber? (name : String) : Option Nat :=
  match name.toNat? with
  | some n => some n
  | none =>
    (ExitStatus.signalNames.find? fun s => s.2 == name || s.2 == "SIG" ++ name).map Prod.fst

/-- Whether a condition holds. -/
def test (files : FileSystem) : List String → Bool
  | [] => false
  | [s] => s != ""
  | ["-n", s] => s != ""
  | ["-z", s] => s == ""
  | ["-f", path] => files.isFile path
  | ["-x", path] => files.isExecutable path
  | ["-e", path] => (files.locate path).isOk
  | ["-d", path] => (files.locate path).isOk && !files.isFile path
  | ["-s", path] =>
    match files.read path with
    | .ok content => !content.isEmpty
    | .error _ => false
  | [a, "=", b] => a == b
  | [a, "!=", b] => a != b
  | [a, "-eq", b] => a.toNat? == b.toNat?
  | [a, "-ne", b] => a.toNat? != b.toNat?
  | "!" :: rest => !test files rest
  | _ => false

/-- The status of a condition. -/
def testStatus (holds : Bool) : Nat :=
  if holds then 0 else 1

/-- A complaint about the command at hand. -/
def Context.complaint (context : Context) (text : String) : List UInt8 :=
  Utf8.encode (context.path ++ ": " ++ toString context.line ++ ": " ++ text ++ "\n")

/-- The end of a script with the code that is asked for, or else the last status. -/
def exit (context : Context) (code? : Option String) : Effect :=
  match code? with
  | none => .stop (.code context.status)
  | some code =>
    if code ≠ "" ∧ code.toList.all Char.isDigit then .stop (.code (code.toNat?.getD 0 % 256))
    else .stop (.code 2) (context.complaint ("exit: Illegal number: " ++ code))

/-- The effect of a signal that a script sends to itself, unless it is one that ends no program. -/
def signalled : Option Nat → Effect
  | none => .go 1 []
  | some n => if ExitStatus.signalNames.any (·.1 == n) then .stop (.signal n) else .go 0 []

/-- Run a built-in command; what is not built in is not found. -/
def builtin (context : Context) (name : String) (arguments : List String) : Effect :=
  if name = "echo" then .go 0 (echo arguments)
  else if name = "printf" then
    .go 0 (format (segments [] (arguments.headD "").toList) (arguments.length + 1) arguments.tail)
  else if name = "exit" then exit context arguments.head?
  else if name = "kill" then
    match arguments with
    | [signal, _] => signalled (signalNumber? (String.ofList (signal.toList.drop 1)))
    | ["-s", signal, _] => signalled (signalNumber? signal)
    | [_] => signalled (some 15)
    | _ => .go 2 []
  else if name = "true" ∨ name = ":" then .go 0 []
  else if name = "false" ∨ name = "read" then .go 1 []
  else if name = "test" then .go (testStatus (test context.files arguments)) []
  else if name = "[" then .go (testStatus (test context.files arguments.dropLast)) []
  else .go 127 (context.complaint (name ++ ": not found"))

/-! ## Runs -/

/-- Where the output of a stream goes after some redirections: to a stream, or nowhere. -/
def destination (redirections : List (Nat × Option Nat)) (stream : Nat) : Option Nat :=
  redirections.foldl
    (fun streams r => fun s => if s = r.1 then r.2.bind streams else streams s)
    (fun s => some s) stream

/-- Run commands one after the other. -/
def runCommands (context : Context) (output diagnostics : List UInt8) :
    List Command → ProgramRun
  | [] => ⟨.code context.status, output, diagnostics⟩
  | command :: commands =>
    let skipped :=
      match command.connector with
      | .always => false
      | .ifSucceeded => context.status != 0
      | .ifFailed => context.status == 0
    match context.expand command.words with
    | [] => runCommands context output diagnostics commands
    | name :: arguments =>
      if skipped then runCommands context output diagnostics commands
      else
        match builtin { context with line := command.line } name arguments with
        | .stop status complaint => ⟨status, output, diagnostics ++ complaint⟩
        | .go status written =>
          let stream := if status = 127 then 2 else 1
          let context := { context with status }
          match destination command.redirections stream with
          | some 1 => runCommands context (output ++ written) diagnostics commands
          | some 2 => runCommands context output (diagnostics ++ written) commands
          | _ => runCommands context output diagnostics commands

/-- The lines of a script after the first, which names its interpreter. -/
def scriptBody (text : List Char) : List Char :=
  match text with
  | '#' :: '!' :: _ => text.dropWhile (· != '\n')
  | _ => text

/-- Scripts as the programs of a world. -/
def behaviour : Behaviour := fun files path text arguments =>
  match Utf8.decode text with
  | .error _ => ⟨.code 127, [], []⟩
  | .ok source =>
    let tokens := Token.scan .bare none (scriptBody source.toList)
    runCommands ⟨files, path, arguments, 0, 0⟩ [] []
      (Command.ofTokens ⟨.always, 1, [], []⟩ 1 false tokens)

end Transclude.Script
