import Transclude.Json.Numeral
import Transclude.Json.Quoted
import Transclude.Number.Shortest

/-!
# Tokens

The words of the data format: brackets, separators, strings, numbers and the three literals.
Reading drops blanks between tokens; writing puts none.

Main results:

- Definition {lit}`Token.spelling`: the written form of a token.
- Definition {lit}`Token.scanAll`: the tokens of a text, none when it is malformed.
- Theorem {lit}`Token.scan_length_le`: a scanned token takes at least one character.
-/

namespace Transclude.Json

/-- A word of the format. -/
inductive Token where
  | openArray
  | closeArray
  | openObject
  | closeObject
  | comma
  | colon
  | str (s : String)
  | num (n : Number)
  | bool (b : Bool)
  | null
  deriving DecidableEq, Repr, Inhabited

/-- Doubles are positional from {lit}`1e-5` up to {lit}`1e16` and scientific beyond. -/
def doubleLayout : DecimalLayout :=
  ⟨-5, 16⟩

/-- The written form of a number; one that is not finite has none and is written as null. -/
def numberSpelling : Number → List Char
  | .int n => if n < 0 then '-' :: Decimal.spelling n.natAbs else Decimal.spelling n.natAbs
  | .double x => if x.isFinite then doubleLayout.render x else ['n', 'u', 'l', 'l']

namespace Token

/-- The written form of a token. -/
def spelling : Token → List Char
  | .openArray => ['[']
  | .closeArray => [']']
  | .openObject => ['\x7b']
  | .closeObject => ['\x7d']
  | .comma => [',']
  | .colon => [':']
  | .str s => Quoted.spelling s.toList
  | .num n => numberSpelling n
  | .bool true => ['t', 'r', 'u', 'e']
  | .bool false => ['f', 'a', 'l', 's', 'e']
  | .null => ['n', 'u', 'l', 'l']

/-- Whether a character may stand between tokens. -/
def isBlank (c : Char) : Bool :=
  c == ' ' || c == '\t' || c == '\n' || c == '\r'

/-- The rest of a literal after its first character. -/
def scanLiteral (literal : List Char) (token : Token) (s : List Char) :
    Option (Token × List Char) :=
  if literal.isPrefixOf s then some (token, s.drop literal.length) else none

/-- The numeral in front of a text, if its value is in range. -/
def scanNumber (s : List Char) : Option (Token × List Char) := do
  let (numeral, rest) ← Numeral.scan s
  let n ← numeral.value?
  return (.num n, rest)

/-- The token that starts with a given character, and the text after it. -/
def scan (c : Char) (rest : List Char) : Option (Token × List Char) :=
  if c = '[' then some (.openArray, rest)
  else if c = ']' then some (.closeArray, rest)
  else if c = '\x7b' then some (.openObject, rest)
  else if c = '\x7d' then some (.closeObject, rest)
  else if c = ',' then some (.comma, rest)
  else if c = ':' then some (.colon, rest)
  else if c = '"' then
    (Quoted.scan rest).map fun (text, after) => (.str (String.ofList text), after)
  else if c = 't' then scanLiteral ['r', 'u', 'e'] (.bool true) rest
  else if c = 'f' then scanLiteral ['a', 'l', 's', 'e'] (.bool false) rest
  else if c = 'n' then scanLiteral ['u', 'l', 'l'] .null rest
  else scanNumber (c :: rest)

theorem scanLiteral_length_le {literal s rest : List Char} {t u : Token}
    (h : scanLiteral literal t s = some (u, rest)) : rest.length ≤ s.length := by
  unfold scanLiteral at h
  split at h
  · simp only [Option.some.injEq, Prod.mk.injEq] at h
    simp [← h.2]
  · simp at h

theorem scanNumber_length_lt {s rest : List Char} {t : Token}
    (h : scanNumber s = some (t, rest)) : rest.length < s.length := by
  simp only [scanNumber, bind, Option.bind_eq_some_iff, pure, Option.some.injEq,
    Prod.mk.injEq] at h
  obtain ⟨⟨numeral, after⟩, hscan, n, -, -, rfl⟩ := h
  exact Numeral.scan_length_lt hscan

/-- A scanned token takes at least one character. -/
theorem scan_length_le {c : Char} {s rest : List Char} {t : Token}
    (h : scan c s = some (t, rest)) : rest.length ≤ s.length := by
  unfold scan at h
  repeat' split at h
  all_goals first
    | (simp only [Option.some.injEq, Prod.mk.injEq] at h; simp [h.2])
    | exact scanLiteral_length_le h
    | exact Nat.le_of_lt_succ (scanNumber_length_lt h)
    | (obtain ⟨⟨text, after⟩, hscan, h⟩ := Option.map_eq_some_iff.1 h
       have := Quoted.scan_length_lt hscan
       simp only [Prod.mk.injEq] at h
       rw [← h.2]
       omega)

/-- The tokens of a text, none when some part of it is no token. -/
def scanAll (s : List Char) : Option (List Token) :=
  match s with
  | [] => some []
  | c :: rest =>
    if isBlank c then scanAll rest
    else
      match (scan c rest).attach with
      | none => none
      | some ⟨(token, after), _h⟩ => (scanAll after).map (token :: ·)
termination_by s.length
decreasing_by
  · simp
  · have := scan_length_le _h
    simp only [List.length_cons]
    omega

end Token

end Transclude.Json
