import Transclude.Text.Extending
import Transclude.Text.Unprintable

/-!
# Escaped texts

A text between quotation marks for error messages, on one line and with nothing invisible in it.

Main definition:

- {lit}`Text.escaped`: the quoted form of a text.
-/

namespace Transclude.Text

/-- The hexadecimal digits of a number, in lower case and without leading zeros. -/
def hexDigits (n : Nat) : List Char :=
  Nat.toDigits 16 n

/-- A character in quoted form: the common controls and the marks that end a quotation have
short escapes, and other characters that cannot be seen on their own are given by number. -/
def escapedChar (c : Char) : List Char :=
  if c = '\x00' then ['\\', '0']
  else if c = '\t' then ['\\', 't']
  else if c = '\n' then ['\\', 'n']
  else if c = '\r' then ['\\', 'r']
  else if c = '"' then ['\\', '"']
  else if c = '\\' then ['\\', '\\']
  else if isExtending c || isUnprintable c then
    ['\\', 'u', '\x7b'] ++ hexDigits c.toNat ++ ['\x7d']
  else [c]

/-- The quoted form of a text. -/
def escaped (s : String) : String :=
  String.ofList ('"' :: s.toList.flatMap escapedChar ++ ['"'])

example : escaped "a\tb" = "\"a\\tb\"" := by decide +kernel
example : escaped "e\u0301" = "\"e\\u\x7b301\x7d\"" := by decide +kernel

end Transclude.Text
