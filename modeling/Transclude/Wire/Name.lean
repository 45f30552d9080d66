import Transclude.Document.Tag

/-!
# Written names

The names under which the choices inside a node are written.

Main results:

- Instances of {lit}`Named` for every choice.
- Class {lit}`Choice`: the written name of the kind of choice, which errors mention.
-/

namespace Transclude

/-- A choice that is written as an object holding nothing but its name. -/
class Choice (α : Type) extends Named α where
  kind : String

instance : Choice QuoteKind where
  kind := "QuoteType"
  all := [.single, .double]
  name
    | .single => "SingleQuote"
    | .double => "DoubleQuote"
  find?_name a := by cases a <;> rfl

instance : Choice MathKind where
  kind := "MathType"
  all := [.inline, .display]
  name
    | .inline => "InlineMath"
    | .display => "DisplayMath"
  find?_name a := by cases a <;> rfl

instance : Choice CitationMode where
  kind := "CitationMode"
  all := [.authorInText, .suppressAuthor, .normal]
  name
    | .authorInText => "AuthorInText"
    | .suppressAuthor => "SuppressAuthor"
    | .normal => "NormalCitation"
  find?_name a := by cases a <;> rfl

instance : Choice NumberStyle where
  kind := "ListNumberStyle"
  all := [.default, .example, .decimal, .lowerRoman, .upperRoman, .lowerAlpha, .upperAlpha]
  name
    | .default => "DefaultStyle"
    | .example => "Example"
    | .decimal => "Decimal"
    | .lowerRoman => "LowerRoman"
    | .upperRoman => "UpperRoman"
    | .lowerAlpha => "LowerAlpha"
    | .upperAlpha => "UpperAlpha"
  find?_name a := by cases a <;> rfl

instance : Choice NumberDelimiter where
  kind := "ListNumberDelim"
  all := [.default, .period, .oneParen, .twoParens]
  name
    | .default => "DefaultDelim"
    | .period => "Period"
    | .oneParen => "OneParen"
    | .twoParens => "TwoParens"
  find?_name a := by cases a <;> rfl

instance : Choice Alignment where
  kind := "Alignment"
  all := [.left, .right, .center, .default]
  name
    | .left => "AlignLeft"
    | .right => "AlignRight"
    | .center => "AlignCenter"
    | .default => "AlignDefault"
  find?_name a := by cases a <;> rfl

end Transclude
