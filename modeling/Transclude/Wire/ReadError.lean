import Transclude.Document.Basic

/-!
# Why a document cannot be read

Main definitions:

- {lit}`Misfit`: how a value differs from what its place asks for.
- {lit}`ReadError`: the causes for which reading fails.
- {lit}`ReadError.message`: their wording.
-/

namespace Transclude

/-- How a value differs from what its place asks for; {lit}`place` names the place. -/
inductive Misfit where
  | notString (place : String)
  | notInteger (place : String)
  | notNumber (place : String)
  | notBoolean (place : String)
  | notSmallIntegers (place : String)
  | notArray (place : String)
  | notObject (place : String)
  | wrongLength (place : String) (expected found : Nat)
  deriving DecidableEq, Repr, Inhabited

/-- Why a document cannot be read. -/
inductive ReadError where
  /-- The text is no value of the data format. -/
  | invalidJson
  /-- An object lacks a member. -/
  | missingField (name : String)
  /-- A node lacks the content that its tag asks for. -/
  | missingContent (tag : String)
  /-- A value does not fit its place. -/
  | invalidType (misfit : Misfit)
  /-- A name is none of those that a kind of node or choice has. -/
  | unsupportedVariant (kind name : String)
  /-- The document has another version. -/
  | unsupportedApiVersion (version : ApiVersion)
  deriving DecidableEq, Repr, Inhabited

/-- What the place asks for. -/
def Misfit.message : Misfit → String
  | .notString place => place ++ " must be a string"
  | .notInteger place => place ++ " must be an integer"
  | .notNumber place => place ++ " must be a number"
  | .notBoolean place => place ++ " must be a boolean"
  | .notSmallIntegers place => place ++ " must be small integers"
  | .notArray place => "Expected array for " ++ place
  | .notObject place => "Expected object for " ++ place
  | .wrongLength place expected found =>
    place ++ " array must have " ++ toString expected ++ " elements, found " ++ toString found

/-- A version as a bracketed list of its numbers. -/
def ApiVersion.display (version : ApiVersion) : String :=
  "[" ++ ", ".intercalate (version.map fun n => toString n.toNat) ++ "]"

/-- The wording of a cause.  What is wrong with a text that is no JSON is left unsaid. -/
def ReadError.message : ReadError → String
  | .invalidJson => "invalid JSON"
  | .missingField name => "missing required field: " ++ name
  | .missingContent tag => "missing required field: c (in " ++ tag ++ ")"
  | .invalidType misfit => "invalid type: " ++ misfit.message
  | .unsupportedVariant kind name => "unrecognized node kind: " ++ kind ++ " " ++ name
  | .unsupportedApiVersion version =>
    "unsupported pandoc-api-version " ++ version.display ++ " (expected 1.17.x)"

example : (ReadError.unsupportedApiVersion [1, 22]).message =
    "unsupported pandoc-api-version [1, 22] (expected 1.17.x)" := by decide +kernel

end Transclude
