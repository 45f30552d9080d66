/-!
# Options of inclusion

Main definition:

- {lit}`Options`: how directives are recognised and read, and how deep inclusion may go.
-/

namespace Transclude

/-- How directives are recognised and read, and how deep inclusion may go. -/
structure Options where
  /-- The first class of a block of code that is a directive. -/
  markerClass : String := "include"
  /-- The class of the divisions that hold included documents. -/
  containerClass : String := "included"
  /-- The dialect of files for which a directive names none. -/
  defaultDialect : String := "markdown"
  /-- What stands between a path and its dialect. -/
  separator : Char := '!'
  /-- How many files may be open at once. -/
  maxDepth : Nat := 64
  deriving DecidableEq, Repr

instance : Inhabited Options := ⟨{}⟩

end Transclude
