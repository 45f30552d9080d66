/-!
# Attributes

The identifier, classes and key-value pairs that code, divisions, headers, links and spans
carry.  Pairs keep their order, and a key may occur more than once.

Main definitions:

- {lit}`Attr.empty`, {lit}`Attr.ofClasses`: the attributes that built nodes have.
- {lit}`Attr.firstClass?`: the class that tells what a code block is.
-/

namespace Transclude

/-- An identifier, classes and key-value pairs. -/
structure Attr where
  id : String
  classes : List String
  pairs : List (String × String)
  deriving DecidableEq, Repr, Inhabited

namespace Attr

/-- No identifier, no class and no pair. -/
def empty : Attr :=
  ⟨"", [], []⟩

/-- Nothing but classes. -/
def ofClasses (classes : List String) : Attr :=
  ⟨"", classes, []⟩

/-- Whether an attribute says nothing. -/
def isEmpty (attr : Attr) : Bool :=
  attr.id.isEmpty && attr.classes.isEmpty && attr.pairs.isEmpty

/-- The first class. -/
def firstClass? (attr : Attr) : Option String :=
  attr.classes.head?

end Attr

end Transclude
