import Transclude.Document.Tag

/-!
# Nodes

Blocks and inlines seen as one kind of thing, and which edges between the two a walk follows.

Main definitions:

- {lit}`Node`: a block or an inline.
- {lit}`Crossing`: the edges that a walk follows from one kind into the other.
-/

namespace Transclude

/-- A block or an inline. -/
inductive Node where
  | block (b : Block)
  | inline (x : Inline)

namespace Node

/-- The block, if the node is one. -/
def block? : Node → Option Block
  | .block b => some b
  | .inline _ => none

/-- The inline, if the node is one. -/
def inline? : Node → Option Inline
  | .block _ => none
  | .inline x => some x

/-- The written name of a node's tag. -/
def tagName : Node → String
  | .block b => b.tag.name
  | .inline x => x.tag.name

end Node

/-- The attribute and text of a block of code. -/
def Block.code? : Block → Option (Attr × String)
  | .codeBlock attr text => some (attr, text)
  | _ => none

/-- The edges that a walk follows from one kind of node into the other: from blocks into the
inlines they hold, and from notes into their blocks. -/
structure Crossing where
  intoInlines : Bool
  intoNotes : Bool
  deriving DecidableEq, Repr, Inhabited

/-- Follow every edge. -/
def Crossing.everywhere : Crossing :=
  ⟨true, true⟩

end Transclude
