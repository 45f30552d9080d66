import Transclude.Walk.Node

/-!
# Pre-order listings

All nodes below a node by recursion over the tree: a node before its descendants, children from
left to right.  A table is its caption, its header cells and its rows cell by cell; a definition
list is term by term, each with its definitions.  What comes before and after a citation does
not count as a child.

Main definitions:

- {lit}`Block.preorder`, {lit}`Inline.preorder`: the listing of a sequence of nodes.
- {lit}`Block.descendants`, {lit}`Inline.descendants`: the listing below one node.
-/

namespace Transclude

mutual

/-- The nodes below a block. -/
def Block.descendants (crossing : Crossing) : Block → List Node
  | .plain content => if crossing.intoInlines then Inline.preorder crossing content else []
  | .para content => if crossing.intoInlines then Inline.preorder crossing content else []
  | .lineBlock lines => if crossing.intoInlines then Inline.preorderLines crossing lines else []
  | .codeBlock _ _ => []
  | .rawBlock _ _ => []
  | .blockQuote content => Block.preorder crossing content
  | .orderedList _ items => Block.preorderItems crossing items
  | .bulletList items => Block.preorderItems crossing items
  | .definitionList items => Definition.preorder crossing items
  | .header _ _ content => if crossing.intoInlines then Inline.preorder crossing content else []
  | .horizontalRule => []
  | .table caption _ _ headers rows =>
    (if crossing.intoInlines then Inline.preorder crossing caption else []) ++
      Block.preorderItems crossing headers ++ Block.preorderRows crossing rows
  | .div _ content => Block.preorder crossing content
  | .null => []

/-- The nodes of a sequence of blocks. -/
def Block.preorder (crossing : Crossing) : List Block → List Node
  | [] => []
  | b :: bs => .block b :: Block.descendants crossing b ++ Block.preorder crossing bs

/-- The nodes of a list of items or cells. -/
def Block.preorderItems (crossing : Crossing) : List (List Block) → List Node
  | [] => []
  | item :: items => Block.preorder crossing item ++ Block.preorderItems crossing items

/-- The nodes of a list of rows. -/
def Block.preorderRows (crossing : Crossing) : List (List (List Block)) → List Node
  | [] => []
  | row :: rows => Block.preorderItems crossing row ++ Block.preorderRows crossing rows

/-- The nodes of a definition list. -/
def Definition.preorder (crossing : Crossing) : List Definition → List Node
  | [] => []
  | .mk term definitions :: items =>
    (if crossing.intoInlines then Inline.preorder crossing term else []) ++
      Block.preorderItems crossing definitions ++ Definition.preorder crossing items

/-- The nodes below an inline. -/
def Inline.descendants (crossing : Crossing) : Inline → List Node
  | .str _ => []
  | .emph content => Inline.preorder crossing content
  | .strong content => Inline.preorder crossing content
  | .strikeout content => Inline.preorder crossing content
  | .superscript content => Inline.preorder crossing content
  | .subscript content => Inline.preorder crossing content
  | .smallCaps content => Inline.preorder crossing content
  | .quoted _ content => Inline.preorder crossing content
  | .cite _ content => Inline.preorder crossing content
  | .code _ _ => []
  | .space => []
  | .softBreak => []
  | .lineBreak => []
  | .math _ _ => []
  | .rawInline _ _ => []
  | .link _ content _ => Inline.preorder crossing content
  | .image _ content _ => Inline.preorder crossing content
  | .note content => if crossing.intoNotes then Block.preorder crossing content else []
  | .span _ content => Inline.preorder crossing content

/-- The nodes of a sequence of inlines. -/
def Inline.preorder (crossing : Crossing) : List Inline → List Node
  | [] => []
  | x :: xs => .inline x :: Inline.descendants crossing x ++ Inline.preorder crossing xs

/-- The nodes of a list of lines. -/
def Inline.preorderLines (crossing : Crossing) : List (List Inline) → List Node
  | [] => []
  | line :: lines => Inline.preorder crossing line ++ Inline.preorderLines crossing lines

end

end Transclude
