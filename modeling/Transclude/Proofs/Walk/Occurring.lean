import Transclude.Proofs.Splice.Visits

/-!
# Blocks as values

All blocks that occur in a document as values, said by recursion over the tree and without a walk.
What stands before and after the works in a citation is running text of the document too, and its
notes hold blocks, but no walk goes there.  Everywhere else the blocks that occur are the blocks
that a walk lists.

Main results:

- Definition {lit}`Block.occurring`: the blocks that occur among some blocks, with the text around
  cited works or without it.
- Theorem {lit}`Block.occurring_eq_visits`: without that text, these are the blocks of a walk.
-/

namespace Transclude

/-! ## Blocks as values -/

mutual

/-- The blocks that occur in a block, except for itself. -/
def Block.inside (affixes : Bool) : Block → List Block
  | .plain content => Inline.occurring affixes content
  | .para content => Inline.occurring affixes content
  | .lineBlock lines => Inline.occurringLines affixes lines
  | .codeBlock _ _ => []
  | .rawBlock _ _ => []
  | .blockQuote content => Block.occurring affixes content
  | .orderedList _ items => Block.occurringItems affixes items
  | .bulletList items => Block.occurringItems affixes items
  | .definitionList items => Definition.occurring affixes items
  | .header _ _ content => Inline.occurring affixes content
  | .horizontalRule => []
  | .table caption _ _ headers rows =>
    Inline.occurring affixes caption ++
      (Block.occurringItems affixes headers ++ Block.occurringRows affixes rows)
  | .div _ content => Block.occurring affixes content
  | .null => []

/-- The blocks that occur in a sequence of blocks, with those of the sequence.  The text before and
after cited works counts only if that is asked for. -/
def Block.occurring (affixes : Bool) : List Block → List Block
  | [] => []
  | b :: bs => b :: (Block.inside affixes b ++ Block.occurring affixes bs)

/-- The blocks that occur in items or cells. -/
def Block.occurringItems (affixes : Bool) : List (List Block) → List Block
  | [] => []
  | item :: items => Block.occurring affixes item ++ Block.occurringItems affixes items

/-- The blocks that occur in rows. -/
def Block.occurringRows (affixes : Bool) : List (List (List Block)) → List Block
  | [] => []
  | row :: rows => Block.occurringItems affixes row ++ Block.occurringRows affixes rows

/-- The blocks that occur in a definition list. -/
def Definition.occurring (affixes : Bool) : List Definition → List Block
  | [] => []
  | .mk term definitions :: items =>
    Inline.occurring affixes term ++
      (Block.occurringItems affixes definitions ++ Definition.occurring affixes items)

/-- The blocks that occur in an inline. -/
def Inline.inside (affixes : Bool) : Inline → List Block
  | .str _ => []
  | .emph content => Inline.occurring affixes content
  | .strong content => Inline.occurring affixes content
  | .strikeout content => Inline.occurring affixes content
  | .superscript content => Inline.occurring affixes content
  | .subscript content => Inline.occurring affixes content
  | .smallCaps content => Inline.occurring affixes content
  | .quoted _ content => Inline.occurring affixes content
  | .cite citations content =>
    (if affixes then Citation.occurring affixes citations else []) ++
      Inline.occurring affixes content
  | .code _ _ => []
  | .space => []
  | .softBreak => []
  | .lineBreak => []
  | .math _ _ => []
  | .rawInline _ _ => []
  | .link _ content _ => Inline.occurring affixes content
  | .image _ content _ => Inline.occurring affixes content
  | .note content => Block.occurring affixes content
  | .span _ content => Inline.occurring affixes content

/-- The blocks that occur in running text. -/
def Inline.occurring (affixes : Bool) : List Inline → List Block
  | [] => []
  | x :: xs => Inline.inside affixes x ++ Inline.occurring affixes xs

/-- The blocks that occur in lines. -/
def Inline.occurringLines (affixes : Bool) : List (List Inline) → List Block
  | [] => []
  | line :: lines => Inline.occurring affixes line ++ Inline.occurringLines affixes lines

/-- The blocks that occur before and after cited works. -/
def Citation.occurring (affixes : Bool) : List Citation → List Block
  | [] => []
  | .mk _ before after _ _ _ :: citations =>
    Inline.occurring affixes before ++
      (Inline.occurring affixes after ++ Citation.occurring affixes citations)

end

/-! ## The blocks of a walk -/

section Visits

open Splice (visitsOf)

mutual

/-- Apart from the text around cited works, the blocks that occur inside a block are those of a walk
below it. -/
theorem Block.inside_eq_visits : ∀ b : Block,
    Block.inside false b = visitsOf (Block.descendants .everywhere b)
  | .plain content => Inline.occurring_eq_visits content
  | .para content => Inline.occurring_eq_visits content
  | .lineBlock lines => Inline.occurringLines_eq_visits lines
  | .codeBlock _ _ => rfl
  | .rawBlock _ _ => rfl
  | .blockQuote content => Block.occurring_eq_visits content
  | .orderedList _ items => Block.occurringItems_eq_visits items
  | .bulletList items => Block.occurringItems_eq_visits items
  | .definitionList items => Definition.occurring_eq_visits items
  | .header _ _ content => Inline.occurring_eq_visits content
  | .horizontalRule => rfl
  | .table caption _ _ headers rows => by
    rw [Block.inside, Inline.occurring_eq_visits caption, Block.occurringItems_eq_visits headers,
      Block.occurringRows_eq_visits rows, ← List.filterMap_append, ← List.filterMap_append,
      ← List.append_assoc]
    rfl
  | .div _ content => Block.occurring_eq_visits content
  | .null => rfl

/-- Apart from the text around cited works, the blocks that occur are those of a walk. -/
theorem Block.occurring_eq_visits : ∀ bs : List Block,
    Block.occurring false bs = Block.visits true bs
  | [] => rfl
  | b :: bs => by
    rw [Block.occurring, Splice.visits_cons, Block.inside_eq_visits b, Block.occurring_eq_visits bs]
    rfl

/-- So are the blocks in the items of a list, or in the cells of a row. -/
theorem Block.occurringItems_eq_visits : ∀ items : List (List Block),
    Block.occurringItems false items = visitsOf (Block.preorderItems .everywhere items)
  | [] => rfl
  | item :: items => by
    rw [Block.occurringItems, Block.preorderItems, visitsOf, List.filterMap_append,
      Block.occurring_eq_visits item, Block.occurringItems_eq_visits items]
    rfl

/-- So are the blocks in the rows of a table. -/
theorem Block.occurringRows_eq_visits : ∀ rows : List (List (List Block)),
    Block.occurringRows false rows = visitsOf (Block.preorderRows .everywhere rows)
  | [] => rfl
  | row :: rows => by
    rw [Block.occurringRows, Block.preorderRows, visitsOf, List.filterMap_append,
      Block.occurringItems_eq_visits row, Block.occurringRows_eq_visits rows]

/-- So are the blocks in a definition list. -/
theorem Definition.occurring_eq_visits : ∀ items : List Definition,
    Definition.occurring false items = visitsOf (Definition.preorder .everywhere items)
  | [] => rfl
  | .mk term definitions :: items => by
    rw [Definition.occurring, Definition.preorder, Inline.occurring_eq_visits term,
      Block.occurringItems_eq_visits definitions, Definition.occurring_eq_visits items,
      ← List.filterMap_append, ← List.filterMap_append, ← List.append_assoc]
    rfl

/-- So are the blocks inside an inline, all of which are in notes. -/
theorem Inline.inside_eq_visits : ∀ x : Inline,
    Inline.inside false x = visitsOf (Inline.descendants .everywhere x)
  | .str _ => rfl
  | .emph content => Inline.occurring_eq_visits content
  | .strong content => Inline.occurring_eq_visits content
  | .strikeout content => Inline.occurring_eq_visits content
  | .superscript content => Inline.occurring_eq_visits content
  | .subscript content => Inline.occurring_eq_visits content
  | .smallCaps content => Inline.occurring_eq_visits content
  | .quoted _ content => Inline.occurring_eq_visits content
  | .cite _ content => Inline.occurring_eq_visits content
  | .code _ _ => rfl
  | .space => rfl
  | .softBreak => rfl
  | .lineBreak => rfl
  | .math _ _ => rfl
  | .rawInline _ _ => rfl
  | .link _ content _ => Inline.occurring_eq_visits content
  | .image _ content _ => Inline.occurring_eq_visits content
  | .note content => Block.occurring_eq_visits content
  | .span _ content => Inline.occurring_eq_visits content

/-- So are the blocks in running text. -/
theorem Inline.occurring_eq_visits : ∀ xs : List Inline,
    Inline.occurring false xs = visitsOf (Inline.preorder .everywhere xs)
  | [] => rfl
  | x :: xs => by
    rw [Inline.occurring, Inline.inside_eq_visits x, Inline.occurring_eq_visits xs,
      ← List.filterMap_append]
    rfl

/-- So are the blocks in the lines of a line block. -/
theorem Inline.occurringLines_eq_visits : ∀ lines : List (List Inline),
    Inline.occurringLines false lines = visitsOf (Inline.preorderLines .everywhere lines)
  | [] => rfl
  | line :: lines => by
    rw [Inline.occurringLines, Inline.preorderLines, visitsOf, List.filterMap_append,
      Inline.occurring_eq_visits line, Inline.occurringLines_eq_visits lines]

end

end Visits

end Transclude
