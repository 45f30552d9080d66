import Transclude.Document.Basic

/-!
# Splicing

Editing blocks from the top down.  An effectful function sees each block in document order and
says what becomes of it: it stays, and its children are seen next; or it makes way for other
blocks, which are themselves never seen again.  Inlines are edited only for the sake of the
blocks in their notes, and only when the editing crosses into them.

Main definitions:

- {lit}`Edit`: what becomes of a block.
- {lit}`Splice.replaceBlocks`: editing by a function that never asks to go on inside new blocks.
- {lit}`Splice.editWithin?`: editing by any function, within a bound on such requests.
-/

namespace Transclude

/-- What becomes of a block: it stays and its children are seen next; it makes way for other
blocks as they are; or for other blocks whose children are seen next. -/
inductive Edit where
  | keep
  | replace (new : List Block)
  | descend (new : List Block)

namespace Splice

variable {m : Type → Type} [Monad m]

/-! ## One pass -/

mutual

/-- Edit the children of a block.  What {lit}`below` says of a block is done to the new blocks
whose children are to be seen. -/
def blockChildren (below : Block → m Block) (cross : Bool) (edit : Block → m Edit) :
    Block → m Block
  | .plain content => return .plain (← inlineContent below cross edit content)
  | .para content => return .para (← inlineContent below cross edit content)
  | .lineBlock lines => return .lineBlock (← lineContents below cross edit lines)
  | .codeBlock attr text => return .codeBlock attr text
  | .rawBlock format text => return .rawBlock format text
  | .blockQuote content => return .blockQuote (← blockContent below cross edit content)
  | .orderedList numbering items =>
    return .orderedList numbering (← itemContents below cross edit items)
  | .bulletList items => return .bulletList (← itemContents below cross edit items)
  | .definitionList items => return .definitionList (← definitionContents below cross edit items)
  | .header level attr content =>
    return .header level attr (← inlineContent below cross edit content)
  | .horizontalRule => return .horizontalRule
  | .table caption alignments widths headers rows => do
    let caption ← inlineContent below cross edit caption
    let headers ← itemContents below cross edit headers
    let rows ← rowContents below cross edit rows
    return .table caption alignments widths headers rows
  | .div attr content => return .div attr (← blockContent below cross edit content)
  | .null => return .null

/-- Edit a sequence of blocks. -/
def blockContent (below : Block → m Block) (cross : Bool) (edit : Block → m Edit) :
    List Block → m (List Block)
  | [] => return []
  | b :: bs => do
    match ← edit b with
    | .keep =>
      let b' ← blockChildren below cross edit b
      return b' :: (← blockContent below cross edit bs)
    | .replace new => return new ++ (← blockContent below cross edit bs)
    | .descend new =>
      let new ← new.mapM below
      return new ++ (← blockContent below cross edit bs)

/-- Edit the items of a list or the cells of a row. -/
def itemContents (below : Block → m Block) (cross : Bool) (edit : Block → m Edit) :
    List (List Block) → m (List (List Block))
  | [] => return []
  | item :: items => do
    let item ← blockContent below cross edit item
    return item :: (← itemContents below cross edit items)

/-- Edit the rows of a table. -/
def rowContents (below : Block → m Block) (cross : Bool) (edit : Block → m Edit) :
    List (List (List Block)) → m (List (List (List Block)))
  | [] => return []
  | row :: rows => do
    let row ← itemContents below cross edit row
    return row :: (← rowContents below cross edit rows)

/-- Edit the terms and definitions of a definition list. -/
def definitionContents (below : Block → m Block) (cross : Bool) (edit : Block → m Edit) :
    List Definition → m (List Definition)
  | [] => return []
  | .mk term definitions :: items => do
    let term ← inlineContent below cross edit term
    let definitions ← itemContents below cross edit definitions
    return .mk term definitions :: (← definitionContents below cross edit items)

/-- Edit the children of an inline. -/
def inlineChildren (below : Block → m Block) (cross : Bool) (edit : Block → m Edit) :
    Inline → m Inline
  | .str text => return .str text
  | .emph content => return .emph (← inlineContent below cross edit content)
  | .strong content => return .strong (← inlineContent below cross edit content)
  | .strikeout content => return .strikeout (← inlineContent below cross edit content)
  | .superscript content => return .superscript (← inlineContent below cross edit content)
  | .subscript content => return .subscript (← inlineContent below cross edit content)
  | .smallCaps content => return .smallCaps (← inlineContent below cross edit content)
  | .quoted kind content => return .quoted kind (← inlineContent below cross edit content)
  | .cite citations content => return .cite citations (← inlineContent below cross edit content)
  | .code attr text => return .code attr text
  | .space => return .space
  | .softBreak => return .softBreak
  | .lineBreak => return .lineBreak
  | .math kind text => return .math kind text
  | .rawInline format text => return .rawInline format text
  | .link attr content target =>
    return .link attr (← inlineContent below cross edit content) target
  | .image attr content target =>
    return .image attr (← inlineContent below cross edit content) target
  | .note content => return .note (← blockContent below cross edit content)
  | .span attr content => return .span attr (← inlineContent below cross edit content)

/-- Edit a sequence of inlines, which stays as it is unless the editing crosses. -/
def inlineContent (below : Block → m Block) (cross : Bool) (edit : Block → m Edit) :
    List Inline → m (List Inline)
  | [] => return []
  | x :: xs =>
    if cross then do
      let x ← inlineChildren below cross edit x
      return x :: (← inlineContent below cross edit xs)
    else return x :: xs

/-- Edit the lines of a line block. -/
def lineContents (below : Block → m Block) (cross : Bool) (edit : Block → m Edit) :
    List (List Inline) → m (List (List Inline))
  | [] => return []
  | line :: lines => do
    let line ← inlineContent below cross edit line
    return line :: (← lineContents below cross edit lines)

end

/-! ## Editing -/

/-- Edit blocks by a function that gives the blocks to replace a block by, or none to keep it
and to go on with its children. -/
def replaceBlocks (cross : Bool) (replacement? : Block → m (Option (List Block)))
    (bs : List Block) : m (List Block) :=
  blockContent pure cross
    (fun b => do
      match ← replacement? b with
      | none => return .keep
      | some new => return .replace new)
    bs

/-- Edit the children of a block, going into new blocks at most as often in a row as the bound
says; past the bound there is no result. -/
def childrenWithin? (cross : Bool) (edit : Block → m Edit) : Nat → Block → OptionT m Block
  | 0, _ => failure
  | bound + 1, b =>
    blockChildren (childrenWithin? cross edit bound) cross (fun b => OptionT.lift (edit b)) b

/-- Edit blocks, going into new blocks at most as often in a row as the bound says; past the
bound there is no result. -/
def editWithin? (bound : Nat) (cross : Bool) (edit : Block → m Edit) (bs : List Block) :
    OptionT m (List Block) :=
  blockContent (childrenWithin? cross edit bound) cross (fun b => OptionT.lift (edit b)) bs

end Splice

end Transclude
