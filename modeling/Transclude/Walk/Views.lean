import Transclude.Walk.Machine

/-!
# Walks over documents

The walks that a document offers: over blocks, over inlines, over both, or over the nodes of one
tag.  Children of the same kind are always followed; whether a walk crosses into the other kind
is up to the caller.

Main definitions:

- {lit}`Walk.blocks`, {lit}`Walk.inlines`, {lit}`Walk.nodes`: walks over one kind or both.
- {lit}`Walk.blocksInInlines`, {lit}`Walk.inlinesInBlocks`: walks that only yield the other kind.
- {lit}`Walk.blocksOfTag`, {lit}`Walk.inlinesOfTag`, {lit}`Walk.codeBlocks`: narrower walks.
-/

namespace Transclude.Walk

/-- The blocks among some blocks and below them.  Blocks in notes are among them only when the
walk crosses into inlines. -/
def blocks (bs : List Block) (intoInlines : Bool) : Cursor Block :=
  ⟨ofBlocks ⟨intoInlines, true⟩ bs, Node.block?⟩

/-- The inlines among some inlines and below them.  Inlines in notes are among them only when the
walk crosses into blocks. -/
def inlines (xs : List Inline) (intoNotes : Bool) : Cursor Inline :=
  ⟨ofInlines ⟨true, intoNotes⟩ xs, Node.inline?⟩

/-- The blocks in the notes among some inlines. -/
def blocksInInlines (xs : List Inline) : Cursor Block :=
  ⟨ofInlines .everywhere xs, Node.block?⟩

/-- The inlines that some blocks hold. -/
def inlinesInBlocks (bs : List Block) : Cursor Inline :=
  ⟨ofBlocks .everywhere bs, Node.inline?⟩

/-- All nodes among some blocks and below them. -/
def nodes (bs : List Block) : Cursor Node :=
  ⟨ofBlocks .everywhere bs, some⟩

/-- The blocks of one tag. -/
def blocksOfTag (tag : BlockTag) (bs : List Block) (intoInlines : Bool) : Cursor Block :=
  (blocks bs intoInlines).filterMap fun b => if b.tag = tag then some b else none

/-- The inlines of one tag. -/
def inlinesOfTag (tag : InlineTag) (xs : List Inline) (intoNotes : Bool) : Cursor Inline :=
  (inlines xs intoNotes).filterMap fun x => if x.tag = tag then some x else none

/-- The attributes and texts of the blocks of code. -/
def codeBlocks (bs : List Block) (intoInlines : Bool) : Cursor (Attr × String) :=
  (blocks bs intoInlines).filterMap Block.code?

/-- The block tags that a walk over everything meets, in declaration order. -/
def blockTags (bs : List Block) : List BlockTag :=
  let met := (nodes bs).toList.filterMap Node.block?
  BlockTag.all.filter fun tag => met.any fun b => b.tag = tag

/-- The inline tags that a walk over everything meets, in declaration order. -/
def inlineTags (bs : List Block) : List InlineTag :=
  let met := (nodes bs).toList.filterMap Node.inline?
  InlineTag.all.filter fun tag => met.any fun x => x.tag = tag

end Transclude.Walk
