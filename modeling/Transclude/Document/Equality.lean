import Transclude.Document.Basic

/-!
# Equality of documents

Two documents are equal when their trees agree node by node.  Table widths are compared as
numbers: the two zeros are equal, and a width that is no number equals nothing, itself
included.  Metadata is compared in order.

Main definitions:

- {lit}`Block.same`, {lit}`Inline.same`, {lit}`MetaValue.same`: equality of nodes.
- {lit}`Document.same`: equality of documents, also written {lit}`==`.
-/

namespace Transclude

/-- Equality of two lists of widths, number by number. -/
def Binary64.sameList : List Binary64 → List Binary64 → Bool
  | [], [] => true
  | x :: xs, y :: ys => x.numEq y && sameList xs ys
  | _, _ => false

/-! ## Blocks and inlines -/

mutual

/-- Equality of two blocks. -/
def Block.same : Block → Block → Bool
  | .plain a, .plain b => Inline.sameList a b
  | .para a, .para b => Inline.sameList a b
  | .lineBlock a, .lineBlock b => Inline.sameLines a b
  | .codeBlock attr a, .codeBlock attr' b => attr == attr' && a == b
  | .rawBlock format a, .rawBlock format' b => format == format' && a == b
  | .blockQuote a, .blockQuote b => Block.sameList a b
  | .orderedList numbering a, .orderedList numbering' b =>
    numbering == numbering' && Block.sameItems a b
  | .bulletList a, .bulletList b => Block.sameItems a b
  | .definitionList a, .definitionList b => Definition.sameList a b
  | .header level attr a, .header level' attr' b =>
    level == level' && attr == attr' && Inline.sameList a b
  | .horizontalRule, .horizontalRule => true
  | .table caption alignments widths headers rows,
    .table caption' alignments' widths' headers' rows' =>
    Inline.sameList caption caption' && alignments == alignments' &&
      Binary64.sameList widths widths' && Block.sameItems headers headers' &&
      Block.sameRows rows rows'
  | .div attr a, .div attr' b => attr == attr' && Block.sameList a b
  | .null, .null => true
  | _, _ => false
termination_by structural a => a

/-- Equality of two lists of blocks. -/
def Block.sameList : List Block → List Block → Bool
  | [], [] => true
  | a :: as, b :: bs => Block.same a b && Block.sameList as bs
  | _, _ => false
termination_by structural a => a

/-- Equality of two lists of items or cells. -/
def Block.sameItems : List (List Block) → List (List Block) → Bool
  | [], [] => true
  | a :: as, b :: bs => Block.sameList a b && Block.sameItems as bs
  | _, _ => false
termination_by structural a => a

/-- Equality of two lists of rows. -/
def Block.sameRows : List (List (List Block)) → List (List (List Block)) → Bool
  | [], [] => true
  | a :: as, b :: bs => Block.sameItems a b && Block.sameRows as bs
  | _, _ => false
termination_by structural a => a

/-- Equality of two terms with their definitions. -/
def Definition.same : Definition → Definition → Bool
  | .mk term definitions, .mk term' definitions' =>
    Inline.sameList term term' && Block.sameItems definitions definitions'
termination_by structural a => a

/-- Equality of two definition lists. -/
def Definition.sameList : List Definition → List Definition → Bool
  | [], [] => true
  | a :: as, b :: bs => Definition.same a b && Definition.sameList as bs
  | _, _ => false
termination_by structural a => a

/-- Equality of two inlines. -/
def Inline.same : Inline → Inline → Bool
  | .str a, .str b => a == b
  | .emph a, .emph b => Inline.sameList a b
  | .strong a, .strong b => Inline.sameList a b
  | .strikeout a, .strikeout b => Inline.sameList a b
  | .superscript a, .superscript b => Inline.sameList a b
  | .subscript a, .subscript b => Inline.sameList a b
  | .smallCaps a, .smallCaps b => Inline.sameList a b
  | .quoted kind a, .quoted kind' b => kind == kind' && Inline.sameList a b
  | .cite citations a, .cite citations' b =>
    Citation.sameList citations citations' && Inline.sameList a b
  | .code attr a, .code attr' b => attr == attr' && a == b
  | .space, .space => true
  | .softBreak, .softBreak => true
  | .lineBreak, .lineBreak => true
  | .math kind a, .math kind' b => kind == kind' && a == b
  | .rawInline format a, .rawInline format' b => format == format' && a == b
  | .link attr a target, .link attr' b target' =>
    attr == attr' && Inline.sameList a b && target == target'
  | .image attr a target, .image attr' b target' =>
    attr == attr' && Inline.sameList a b && target == target'
  | .note a, .note b => Block.sameList a b
  | .span attr a, .span attr' b => attr == attr' && Inline.sameList a b
  | _, _ => false
termination_by structural a => a

/-- Equality of two lists of inlines. -/
def Inline.sameList : List Inline → List Inline → Bool
  | [], [] => true
  | a :: as, b :: bs => Inline.same a b && Inline.sameList as bs
  | _, _ => false
termination_by structural a => a

/-- Equality of two lists of lines. -/
def Inline.sameLines : List (List Inline) → List (List Inline) → Bool
  | [], [] => true
  | a :: as, b :: bs => Inline.sameList a b && Inline.sameLines as bs
  | _, _ => false
termination_by structural a => a

/-- Equality of two citations. -/
def Citation.same : Citation → Citation → Bool
  | .mk id before after mode noteNumber hash, .mk id' before' after' mode' noteNumber' hash' =>
    id == id' && Inline.sameList before before' && Inline.sameList after after' &&
      mode == mode' && noteNumber == noteNumber' && hash == hash'
termination_by structural a => a

/-- Equality of two lists of citations. -/
def Citation.sameList : List Citation → List Citation → Bool
  | [], [] => true
  | a :: as, b :: bs => Citation.same a b && Citation.sameList as bs
  | _, _ => false
termination_by structural a => a

end

/-! ## Metadata and documents -/

mutual

/-- Equality of two metadata values. -/
def MetaValue.same : MetaValue → MetaValue → Bool
  | .map a, .map b => MetaValue.sameEntries a b
  | .list a, .list b => MetaValue.sameList a b
  | .bool a, .bool b => a == b
  | .str a, .str b => a == b
  | .inlines a, .inlines b => Inline.sameList a b
  | .blocks a, .blocks b => Block.sameList a b
  | _, _ => false
termination_by structural a => a

/-- Equality of two lists of metadata values. -/
def MetaValue.sameList : List MetaValue → List MetaValue → Bool
  | [], [] => true
  | a :: as, b :: bs => MetaValue.same a b && MetaValue.sameList as bs
  | _, _ => false
termination_by structural a => a

/-- Equality of two lists of entries, in order. -/
def MetaValue.sameEntries : List (String × MetaValue) → List (String × MetaValue) → Bool
  | [], [] => true
  | (k, a) :: as, (k', b) :: bs => k == k' && MetaValue.same a b && MetaValue.sameEntries as bs
  | _, _ => false
termination_by structural a => a

end

/-- Equality of two documents. -/
def Document.same (a b : Document) : Bool :=
  a.apiVersion == b.apiVersion && MetaValue.sameEntries a.metadata b.metadata &&
    Block.sameList a.blocks b.blocks

instance : BEq Document := ⟨Document.same⟩

end Transclude
