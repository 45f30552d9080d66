import Transclude.Document.Basic
import Transclude.Document.Named

/-!
# Tags

The kind of a node without its content, under the name that the written form uses.

Main results:

- Definitions {lit}`Block.tag`, {lit}`Inline.tag`, {lit}`MetaValue.tag`: the tag of a node.
- Instances of {lit}`Named` for the tags: a tag is found by its name.
-/

namespace Transclude

/-! ## Block tags -/

/-- The kind of a block. -/
inductive BlockTag where
  | plain | para | lineBlock | codeBlock | rawBlock | blockQuote | orderedList | bulletList
  | definitionList | header | horizontalRule | table | div | null
  deriving DecidableEq, Repr, Inhabited

namespace BlockTag

/-- Every block tag, in declaration order. -/
def all : List BlockTag :=
  [.plain, .para, .lineBlock, .codeBlock, .rawBlock, .blockQuote, .orderedList, .bulletList,
    .definitionList, .header, .horizontalRule, .table, .div, .null]

/-- The written name of a block tag. -/
def name : BlockTag → String
  | .plain => "Plain"
  | .para => "Para"
  | .lineBlock => "LineBlock"
  | .codeBlock => "CodeBlock"
  | .rawBlock => "RawBlock"
  | .blockQuote => "BlockQuote"
  | .orderedList => "OrderedList"
  | .bulletList => "BulletList"
  | .definitionList => "DefinitionList"
  | .header => "Header"
  | .horizontalRule => "HorizontalRule"
  | .table => "Table"
  | .div => "Div"
  | .null => "Null"

end BlockTag

instance : Named BlockTag :=
  ⟨BlockTag.all, BlockTag.name, fun tag => by cases tag <;> rfl⟩

/-- The kind of a block. -/
def Block.tag : Block → BlockTag
  | .plain _ => .plain
  | .para _ => .para
  | .lineBlock _ => .lineBlock
  | .codeBlock _ _ => .codeBlock
  | .rawBlock _ _ => .rawBlock
  | .blockQuote _ => .blockQuote
  | .orderedList _ _ => .orderedList
  | .bulletList _ => .bulletList
  | .definitionList _ => .definitionList
  | .header _ _ _ => .header
  | .horizontalRule => .horizontalRule
  | .table _ _ _ _ _ => .table
  | .div _ _ => .div
  | .null => .null

/-! ## Inline tags -/

/-- The kind of an inline. -/
inductive InlineTag where
  | str | emph | strong | strikeout | superscript | subscript | smallCaps | quoted | cite | code
  | space | softBreak | lineBreak | math | rawInline | link | image | note | span
  deriving DecidableEq, Repr, Inhabited

namespace InlineTag

/-- Every inline tag, in declaration order. -/
def all : List InlineTag :=
  [.str, .emph, .strong, .strikeout, .superscript, .subscript, .smallCaps, .quoted, .cite,
    .code, .space, .softBreak, .lineBreak, .math, .rawInline, .link, .image, .note, .span]

/-- The written name of an inline tag. -/
def name : InlineTag → String
  | .str => "Str"
  | .emph => "Emph"
  | .strong => "Strong"
  | .strikeout => "Strikeout"
  | .superscript => "Superscript"
  | .subscript => "Subscript"
  | .smallCaps => "SmallCaps"
  | .quoted => "Quoted"
  | .cite => "Cite"
  | .code => "Code"
  | .space => "Space"
  | .softBreak => "SoftBreak"
  | .lineBreak => "LineBreak"
  | .math => "Math"
  | .rawInline => "RawInline"
  | .link => "Link"
  | .image => "Image"
  | .note => "Note"
  | .span => "Span"

end InlineTag

instance : Named InlineTag :=
  ⟨InlineTag.all, InlineTag.name, fun tag => by cases tag <;> rfl⟩

/-- The kind of an inline. -/
def Inline.tag : Inline → InlineTag
  | .str _ => .str
  | .emph _ => .emph
  | .strong _ => .strong
  | .strikeout _ => .strikeout
  | .superscript _ => .superscript
  | .subscript _ => .subscript
  | .smallCaps _ => .smallCaps
  | .quoted _ _ => .quoted
  | .cite _ _ => .cite
  | .code _ _ => .code
  | .space => .space
  | .softBreak => .softBreak
  | .lineBreak => .lineBreak
  | .math _ _ => .math
  | .rawInline _ _ => .rawInline
  | .link _ _ _ => .link
  | .image _ _ _ => .image
  | .note _ => .note
  | .span _ _ => .span

/-! ## Metadata tags -/

/-- The kind of a metadata value. -/
inductive MetaTag where
  | map | list | bool | str | inlines | blocks
  deriving DecidableEq, Repr, Inhabited

namespace MetaTag

/-- Every metadata tag, in declaration order. -/
def all : List MetaTag :=
  [.map, .list, .bool, .str, .inlines, .blocks]

/-- The written name of a metadata tag. -/
def name : MetaTag → String
  | .map => "MetaMap"
  | .list => "MetaList"
  | .bool => "MetaBool"
  | .str => "MetaString"
  | .inlines => "MetaInlines"
  | .blocks => "MetaBlocks"

end MetaTag

instance : Named MetaTag :=
  ⟨MetaTag.all, MetaTag.name, fun tag => by cases tag <;> rfl⟩

/-- The kind of a metadata value. -/
def MetaValue.tag : MetaValue → MetaTag
  | .map _ => .map
  | .list _ => .list
  | .bool _ => .bool
  | .str _ => .str
  | .inlines _ => .inlines
  | .blocks _ => .blocks

end Transclude
