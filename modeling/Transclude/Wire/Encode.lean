import Transclude.Json.Basic
import Transclude.Wire.Name

/-!
# The written form of a document

A node is an object of its tag {lit}`t` and, unless it has none, its content {lit}`c`.  Content
of several parts is an array of fixed length.  All objects list their keys in order.

Main definitions:

- {lit}`Block.toJson`, {lit}`Inline.toJson`, {lit}`MetaValue.toJson`: the value of a node.
- {lit}`Document.toJson`: the value of a document.
-/

namespace Transclude

/-! ## Leaves -/

/-- An object of a tag alone. -/
def Json.tagged (tag : String) : Json :=
  .obj [("t", .str tag)]

/-- An object of a content and a tag. -/
def Json.node (tag : String) (content : Json) : Json :=
  .obj [("c", content), ("t", .str tag)]

/-- The value of an integer. -/
def Json.int (n : Int64) : Json :=
  .num (.int n.toInt)

/-- A choice is written as its name alone. -/
def Choice.toJson {α : Type} [Choice α] (a : α) : Json :=
  .tagged (Named.name a)

/-- An attribute is a triple of identifier, classes and pairs. -/
def Attr.toJson (attr : Attr) : Json :=
  .arr [.str attr.id, .arr (attr.classes.map .str),
    .arr (attr.pairs.map fun (key, value) => .arr [.str key, .str value])]

/-- A target is a pair of address and title. -/
def Target.toJson (target : Target) : Json :=
  .arr [.str target.url, .str target.title]

/-- The numbering of a list is a triple of start, style and delimiter. -/
def ListNumbering.toJson (numbering : ListNumbering) : Json :=
  .arr [.int numbering.start, Choice.toJson numbering.style, Choice.toJson numbering.delimiter]

/-- A width is a number, or null if it is not finite. -/
def Binary64.toJson (x : Binary64) : Json :=
  if x.isFinite then .num (.double x) else .null

/-! ## Blocks and inlines -/

mutual

/-- The value of a block. -/
def Block.toJson : Block → Json
  | .plain content => .node "Plain" (.arr (Inline.toJsonList content))
  | .para content => .node "Para" (.arr (Inline.toJsonList content))
  | .lineBlock lines => .node "LineBlock" (.arr (Inline.toJsonLines lines))
  | .codeBlock attr text => .node "CodeBlock" (.arr [attr.toJson, .str text])
  | .rawBlock format text => .node "RawBlock" (.arr [.str format, .str text])
  | .blockQuote content => .node "BlockQuote" (.arr (Block.toJsonList content))
  | .orderedList numbering items =>
    .node "OrderedList" (.arr [numbering.toJson, .arr (Block.toJsonItems items)])
  | .bulletList items => .node "BulletList" (.arr (Block.toJsonItems items))
  | .definitionList items => .node "DefinitionList" (.arr (Definition.toJsonList items))
  | .header level attr content =>
    .node "Header" (.arr [.int level, attr.toJson, .arr (Inline.toJsonList content)])
  | .horizontalRule => .tagged "HorizontalRule"
  | .table caption alignments widths headers rows =>
    .node "Table" (.arr [.arr (Inline.toJsonList caption), .arr (alignments.map Choice.toJson),
      .arr (widths.map Binary64.toJson), .arr (Block.toJsonItems headers),
      .arr (Block.toJsonRows rows)])
  | .div attr content => .node "Div" (.arr [attr.toJson, .arr (Block.toJsonList content)])
  | .null => .tagged "Null"

/-- The values of a list of blocks. -/
def Block.toJsonList : List Block → List Json
  | [] => []
  | b :: bs => Block.toJson b :: Block.toJsonList bs

/-- The values of a list of items or cells. -/
def Block.toJsonItems : List (List Block) → List Json
  | [] => []
  | item :: items => .arr (Block.toJsonList item) :: Block.toJsonItems items

/-- The values of a list of rows. -/
def Block.toJsonRows : List (List (List Block)) → List Json
  | [] => []
  | row :: rows => .arr (Block.toJsonItems row) :: Block.toJsonRows rows

/-- A term with its definitions is a pair. -/
def Definition.toJson : Definition → Json
  | .mk term definitions =>
    .arr [.arr (Inline.toJsonList term), .arr (Block.toJsonItems definitions)]

/-- The values of a definition list. -/
def Definition.toJsonList : List Definition → List Json
  | [] => []
  | d :: ds => Definition.toJson d :: Definition.toJsonList ds

/-- The value of an inline. -/
def Inline.toJson : Inline → Json
  | .str text => .node "Str" (.str text)
  | .emph content => .node "Emph" (.arr (Inline.toJsonList content))
  | .strong content => .node "Strong" (.arr (Inline.toJsonList content))
  | .strikeout content => .node "Strikeout" (.arr (Inline.toJsonList content))
  | .superscript content => .node "Superscript" (.arr (Inline.toJsonList content))
  | .subscript content => .node "Subscript" (.arr (Inline.toJsonList content))
  | .smallCaps content => .node "SmallCaps" (.arr (Inline.toJsonList content))
  | .quoted kind content =>
    .node "Quoted" (.arr [Choice.toJson kind, .arr (Inline.toJsonList content)])
  | .cite citations content =>
    .node "Cite" (.arr [.arr (Citation.toJsonList citations), .arr (Inline.toJsonList content)])
  | .code attr text => .node "Code" (.arr [attr.toJson, .str text])
  | .space => .tagged "Space"
  | .softBreak => .tagged "SoftBreak"
  | .lineBreak => .tagged "LineBreak"
  | .math kind text => .node "Math" (.arr [Choice.toJson kind, .str text])
  | .rawInline format text => .node "RawInline" (.arr [.str format, .str text])
  | .link attr content target =>
    .node "Link" (.arr [attr.toJson, .arr (Inline.toJsonList content), target.toJson])
  | .image attr content target =>
    .node "Image" (.arr [attr.toJson, .arr (Inline.toJsonList content), target.toJson])
  | .note content => .node "Note" (.arr (Block.toJsonList content))
  | .span attr content => .node "Span" (.arr [attr.toJson, .arr (Inline.toJsonList content)])

/-- The values of a list of inlines. -/
def Inline.toJsonList : List Inline → List Json
  | [] => []
  | x :: xs => Inline.toJson x :: Inline.toJsonList xs

/-- The values of a list of lines. -/
def Inline.toJsonLines : List (List Inline) → List Json
  | [] => []
  | line :: lines => .arr (Inline.toJsonList line) :: Inline.toJsonLines lines

/-- A citation is an object of six members. -/
def Citation.toJson : Citation → Json
  | .mk id before after mode noteNumber hash =>
    .obj [("citationHash", .int hash), ("citationId", .str id),
      ("citationMode", Choice.toJson mode), ("citationNoteNum", .int noteNumber),
      ("citationPrefix", .arr (Inline.toJsonList before)),
      ("citationSuffix", .arr (Inline.toJsonList after))]

/-- The values of a list of citations. -/
def Citation.toJsonList : List Citation → List Json
  | [] => []
  | c :: cs => Citation.toJson c :: Citation.toJsonList cs

end

/-! ## Metadata and documents -/

mutual

/-- The value of a metadata value; the entries of a map are put in key order. -/
def MetaValue.toJson : MetaValue → Json
  | .map entries => .node "MetaMap" (.object (MetaValue.toJsonEntries entries))
  | .list values => .node "MetaList" (.arr (MetaValue.toJsonList values))
  | .bool b => .node "MetaBool" (.bool b)
  | .str s => .node "MetaString" (.str s)
  | .inlines content => .node "MetaInlines" (.arr (Inline.toJsonList content))
  | .blocks content => .node "MetaBlocks" (.arr (Block.toJsonList content))

/-- The values of a list of metadata values. -/
def MetaValue.toJsonList : List MetaValue → List Json
  | [] => []
  | v :: vs => MetaValue.toJson v :: MetaValue.toJsonList vs

/-- The members for a list of entries, in the same order. -/
def MetaValue.toJsonEntries : List (String × MetaValue) → List (String × Json)
  | [] => []
  | (key, v) :: rest => (key, MetaValue.toJson v) :: MetaValue.toJsonEntries rest

end

/-- The value of metadata, with the keys in order. -/
def Meta.toJson (entries : Meta) : Json :=
  .object (MetaValue.toJsonEntries entries)

/-- The value of a format version. -/
def ApiVersion.toJson (version : ApiVersion) : Json :=
  .arr (version.map fun n => .num (.int n.toNat))

/-- The value of a document. -/
def Document.toJson (d : Document) : Json :=
  .obj [("blocks", .arr (Block.toJsonList d.blocks)), ("meta", Meta.toJson d.metadata),
    ("pandoc-api-version", d.apiVersion.toJson)]

end Transclude
