import Transclude.Wire.Name
import Transclude.Wire.Shape

/-!
# Reading documents

The document that a value stands for.  Parts are read in a fixed order, and the first that does
not fit decides the error: the version before the metadata before the blocks, tuples and lists
from left to right, and the members of a citation in the order of its fields.

Main definitions:

- {lit}`Block.ofJson`, {lit}`Inline.ofJson`, {lit}`MetaValue.ofJson`: the node of a value.
- {lit}`Document.ofJson`: the document of a value.
-/

namespace Transclude

/-! ## Leaves -/

/-- A choice is an object with its name for a tag; its content is not looked at. -/
def Choice.ofJson {α : Type} [Choice α] (v : Json) : Reading α := do
  let (name, _) ← v.tagAndContent (Choice.kind α)
  match Named.ofName? name with
  | some a => return a
  | none => throw (.unsupportedVariant (Choice.kind α) name)

/-- A key-value pair is a pair of strings. -/
def Attr.pairOfJson (v : Json) : Reading (String × String) := do
  let (key, value) ← v.pair "Key-value pair"
  return (← key.1.asString "Key", ← value.1.asString "Value")

/-- An attribute is a triple of identifier, classes and pairs. -/
def Attr.ofJson (v : Json) : Reading Attr := do
  let (id, classes, pairs) ← v.triple "Attr"
  let id ← id.1.asString "Attr id"
  let classes ← (← classes.1.elements "Attr classes").mapM (·.1.asString "Class")
  let pairs ← (← pairs.1.elements "Attr key-values").mapM (Attr.pairOfJson ·.1)
  return ⟨id, classes, pairs⟩

/-- A target is a pair of address and title. -/
def Target.ofJson (v : Json) : Reading Target := do
  let (url, title) ← v.pair "Target"
  return ⟨← url.1.asString "Target url", ← title.1.asString "Target title"⟩

/-- The numbering of a list is a triple of start, style and delimiter. -/
def ListNumbering.ofJson (v : Json) : Reading ListNumbering := do
  let (start, style, delimiter) ← v.triple "ListAttributes"
  return ⟨← start.1.asInt "List start number", ← Choice.ofJson style.1,
    ← Choice.ofJson delimiter.1⟩

/-! ## Blocks and inlines -/

mutual

/-- The block of a value. -/
def Block.ofJson (v : Json) : Reading Block := do
  let (name, content?) ← v.tagAndContent "Block"
  match Named.ofName? name with
  | none => throw (.unsupportedVariant "Block" name)
  | some (tag : BlockTag) =>
    match tag with
    | .horizontalRule => return .horizontalRule
    | .null => return .null
    | .plain =>
      let ⟨c, _⟩ ← Json.required name content?
      return .plain (← Inline.ofJsonList c)
    | .para =>
      let ⟨c, _⟩ ← Json.required name content?
      return .para (← Inline.ofJsonList c)
    | .lineBlock =>
      let ⟨c, _⟩ ← Json.required name content?
      let lines ← c.elements "LineBlock"
      return .lineBlock (← lines.mapM fun ⟨line, _⟩ => Inline.ofJsonList line)
    | .codeBlock =>
      let ⟨c, _⟩ ← Json.required name content?
      let (attr, text) ← c.pair "CodeBlock"
      return .codeBlock (← Attr.ofJson attr.1) (← text.1.asString "CodeBlock text")
    | .rawBlock =>
      let ⟨c, _⟩ ← Json.required name content?
      let (format, text) ← c.pair "RawBlock"
      return .rawBlock (← format.1.asString "RawBlock format") (← text.1.asString "RawBlock text")
    | .blockQuote =>
      let ⟨c, _⟩ ← Json.required name content?
      return .blockQuote (← Block.ofJsonList c)
    | .orderedList =>
      let ⟨c, _⟩ ← Json.required name content?
      let (numbering, ⟨items, _⟩) ← c.pair "OrderedList"
      return .orderedList (← ListNumbering.ofJson numbering.1) (← Block.ofJsonItems items)
    | .bulletList =>
      let ⟨c, _⟩ ← Json.required name content?
      return .bulletList (← Block.ofJsonItems c)
    | .definitionList =>
      let ⟨c, _⟩ ← Json.required name content?
      let items ← c.elements "DefinitionList"
      return .definitionList (← items.mapM fun ⟨item, _⟩ => Definition.ofJson item)
    | .header =>
      let ⟨c, _⟩ ← Json.required name content?
      let (level, attr, ⟨content, _⟩) ← c.triple "Header"
      return .header (← level.1.asInt "Header level") (← Attr.ofJson attr.1)
        (← Inline.ofJsonList content)
    | .table =>
      let ⟨c, _⟩ ← Json.required name content?
      let (⟨caption, _⟩, alignments, widths, ⟨headers, _⟩, ⟨rows, _⟩) ← c.quintuple "Table"
      let caption ← Inline.ofJsonList caption
      let alignments ← (← alignments.1.elements "Table alignments").mapM (Choice.ofJson ·.1)
      let widths ← (← widths.1.elements "Table widths").mapM (·.1.asDouble "Table width")
      let headers ← Block.ofJsonItems headers
      let rows ← (← rows.elements "Table rows").mapM fun ⟨row, _⟩ => Block.ofJsonItems row
      return .table caption alignments widths headers rows
    | .div =>
      let ⟨c, _⟩ ← Json.required name content?
      let (attr, ⟨content, _⟩) ← c.pair "Div"
      return .div (← Attr.ofJson attr.1) (← Block.ofJsonList content)
termination_by sizeOf v

/-- The blocks of an array. -/
def Block.ofJsonList (v : Json) : Reading (List Block) := do
  (← v.elements "Blocks").mapM fun ⟨x, _⟩ => Block.ofJson x
termination_by sizeOf v

/-- The items or cells of an array. -/
def Block.ofJsonItems (v : Json) : Reading (List (List Block)) := do
  (← v.elements "list items").mapM fun ⟨x, _⟩ => Block.ofJsonList x
termination_by sizeOf v

/-- A term with its definitions is a pair. -/
def Definition.ofJson (v : Json) : Reading Definition := do
  let (⟨term, _⟩, ⟨definitions, _⟩) ← v.pair "DefinitionList item"
  return .mk (← Inline.ofJsonList term) (← Block.ofJsonItems definitions)
termination_by sizeOf v

/-- The inline of a value. -/
def Inline.ofJson (v : Json) : Reading Inline := do
  let (name, content?) ← v.tagAndContent "Inline"
  match Named.ofName? name with
  | none => throw (.unsupportedVariant "Inline" name)
  | some (tag : InlineTag) =>
    match tag with
    | .space => return .space
    | .softBreak => return .softBreak
    | .lineBreak => return .lineBreak
    | .str =>
      let ⟨c, _⟩ ← Json.required name content?
      return .str (← c.asString "Str content")
    | .emph =>
      let ⟨c, _⟩ ← Json.required name content?
      return .emph (← Inline.ofJsonList c)
    | .strong =>
      let ⟨c, _⟩ ← Json.required name content?
      return .strong (← Inline.ofJsonList c)
    | .strikeout =>
      let ⟨c, _⟩ ← Json.required name content?
      return .strikeout (← Inline.ofJsonList c)
    | .superscript =>
      let ⟨c, _⟩ ← Json.required name content?
      return .superscript (← Inline.ofJsonList c)
    | .subscript =>
      let ⟨c, _⟩ ← Json.required name content?
      return .subscript (← Inline.ofJsonList c)
    | .smallCaps =>
      let ⟨c, _⟩ ← Json.required name content?
      return .smallCaps (← Inline.ofJsonList c)
    | .quoted =>
      let ⟨c, _⟩ ← Json.required name content?
      let (kind, ⟨content, _⟩) ← c.pair "Quoted"
      return .quoted (← Choice.ofJson kind.1) (← Inline.ofJsonList content)
    | .cite =>
      let ⟨c, _⟩ ← Json.required name content?
      let (⟨citations, _⟩, ⟨content, _⟩) ← c.pair "Cite"
      let citations ← (← citations.elements "Citations").mapM fun ⟨x, _⟩ => Citation.ofJson x
      return .cite citations (← Inline.ofJsonList content)
    | .code =>
      let ⟨c, _⟩ ← Json.required name content?
      let (attr, text) ← c.pair "Code"
      return .code (← Attr.ofJson attr.1) (← text.1.asString "Code text")
    | .math =>
      let ⟨c, _⟩ ← Json.required name content?
      let (kind, text) ← c.pair "Math"
      return .math (← Choice.ofJson kind.1) (← text.1.asString "Math text")
    | .rawInline =>
      let ⟨c, _⟩ ← Json.required name content?
      let (format, text) ← c.pair "RawInline"
      return .rawInline (← format.1.asString "RawInline format")
        (← text.1.asString "RawInline text")
    | .link =>
      let ⟨c, _⟩ ← Json.required name content?
      let (attr, ⟨content, _⟩, target) ← c.triple "Link"
      return .link (← Attr.ofJson attr.1) (← Inline.ofJsonList content) (← Target.ofJson target.1)
    | .image =>
      let ⟨c, _⟩ ← Json.required name content?
      let (attr, ⟨content, _⟩, target) ← c.triple "Image"
      return .image (← Attr.ofJson attr.1) (← Inline.ofJsonList content)
        (← Target.ofJson target.1)
    | .note =>
      let ⟨c, _⟩ ← Json.required name content?
      return .note (← Block.ofJsonList c)
    | .span =>
      let ⟨c, _⟩ ← Json.required name content?
      let (attr, ⟨content, _⟩) ← c.pair "Span"
      return .span (← Attr.ofJson attr.1) (← Inline.ofJsonList content)
termination_by sizeOf v

/-- The inlines of an array. -/
def Inline.ofJsonList (v : Json) : Reading (List Inline) := do
  (← v.elements "Inlines").mapM fun ⟨x, _⟩ => Inline.ofJson x
termination_by sizeOf v

/-- A citation is an object of six members. -/
def Citation.ofJson (v : Json) : Reading Citation := do
  let field ← v.object? "Citation"
  let id ← (← field "citationId").1.asString "citationId"
  let ⟨before, _⟩ ← field "citationPrefix"
  let before ← Inline.ofJsonList before
  let ⟨after, _⟩ ← field "citationSuffix"
  let after ← Inline.ofJsonList after
  let mode ← Choice.ofJson (← field "citationMode").1
  let noteNumber ← (← field "citationNoteNum").1.asInt "citationNoteNum"
  let hash ← (← field "citationHash").1.asInt "citationHash"
  return .mk id before after mode noteNumber hash
termination_by sizeOf v

end

/-! ## Metadata and documents -/

mutual

/-- The metadata value of a value. -/
def MetaValue.ofJson (v : Json) : Reading MetaValue := do
  let (name, content?) ← v.tagAndContent "MetaValue"
  match Named.ofName? name with
  | none => throw (.unsupportedVariant "MetaValue" name)
  | some (tag : MetaTag) =>
    let ⟨c, _⟩ ← Json.required name content?
    match tag with
    | .map => return .map (← MetaValue.ofJsonEntries c)
    | .list => return .list (← (← c.elements "MetaList").mapM fun ⟨x, _⟩ => MetaValue.ofJson x)
    | .bool => return .bool (← c.asBool "MetaBool content")
    | .str => return .str (← c.asString "MetaString content")
    | .inlines => return .inlines (← Inline.ofJsonList c)
    | .blocks => return .blocks (← Block.ofJsonList c)
termination_by sizeOf v

/-- The entries of an object, in key order. -/
def MetaValue.ofJsonEntries (v : Json) : Reading (List (String × MetaValue)) := do
  (← v.fields "Meta").mapM fun ⟨key, ⟨x, _⟩⟩ => return (key, ← MetaValue.ofJson x)
termination_by sizeOf v

end

/-- The version of an array of small integers, if it is one whose tree is known. -/
def ApiVersion.ofJson (v : Json) : Reading ApiVersion := do
  let numbers ← v.elements "pandoc-api-version"
  let version ← numbers.mapM (·.1.asSmallNat "pandoc-api-version entries")
  if ApiVersion.isSupported version then return version
  else throw (.unsupportedApiVersion version)

/-- The document of a value. -/
def Document.ofJson (v : Json) : Reading Document := do
  let field ← v.object? "Pandoc"
  let apiVersion ← ApiVersion.ofJson (← field "pandoc-api-version").1
  let metadata ← MetaValue.ofJsonEntries (← field "meta").1
  let blocks ← Block.ofJsonList (← field "blocks").1
  return ⟨apiVersion, metadata, blocks⟩

end Transclude
