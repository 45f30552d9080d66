import Transclude.Document.Attr
import Transclude.Number.Binary64

/-!
# Documents

The tree of a document.  Blocks hold inlines in paragraphs, headers, captions and terms;
inlines hold blocks in notes only.

Main definitions:

- {lit}`Block`, {lit}`Inline`, {lit}`Citation`, {lit}`Definition`: the nodes of the tree.
- {lit}`MetaValue`, {lit}`Meta`: metadata, in the order in which it was entered.
- {lit}`Document`: a format version, metadata and blocks.
-/

namespace Transclude

/-! ## Leaves -/

/-- The marks around quoted text. -/
inductive QuoteKind where
  | single
  | double
  deriving DecidableEq, Repr, Inhabited

/-- Whether a formula stands in a line or on its own. -/
inductive MathKind where
  | inline
  | display
  deriving DecidableEq, Repr, Inhabited

/-- How a citation names its author. -/
inductive CitationMode where
  | authorInText
  | suppressAuthor
  | normal
  deriving DecidableEq, Repr, Inhabited

/-- The numerals of an ordered list. -/
inductive NumberStyle where
  | default
  | example
  | decimal
  | lowerRoman
  | upperRoman
  | lowerAlpha
  | upperAlpha
  deriving DecidableEq, Repr, Inhabited

/-- What stands around the numerals of an ordered list. -/
inductive NumberDelimiter where
  | default
  | period
  | oneParen
  | twoParens
  deriving DecidableEq, Repr, Inhabited

/-- The alignment of a table column. -/
inductive Alignment where
  | left
  | right
  | center
  | default
  deriving DecidableEq, Repr, Inhabited

/-- Where the numbering of an ordered list starts and how it looks. -/
structure ListNumbering where
  start : Int64
  style : NumberStyle
  delimiter : NumberDelimiter
  deriving DecidableEq, Repr, Inhabited

/-- Where a link or an image points, and its title. -/
structure Target where
  url : String
  title : String
  deriving DecidableEq, Repr, Inhabited

/-! ## Nodes -/

mutual

/-- A block of a document. -/
inductive Block where
  | plain (content : List Inline)
  | para (content : List Inline)
  | lineBlock (lines : List (List Inline))
  | codeBlock (attr : Attr) (text : String)
  | rawBlock (format : String) (text : String)
  | blockQuote (content : List Block)
  | orderedList (numbering : ListNumbering) (items : List (List Block))
  | bulletList (items : List (List Block))
  | definitionList (items : List Definition)
  | header (level : Int64) (attr : Attr) (content : List Inline)
  | horizontalRule
  | table (caption : List Inline) (alignments : List Alignment) (widths : List Binary64)
      (headers : List (List Block)) (rows : List (List (List Block)))
  | div (attr : Attr) (content : List Block)
  | null

/-- A term with its definitions. -/
inductive Definition where
  | mk (term : List Inline) (definitions : List (List Block))

/-- A piece of running text. -/
inductive Inline where
  | str (text : String)
  | emph (content : List Inline)
  | strong (content : List Inline)
  | strikeout (content : List Inline)
  | superscript (content : List Inline)
  | subscript (content : List Inline)
  | smallCaps (content : List Inline)
  | quoted (kind : QuoteKind) (content : List Inline)
  | cite (citations : List Citation) (content : List Inline)
  | code (attr : Attr) (text : String)
  | space
  | softBreak
  | lineBreak
  | math (kind : MathKind) (text : String)
  | rawInline (format : String) (text : String)
  | link (attr : Attr) (content : List Inline) (target : Target)
  | image (attr : Attr) (content : List Inline) (target : Target)
  | note (content : List Block)
  | span (attr : Attr) (content : List Inline)

/-- One work cited, with the text before and after it. -/
inductive Citation where
  | mk (id : String) (before after : List Inline) (mode : CitationMode) (noteNumber hash : Int64)

end

instance : Inhabited Block := ⟨.null⟩

instance : Inhabited Inline := ⟨.space⟩

/-! ## Metadata -/

/-- A value of the metadata; a map lists its entries in the order of insertion. -/
inductive MetaValue where
  | map (entries : List (String × MetaValue))
  | list (values : List MetaValue)
  | bool (b : Bool)
  | str (s : String)
  | inlines (content : List Inline)
  | blocks (content : List Block)

/-- The value that stands for nothing: an empty map. -/
instance : Inhabited MetaValue := ⟨.map []⟩

/-- Metadata in the order of insertion, with no key twice. -/
abbrev Meta := List (String × MetaValue)

/-! ## Documents -/

/-- The version of the document format, most significant number first. -/
abbrev ApiVersion := List UInt32

namespace ApiVersion

/-- The version of documents that are built rather than read. -/
def current : ApiVersion :=
  [1, 17, 5, 4]

/-- Whether the tree has the known shape: the first two numbers decide, later ones do not. -/
def isSupported (version : ApiVersion) : Bool :=
  version.take 2 == current.take 2

end ApiVersion

/-- A document: the version it came with, its metadata and its blocks. -/
structure Document where
  apiVersion : ApiVersion
  metadata : Meta
  blocks : List Block
  deriving Inhabited

namespace Document

/-- A document of the current version without metadata. -/
def ofBlocks (blocks : List Block) : Document :=
  ⟨.current, [], blocks⟩

/-- The document without blocks. -/
def empty : Document :=
  ofBlocks []

end Document

end Transclude
