import Transclude.Include.Expansion
import Transclude.Proofs.Splice.Visits

/-!
# Expansion in one pass

The second definition of expansion: blocks are rebuilt in document order, and as soon as a
directive is met its files are included and their divisions take its place.  There is no queue;
what a file includes in turn is a recursive call with the file on top of the open ones.

Main results:

- Definition {lit}`OnePass.blocks`: blocks rebuilt, with something in place of each directive.
- Definition {lit}`Expansion.onePass`: expansion as one recursion over blocks and files.
- Theorem {lit}`OnePass.blocks_eq`: rebuilding is an edit at the directives.
-/

namespace Transclude

namespace OnePass

/-! ## Rebuilding blocks -/

section Definitions

variable {m : Type → Type} [Monad m]

mutual

/-- The blocks that a block becomes, in whose place and below which directives make way for what
is inserted for their texts. -/
def block (options : Options) (insert : String → m (List Block)) : Block → m (List Block)
  | .plain content => return [.plain (← inlines options insert content)]
  | .para content => return [.para (← inlines options insert content)]
  | .lineBlock content => return [.lineBlock (← lines options insert content)]
  | .codeBlock attr text =>
    if options.isDirective attr then insert text else return [.codeBlock attr text]
  | .rawBlock format text => return [.rawBlock format text]
  | .blockQuote content => return [.blockQuote (← blocks options insert content)]
  | .orderedList numbering content =>
    return [.orderedList numbering (← items options insert content)]
  | .bulletList content => return [.bulletList (← items options insert content)]
  | .definitionList content => return [.definitionList (← definitions options insert content)]
  | .header level attr content => return [.header level attr (← inlines options insert content)]
  | .horizontalRule => return [.horizontalRule]
  | .table caption alignments widths headers content => do
    let caption ← inlines options insert caption
    let headers ← items options insert headers
    let content ← rows options insert content
    return [.table caption alignments widths headers content]
  | .div attr content => return [.div attr (← blocks options insert content)]
  | .null => return [.null]

/-- The blocks that a sequence of blocks becomes, the ones of each block in its slot. -/
def blocks (options : Options) (insert : String → m (List Block)) :
    List Block → m (List Block)
  | [] => return []
  | b :: bs => do
    let slot ← block options insert b
    return slot ++ (← blocks options insert bs)

/-- Rebuild the items of a list or the cells of a row. -/
def items (options : Options) (insert : String → m (List Block)) :
    List (List Block) → m (List (List Block))
  | [] => return []
  | item :: rest => do
    let item ← blocks options insert item
    return item :: (← items options insert rest)

/-- Rebuild the rows of a table. -/
def rows (options : Options) (insert : String → m (List Block)) :
    List (List (List Block)) → m (List (List (List Block)))
  | [] => return []
  | row :: rest => do
    let row ← items options insert row
    return row :: (← rows options insert rest)

/-- Rebuild a definition list, each term before its definitions. -/
def definitions (options : Options) (insert : String → m (List Block)) :
    List Definition → m (List Definition)
  | [] => return []
  | .mk term meanings :: rest => do
    let term ← inlines options insert term
    let meanings ← items options insert meanings
    return .mk term meanings :: (← definitions options insert rest)

/-- Rebuild an inline, into whose notes the pass crosses. -/
def inline (options : Options) (insert : String → m (List Block)) : Inline → m Inline
  | .emph content => return .emph (← inlines options insert content)
  | .strong content => return .strong (← inlines options insert content)
  | .strikeout content => return .strikeout (← inlines options insert content)
  | .superscript content => return .superscript (← inlines options insert content)
  | .subscript content => return .subscript (← inlines options insert content)
  | .smallCaps content => return .smallCaps (← inlines options insert content)
  | .quoted kind content => return .quoted kind (← inlines options insert content)
  | .cite citations content => return .cite citations (← inlines options insert content)
  | .link attr content target => return .link attr (← inlines options insert content) target
  | .image attr content target => return .image attr (← inlines options insert content) target
  | .note content => return .note (← blocks options insert content)
  | .span attr content => return .span attr (← inlines options insert content)
  | .str text => return .str text
  | .code attr text => return .code attr text
  | .space => return .space
  | .softBreak => return .softBreak
  | .lineBreak => return .lineBreak
  | .math kind text => return .math kind text
  | .rawInline format text => return .rawInline format text

/-- Rebuild running text. -/
def inlines (options : Options) (insert : String → m (List Block)) :
    List Inline → m (List Inline)
  | [] => return []
  | x :: xs => do
    let x ← inline options insert x
    return x :: (← inlines options insert xs)

/-- Rebuild the lines of a line block. -/
def lines (options : Options) (insert : String → m (List Block)) :
    List (List Inline) → m (List (List Inline))
  | [] => return []
  | line :: rest => do
    let line ← inlines options insert line
    return line :: (← lines options insert rest)

end

end Definitions

/-! ## Rebuilding is an edit -/

section Edit

variable {m : Type → Type} [Monad m] (options : Options) (insert : String → m (List Block))

/-- What a directive makes way for, as the answer of an edit. -/
def answer (b : Block) : m Edit := do
  match ← Expansion.atDirective options insert b with
  | none => return .keep
  | some new => return .replace new

mutual

/-- A directive makes way for what is inserted for it; any other block stays, with its children
edited. -/
theorem block_eq [LawfulMonad m] : ∀ b : Block,
    block options insert b = (do
      match ← answer options insert b with
      | .keep => return [← Splice.blockChildren pure true (answer options insert) b]
      | .replace new => return new
      | .descend new => new.mapM pure)
  | .plain content => by
    simp [block, answer, Expansion.atDirective, Splice.blockChildren, inlines_eq content]
  | .para content => by
    simp [block, answer, Expansion.atDirective, Splice.blockChildren, inlines_eq content]
  | .lineBlock content => by
    simp [block, answer, Expansion.atDirective, Splice.blockChildren, lines_eq content]
  | .codeBlock attr text => by
    simp only [block, answer, Expansion.atDirective, Splice.blockChildren]
    split <;> simp
  | .rawBlock format text => by
    simp [block, answer, Expansion.atDirective, Splice.blockChildren]
  | .blockQuote content => by
    simp [block, answer, Expansion.atDirective, Splice.blockChildren, blocks_eq content]
  | .orderedList numbering content => by
    simp [block, answer, Expansion.atDirective, Splice.blockChildren, items_eq content]
  | .bulletList content => by
    simp [block, answer, Expansion.atDirective, Splice.blockChildren, items_eq content]
  | .definitionList content => by
    simp [block, answer, Expansion.atDirective, Splice.blockChildren, definitions_eq content]
  | .header level attr content => by
    simp [block, answer, Expansion.atDirective, Splice.blockChildren, inlines_eq content]
  | .horizontalRule => by
    simp [block, answer, Expansion.atDirective, Splice.blockChildren]
  | .table caption alignments widths headers content => by
    simp [block, answer, Expansion.atDirective, Splice.blockChildren, inlines_eq caption,
      items_eq headers, rows_eq content]
  | .div attr content => by
    simp [block, answer, Expansion.atDirective, Splice.blockChildren, blocks_eq content]
  | .null => by
    simp [block, answer, Expansion.atDirective, Splice.blockChildren]

/-- Rebuilding blocks is editing them at their directives. -/
theorem blocks_eq [LawfulMonad m] : ∀ bs : List Block,
    blocks options insert bs = Splice.blockContent pure true (answer options insert) bs
  | [] => by rw [blocks, Splice.blockContent]
  | b :: bs => by
    rw [blocks, Splice.blockContent, block_eq b, blocks_eq bs, bind_assoc]
    apply bind_congr
    intro answer
    cases answer with
    | keep => simp
    | replace new => simp
    | descend new => simp

/-- So is rebuilding the items of a list, or the cells of a row. -/
theorem items_eq [LawfulMonad m] : ∀ content : List (List Block),
    items options insert content =
      Splice.itemContents pure true (answer options insert) content
  | [] => by rw [items, Splice.itemContents]
  | item :: rest => by rw [items, Splice.itemContents, blocks_eq item, items_eq rest]

/-- So is rebuilding the rows of a table. -/
theorem rows_eq [LawfulMonad m] : ∀ content : List (List (List Block)),
    rows options insert content = Splice.rowContents pure true (answer options insert) content
  | [] => by rw [rows, Splice.rowContents]
  | row :: rest => by rw [rows, Splice.rowContents, items_eq row, rows_eq rest]

/-- So is rebuilding a definition list. -/
theorem definitions_eq [LawfulMonad m] : ∀ content : List Definition,
    definitions options insert content =
      Splice.definitionContents pure true (answer options insert) content
  | [] => by rw [definitions, Splice.definitionContents]
  | .mk term meanings :: rest => by
    rw [definitions, Splice.definitionContents, inlines_eq term, items_eq meanings,
      definitions_eq rest]

/-- Rebuilding an inline is editing the blocks of its notes. -/
theorem inline_eq [LawfulMonad m] : ∀ x : Inline,
    inline options insert x = Splice.inlineChildren pure true (answer options insert) x
  | .str text => by rw [inline, Splice.inlineChildren]
  | .emph content => by rw [inline, Splice.inlineChildren, inlines_eq content]
  | .strong content => by rw [inline, Splice.inlineChildren, inlines_eq content]
  | .strikeout content => by rw [inline, Splice.inlineChildren, inlines_eq content]
  | .superscript content => by rw [inline, Splice.inlineChildren, inlines_eq content]
  | .subscript content => by rw [inline, Splice.inlineChildren, inlines_eq content]
  | .smallCaps content => by rw [inline, Splice.inlineChildren, inlines_eq content]
  | .quoted kind content => by rw [inline, Splice.inlineChildren, inlines_eq content]
  | .cite citations content => by rw [inline, Splice.inlineChildren, inlines_eq content]
  | .code attr text => by rw [inline, Splice.inlineChildren]
  | .space => by rw [inline, Splice.inlineChildren]
  | .softBreak => by rw [inline, Splice.inlineChildren]
  | .lineBreak => by rw [inline, Splice.inlineChildren]
  | .math kind text => by rw [inline, Splice.inlineChildren]
  | .rawInline format text => by rw [inline, Splice.inlineChildren]
  | .link attr content target => by rw [inline, Splice.inlineChildren, inlines_eq content]
  | .image attr content target => by rw [inline, Splice.inlineChildren, inlines_eq content]
  | .note content => by rw [inline, Splice.inlineChildren, blocks_eq content]
  | .span attr content => by rw [inline, Splice.inlineChildren, inlines_eq content]

/-- Rebuilding running text is editing the blocks of its notes. -/
theorem inlines_eq [LawfulMonad m] : ∀ xs : List Inline,
    inlines options insert xs = Splice.inlineContent pure true (answer options insert) xs
  | [] => by rw [inlines, Splice.inlineContent]
  | x :: xs => by
    rw [inlines, Splice.inlineContent, if_pos rfl, inline_eq x, inlines_eq xs]

/-- So is rebuilding the lines of a line block. -/
theorem lines_eq [LawfulMonad m] : ∀ content : List (List Inline),
    lines options insert content = Splice.lineContents pure true (answer options insert) content
  | [] => by rw [lines, Splice.lineContents]
  | line :: rest => by rw [lines, Splice.lineContents, inlines_eq line, lines_eq rest]

end

end Edit

end OnePass

/-! ## Files in files -/

namespace Expansion

variable {m : Type → Type} [Monad m]

/-- Expand blocks inside the files that are open, from the directory whose files they name.

At a directive its references are taken in listed order.  Each is resolved, refused if its file
is open already or if no more files may be opened, and otherwise converted, expanded in turn from
its own directory with the file open, and put into a division. -/
def onePass (options : Options) (converter : Converter m) (openFiles : List Path)
    (baseDir : String) (bs : List Block) : ExceptT IncludeError m (List Block) :=
  OnePass.blocks options
    (fun text => do
      let refs ← ExceptT.mk (pure (options.parseDirective baseDir text))
      refs.mapM fun ref => do
        let path := Path.resolve baseDir ref.path
        if path ∈ openFiles then throw (.cycle (openFiles ++ [path]))
        else if _hroom : options.maxDepth ≤ openFiles.length then
          throw (.depthExceeded options.maxDepth path)
        else
          match ← converter ⟨path, ref.dialect, openFiles⟩ with
          | .error cause => throw (.convert path text cause)
          | .ok document =>
            let bs ← onePass options converter (openFiles ++ [path]) path.parent.toText
              document.blocks
            return container options bs)
    bs
termination_by options.maxDepth - openFiles.length
decreasing_by
  rw [List.length_append, List.length_singleton]
  omega

end Expansion

end Transclude
