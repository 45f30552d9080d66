import Transclude.Proofs.Expansion.OnePass
import Transclude.Proofs.Splice.Regrowth

/-!
# Blocks with a gap

A document from which some blocks that stand next to each other are taken out, at any place that
an edit comes to: at the top, in a division, a list item, a table cell or a note, however deep.
The types mirror the recursion of a pass over blocks, one for each function of it.

Main results:

- Definition {lit}`BlocksGap.plug`: the blocks with the gap filled.
- Theorem {lit}`BlocksGap.exists_plug_eq`: every block of a listing stands in a gap.
- Theorem {lit}`BlocksGap.blocks_related`: passes over two documents that differ in a gap are
  related as the passes over what fills it.
- Theorem {lit}`BlocksGap.blocks_plugged`: the result of a pass has a gap, which is filled with the
  result of what filled the gap before.
-/

namespace Transclude

/-! ## Gaps -/

mutual

/-- A sequence of blocks with a gap, in the sequence itself or below one of its blocks. -/
inductive BlocksGap where
  | here (rest : List Block)
  | first (b : BlockGap) (rest : List Block)
  | later (b : Block) (rest : BlocksGap)

/-- A block with a gap below it. -/
inductive BlockGap where
  | plain (content : InlinesGap)
  | para (content : InlinesGap)
  | lineBlock (lines : LinesGap)
  | blockQuote (content : BlocksGap)
  | orderedList (numbering : ListNumbering) (items : ItemsGap)
  | bulletList (items : ItemsGap)
  | definitionList (items : DefinitionsGap)
  | header (level : Int64) (attr : Attr) (content : InlinesGap)
  | tableCaption (caption : InlinesGap) (alignments : List Alignment) (widths : List Binary64)
    (headers : List (List Block)) (rows : List (List (List Block)))
  | tableHeaders (caption : List Inline) (alignments : List Alignment) (widths : List Binary64)
    (headers : ItemsGap) (rows : List (List (List Block)))
  | tableRows (caption : List Inline) (alignments : List Alignment) (widths : List Binary64)
    (headers : List (List Block)) (rows : RowsGap)
  | div (attr : Attr) (content : BlocksGap)

/-- Items of a list or cells of a row, one of them with a gap. -/
inductive ItemsGap where
  | first (item : BlocksGap) (rest : List (List Block))
  | later (item : List Block) (rest : ItemsGap)

/-- Rows of a table, one of them with a gap. -/
inductive RowsGap where
  | first (row : ItemsGap) (rest : List (List (List Block)))
  | later (row : List (List Block)) (rest : RowsGap)

/-- A definition list with a gap in a term or in its definitions. -/
inductive DefinitionsGap where
  | term (term : InlinesGap) (meanings : List (List Block)) (rest : List Definition)
  | meanings (term : List Inline) (meanings : ItemsGap) (rest : List Definition)
  | later (term : List Inline) (meanings : List (List Block)) (rest : DefinitionsGap)

/-- An inline with a gap below it.  A citation has none in the text before and after it. -/
inductive InlineGap where
  | emph (content : InlinesGap)
  | strong (content : InlinesGap)
  | strikeout (content : InlinesGap)
  | superscript (content : InlinesGap)
  | subscript (content : InlinesGap)
  | smallCaps (content : InlinesGap)
  | quoted (kind : QuoteKind) (content : InlinesGap)
  | cite (citations : List Citation) (content : InlinesGap)
  | link (attr : Attr) (content : InlinesGap) (target : Target)
  | image (attr : Attr) (content : InlinesGap) (target : Target)
  | note (content : BlocksGap)
  | span (attr : Attr) (content : InlinesGap)

/-- Running text with a gap below one of its inlines. -/
inductive InlinesGap where
  | first (x : InlineGap) (rest : List Inline)
  | later (x : Inline) (rest : InlinesGap)

/-- Lines of a line block, one of them with a gap. -/
inductive LinesGap where
  | first (line : InlinesGap) (rest : List (List Inline))
  | later (line : List Inline) (rest : LinesGap)

end

mutual

/-- The blocks with the gap filled. -/
def BlocksGap.plug (new : List Block) : BlocksGap → List Block
  | .here rest => new ++ rest
  | .first b rest => b.plug new :: rest
  | .later b rest => b :: rest.plug new

/-- The block with the gap filled. -/
def BlockGap.plug (new : List Block) : BlockGap → Block
  | .plain content => .plain (content.plug new)
  | .para content => .para (content.plug new)
  | .lineBlock lines => .lineBlock (lines.plug new)
  | .blockQuote content => .blockQuote (content.plug new)
  | .orderedList numbering items => .orderedList numbering (items.plug new)
  | .bulletList items => .bulletList (items.plug new)
  | .definitionList items => .definitionList (items.plug new)
  | .header level attr content => .header level attr (content.plug new)
  | .tableCaption caption alignments widths headers rows =>
    .table (caption.plug new) alignments widths headers rows
  | .tableHeaders caption alignments widths headers rows =>
    .table caption alignments widths (headers.plug new) rows
  | .tableRows caption alignments widths headers rows =>
    .table caption alignments widths headers (rows.plug new)
  | .div attr content => .div attr (content.plug new)

/-- The items with the gap filled. -/
def ItemsGap.plug (new : List Block) : ItemsGap → List (List Block)
  | .first item rest => item.plug new :: rest
  | .later item rest => item :: rest.plug new

/-- The rows with the gap filled. -/
def RowsGap.plug (new : List Block) : RowsGap → List (List (List Block))
  | .first row rest => row.plug new :: rest
  | .later row rest => row :: rest.plug new

/-- The definition list with the gap filled. -/
def DefinitionsGap.plug (new : List Block) : DefinitionsGap → List Definition
  | .term term meanings rest => .mk (term.plug new) meanings :: rest
  | .meanings term meanings rest => .mk term (meanings.plug new) :: rest
  | .later term meanings rest => .mk term meanings :: rest.plug new

/-- The inline with the gap filled. -/
def InlineGap.plug (new : List Block) : InlineGap → Inline
  | .emph content => .emph (content.plug new)
  | .strong content => .strong (content.plug new)
  | .strikeout content => .strikeout (content.plug new)
  | .superscript content => .superscript (content.plug new)
  | .subscript content => .subscript (content.plug new)
  | .smallCaps content => .smallCaps (content.plug new)
  | .quoted kind content => .quoted kind (content.plug new)
  | .cite citations content => .cite citations (content.plug new)
  | .link attr content target => .link attr (content.plug new) target
  | .image attr content target => .image attr (content.plug new) target
  | .note content => .note (content.plug new)
  | .span attr content => .span attr (content.plug new)

/-- The running text with the gap filled. -/
def InlinesGap.plug (new : List Block) : InlinesGap → List Inline
  | .first x rest => x.plug new :: rest
  | .later x rest => x :: rest.plug new

/-- The lines with the gap filled. -/
def LinesGap.plug (new : List Block) : LinesGap → List (List Inline)
  | .first line rest => line.plug new :: rest
  | .later line rest => line :: rest.plug new

end

/-! ## Every block stands in a gap -/

-- One theorem for each type of gaps, by recursion over the tree that has the block in it.
mutual

/-- A block below another one fills a gap in that. -/
theorem BlockGap.exists_plug_eq {b : Block} : ∀ c : Block,
    .block b ∈ Block.descendants .everywhere c → ∃ gap : BlockGap, gap.plug [b] = c
  | .plain content, h =>
    have ⟨gap, hgap⟩ := InlinesGap.exists_plug_eq content h
    ⟨.plain gap, by rw [BlockGap.plug, hgap]⟩
  | .para content, h =>
    have ⟨gap, hgap⟩ := InlinesGap.exists_plug_eq content h
    ⟨.para gap, by rw [BlockGap.plug, hgap]⟩
  | .lineBlock lines, h =>
    have ⟨gap, hgap⟩ := LinesGap.exists_plug_eq lines h
    ⟨.lineBlock gap, by rw [BlockGap.plug, hgap]⟩
  | .codeBlock _ _, h => nomatch h
  | .rawBlock _ _, h => nomatch h
  | .blockQuote content, h =>
    have ⟨gap, hgap⟩ := BlocksGap.exists_plug_eq content h
    ⟨.blockQuote gap, by rw [BlockGap.plug, hgap]⟩
  | .orderedList numbering items, h =>
    have ⟨gap, hgap⟩ := ItemsGap.exists_plug_eq items h
    ⟨.orderedList numbering gap, by rw [BlockGap.plug, hgap]⟩
  | .bulletList items, h =>
    have ⟨gap, hgap⟩ := ItemsGap.exists_plug_eq items h
    ⟨.bulletList gap, by rw [BlockGap.plug, hgap]⟩
  | .definitionList items, h =>
    have ⟨gap, hgap⟩ := DefinitionsGap.exists_plug_eq items h
    ⟨.definitionList gap, by rw [BlockGap.plug, hgap]⟩
  | .header level attr content, h =>
    have ⟨gap, hgap⟩ := InlinesGap.exists_plug_eq content h
    ⟨.header level attr gap, by rw [BlockGap.plug, hgap]⟩
  | .horizontalRule, h => nomatch h
  | .table caption alignments widths headers rows, h => by
    rcases List.mem_append.1 h with h | h
    · rcases List.mem_append.1 h with h | h
      · obtain ⟨gap, hgap⟩ := InlinesGap.exists_plug_eq caption h
        exact ⟨.tableCaption gap alignments widths headers rows, by rw [BlockGap.plug, hgap]⟩
      · obtain ⟨gap, hgap⟩ := ItemsGap.exists_plug_eq headers h
        exact ⟨.tableHeaders caption alignments widths gap rows, by rw [BlockGap.plug, hgap]⟩
    · obtain ⟨gap, hgap⟩ := RowsGap.exists_plug_eq rows h
      exact ⟨.tableRows caption alignments widths headers gap, by rw [BlockGap.plug, hgap]⟩
  | .div attr content, h =>
    have ⟨gap, hgap⟩ := BlocksGap.exists_plug_eq content h
    ⟨.div attr gap, by rw [BlockGap.plug, hgap]⟩
  | .null, h => nomatch h

/-- Every block that is listed stands in a gap, which it fills. -/
theorem BlocksGap.exists_plug_eq {b : Block} : ∀ bs : List Block,
    .block b ∈ Block.preorder .everywhere bs → ∃ gap : BlocksGap, gap.plug [b] = bs
  | [], h => nomatch h
  | c :: bs, h => by
    rcases List.mem_append.1 h with h | h
    · rcases List.mem_cons.1 h with hhere | h
      · cases hhere
        exact ⟨.here bs, rfl⟩
      · obtain ⟨gap, hgap⟩ := BlockGap.exists_plug_eq c h
        exact ⟨.first gap bs, by rw [BlocksGap.plug, hgap]⟩
    · obtain ⟨gap, hgap⟩ := BlocksGap.exists_plug_eq bs h
      exact ⟨.later c gap, by rw [BlocksGap.plug, hgap]⟩

/-- A block in the items of a list, or in the cells of a row, fills a gap in them. -/
theorem ItemsGap.exists_plug_eq {b : Block} : ∀ items : List (List Block),
    .block b ∈ Block.preorderItems .everywhere items → ∃ gap : ItemsGap, gap.plug [b] = items
  | [], h => nomatch h
  | item :: rest, h => by
    rcases List.mem_append.1 h with h | h
    · obtain ⟨gap, hgap⟩ := BlocksGap.exists_plug_eq item h
      exact ⟨.first gap rest, by rw [ItemsGap.plug, hgap]⟩
    · obtain ⟨gap, hgap⟩ := ItemsGap.exists_plug_eq rest h
      exact ⟨.later item gap, by rw [ItemsGap.plug, hgap]⟩

/-- A block in the rows of a table fills a gap in them. -/
theorem RowsGap.exists_plug_eq {b : Block} : ∀ rows : List (List (List Block)),
    .block b ∈ Block.preorderRows .everywhere rows → ∃ gap : RowsGap, gap.plug [b] = rows
  | [], h => nomatch h
  | row :: rest, h => by
    rcases List.mem_append.1 h with h | h
    · obtain ⟨gap, hgap⟩ := ItemsGap.exists_plug_eq row h
      exact ⟨.first gap rest, by rw [RowsGap.plug, hgap]⟩
    · obtain ⟨gap, hgap⟩ := RowsGap.exists_plug_eq rest h
      exact ⟨.later row gap, by rw [RowsGap.plug, hgap]⟩

/-- A block in a definition list fills a gap in it. -/
theorem DefinitionsGap.exists_plug_eq {b : Block} : ∀ items : List Definition,
    .block b ∈ Definition.preorder .everywhere items →
      ∃ gap : DefinitionsGap, gap.plug [b] = items
  | [], h => nomatch h
  | .mk term meanings :: rest, h => by
    rcases List.mem_append.1 h with h | h
    · rcases List.mem_append.1 h with h | h
      · obtain ⟨gap, hgap⟩ := InlinesGap.exists_plug_eq term h
        exact ⟨.term gap meanings rest, by rw [DefinitionsGap.plug, hgap]⟩
      · obtain ⟨gap, hgap⟩ := ItemsGap.exists_plug_eq meanings h
        exact ⟨.meanings term gap rest, by rw [DefinitionsGap.plug, hgap]⟩
    · obtain ⟨gap, hgap⟩ := DefinitionsGap.exists_plug_eq rest h
      exact ⟨.later term meanings gap, by rw [DefinitionsGap.plug, hgap]⟩

/-- A block below an inline fills a gap in that. -/
theorem InlineGap.exists_plug_eq {b : Block} : ∀ x : Inline,
    .block b ∈ Inline.descendants .everywhere x → ∃ gap : InlineGap, gap.plug [b] = x
  | .str _, h => nomatch h
  | .emph content, h =>
    have ⟨gap, hgap⟩ := InlinesGap.exists_plug_eq content h
    ⟨.emph gap, by rw [InlineGap.plug, hgap]⟩
  | .strong content, h =>
    have ⟨gap, hgap⟩ := InlinesGap.exists_plug_eq content h
    ⟨.strong gap, by rw [InlineGap.plug, hgap]⟩
  | .strikeout content, h =>
    have ⟨gap, hgap⟩ := InlinesGap.exists_plug_eq content h
    ⟨.strikeout gap, by rw [InlineGap.plug, hgap]⟩
  | .superscript content, h =>
    have ⟨gap, hgap⟩ := InlinesGap.exists_plug_eq content h
    ⟨.superscript gap, by rw [InlineGap.plug, hgap]⟩
  | .subscript content, h =>
    have ⟨gap, hgap⟩ := InlinesGap.exists_plug_eq content h
    ⟨.subscript gap, by rw [InlineGap.plug, hgap]⟩
  | .smallCaps content, h =>
    have ⟨gap, hgap⟩ := InlinesGap.exists_plug_eq content h
    ⟨.smallCaps gap, by rw [InlineGap.plug, hgap]⟩
  | .quoted kind content, h =>
    have ⟨gap, hgap⟩ := InlinesGap.exists_plug_eq content h
    ⟨.quoted kind gap, by rw [InlineGap.plug, hgap]⟩
  | .cite citations content, h =>
    have ⟨gap, hgap⟩ := InlinesGap.exists_plug_eq content h
    ⟨.cite citations gap, by rw [InlineGap.plug, hgap]⟩
  | .code _ _, h => nomatch h
  | .space, h => nomatch h
  | .softBreak, h => nomatch h
  | .lineBreak, h => nomatch h
  | .math _ _, h => nomatch h
  | .rawInline _ _, h => nomatch h
  | .link attr content target, h =>
    have ⟨gap, hgap⟩ := InlinesGap.exists_plug_eq content h
    ⟨.link attr gap target, by rw [InlineGap.plug, hgap]⟩
  | .image attr content target, h =>
    have ⟨gap, hgap⟩ := InlinesGap.exists_plug_eq content h
    ⟨.image attr gap target, by rw [InlineGap.plug, hgap]⟩
  | .note content, h =>
    have ⟨gap, hgap⟩ := BlocksGap.exists_plug_eq content h
    ⟨.note gap, by rw [InlineGap.plug, hgap]⟩
  | .span attr content, h =>
    have ⟨gap, hgap⟩ := InlinesGap.exists_plug_eq content h
    ⟨.span attr gap, by rw [InlineGap.plug, hgap]⟩

/-- A block in running text fills a gap in it. -/
theorem InlinesGap.exists_plug_eq {b : Block} : ∀ xs : List Inline,
    .block b ∈ Inline.preorder .everywhere xs → ∃ gap : InlinesGap, gap.plug [b] = xs
  | [], h => nomatch h
  | x :: xs, h => by
    rcases List.mem_append.1 h with h | h
    · rcases List.mem_cons.1 h with hhere | h
      · cases hhere
      · obtain ⟨gap, hgap⟩ := InlineGap.exists_plug_eq x h
        exact ⟨.first gap xs, by rw [InlinesGap.plug, hgap]⟩
    · obtain ⟨gap, hgap⟩ := InlinesGap.exists_plug_eq xs h
      exact ⟨.later x gap, by rw [InlinesGap.plug, hgap]⟩

/-- A block in the lines of a line block fills a gap in them. -/
theorem LinesGap.exists_plug_eq {b : Block} : ∀ lines : List (List Inline),
    .block b ∈ Inline.preorderLines .everywhere lines → ∃ gap : LinesGap, gap.plug [b] = lines
  | [], h => nomatch h
  | line :: rest, h => by
    rcases List.mem_append.1 h with h | h
    · obtain ⟨gap, hgap⟩ := InlinesGap.exists_plug_eq line h
      exact ⟨.first gap rest, by rw [LinesGap.plug, hgap]⟩
    · obtain ⟨gap, hgap⟩ := LinesGap.exists_plug_eq rest h
      exact ⟨.later line gap, by rw [LinesGap.plug, hgap]⟩

end

/-! ## Passes over blocks with a gap -/

section Passes

variable {m : Type → Type} [Monad m]

/-- A relation of effects that goes along with what comes after them. -/
structure Congruent (R : ⦃α : Type⦄ → m α → m α → Prop) : Prop where
  refl : ∀ {α : Type} (x : m α), R x x
  bind : ∀ {α β : Type} {x y : m α} {f g : α → m β},
    R x y → (∀ a, R (f a) (g a)) → R (x >>= f) (y >>= g)

/-- What comes after related effects does not matter. -/
theorem Congruent.first {R : ⦃α : Type⦄ → m α → m α → Prop} (hR : Congruent R) {α β : Type}
    {x y : m α} {f : α → m β} (h : R x y) : R (x >>= f) (y >>= f) :=
  hR.bind h fun a => hR.refl (f a)

/-- What comes before related effects does not matter. -/
theorem Congruent.later {R : ⦃α : Type⦄ → m α → m α → Prop} (hR : Congruent R) {α β : Type}
    {x : m α} {f g : α → m β} (h : ∀ a, R (f a) (g a)) : R (x >>= f) (x >>= g) :=
  hR.bind (hR.refl x) h

variable (options : Options) (insert : String → m (List Block))

/-- A pass over joined sequences is a pass over one and then over the other. -/
theorem OnePass.blocks_append [LawfulMonad m] (bs cs : List Block) :
    OnePass.blocks options insert (bs ++ cs) = (do
      let out ← OnePass.blocks options insert bs
      return out ++ (← OnePass.blocks options insert cs)) := by
  induction bs with
  | nil => simp [OnePass.blocks]
  | cons b bs ih =>
    simp only [List.cons_append, OnePass.blocks, ih, bind_assoc, pure_bind, List.append_assoc]

section Related

variable {options} {insert} {R : ⦃α : Type⦄ → m α → m α → Prop} {old new : List Block}

-- One theorem for each type of gaps.
mutual

/-- Passes over a block with a gap are related as the passes over what fills the gap. -/
theorem BlockGap.block_related [LawfulMonad m] (hR : Congruent R)
    (h : R (OnePass.blocks options insert old) (OnePass.blocks options insert new)) :
    ∀ gap : BlockGap,
      R (OnePass.block options insert (gap.plug old)) (OnePass.block options insert (gap.plug new))
  | .plain content => hR.first (content.inlines_related hR h)
  | .para content => hR.first (content.inlines_related hR h)
  | .lineBlock lines => hR.first (lines.lines_related hR h)
  | .blockQuote content => hR.first (content.blocks_related hR h)
  | .orderedList _ items => hR.first (items.items_related hR h)
  | .bulletList items => hR.first (items.items_related hR h)
  | .definitionList items => hR.first (items.definitions_related hR h)
  | .header _ _ content => hR.first (content.inlines_related hR h)
  | .tableCaption caption _ _ _ _ => hR.first (caption.inlines_related hR h)
  | .tableHeaders _ _ _ headers _ =>
    hR.later fun _ => hR.first (headers.items_related hR h)
  | .tableRows _ _ _ _ rows =>
    hR.later fun _ => hR.later fun _ => hR.first (rows.rows_related hR h)
  | .div _ content => hR.first (content.blocks_related hR h)

/-- Passes over two documents that differ in a gap are related as the passes over what fills
it. -/
theorem BlocksGap.blocks_related [LawfulMonad m] (hR : Congruent R)
    (h : R (OnePass.blocks options insert old) (OnePass.blocks options insert new)) :
    ∀ gap : BlocksGap,
      R (OnePass.blocks options insert (gap.plug old))
        (OnePass.blocks options insert (gap.plug new))
  | .here rest => by
    rw [BlocksGap.plug, BlocksGap.plug, OnePass.blocks_append, OnePass.blocks_append]
    exact hR.first h
  | .first b _ => hR.first (b.block_related hR h)
  | .later _ rest => hR.later fun _ => hR.first (rest.blocks_related hR h)

/-- So are passes over the items of a list, or the cells of a row, with a gap. -/
theorem ItemsGap.items_related [LawfulMonad m] (hR : Congruent R)
    (h : R (OnePass.blocks options insert old) (OnePass.blocks options insert new)) :
    ∀ gap : ItemsGap,
      R (OnePass.items options insert (gap.plug old)) (OnePass.items options insert (gap.plug new))
  | .first item _ => hR.first (item.blocks_related hR h)
  | .later _ rest => hR.later fun _ => hR.first (rest.items_related hR h)

/-- So are passes over the rows of a table with a gap. -/
theorem RowsGap.rows_related [LawfulMonad m] (hR : Congruent R)
    (h : R (OnePass.blocks options insert old) (OnePass.blocks options insert new)) :
    ∀ gap : RowsGap,
      R (OnePass.rows options insert (gap.plug old)) (OnePass.rows options insert (gap.plug new))
  | .first row _ => hR.first (row.items_related hR h)
  | .later _ rest => hR.later fun _ => hR.first (rest.rows_related hR h)

/-- So are passes over a definition list with a gap. -/
theorem DefinitionsGap.definitions_related [LawfulMonad m] (hR : Congruent R)
    (h : R (OnePass.blocks options insert old) (OnePass.blocks options insert new)) :
    ∀ gap : DefinitionsGap,
      R (OnePass.definitions options insert (gap.plug old))
        (OnePass.definitions options insert (gap.plug new))
  | .term term _ _ => hR.first (term.inlines_related hR h)
  | .meanings _ meanings _ => hR.later fun _ => hR.first (meanings.items_related hR h)
  | .later _ _ rest =>
    hR.later fun _ => hR.later fun _ => hR.first (rest.definitions_related hR h)

/-- So are passes over an inline with a gap. -/
theorem InlineGap.inline_related [LawfulMonad m] (hR : Congruent R)
    (h : R (OnePass.blocks options insert old) (OnePass.blocks options insert new)) :
    ∀ gap : InlineGap,
      R (OnePass.inline options insert (gap.plug old))
        (OnePass.inline options insert (gap.plug new))
  | .emph content => hR.first (content.inlines_related hR h)
  | .strong content => hR.first (content.inlines_related hR h)
  | .strikeout content => hR.first (content.inlines_related hR h)
  | .superscript content => hR.first (content.inlines_related hR h)
  | .subscript content => hR.first (content.inlines_related hR h)
  | .smallCaps content => hR.first (content.inlines_related hR h)
  | .quoted _ content => hR.first (content.inlines_related hR h)
  | .cite _ content => hR.first (content.inlines_related hR h)
  | .link _ content _ => hR.first (content.inlines_related hR h)
  | .image _ content _ => hR.first (content.inlines_related hR h)
  | .note content => hR.first (content.blocks_related hR h)
  | .span _ content => hR.first (content.inlines_related hR h)

/-- So are passes over running text with a gap. -/
theorem InlinesGap.inlines_related [LawfulMonad m] (hR : Congruent R)
    (h : R (OnePass.blocks options insert old) (OnePass.blocks options insert new)) :
    ∀ gap : InlinesGap,
      R (OnePass.inlines options insert (gap.plug old))
        (OnePass.inlines options insert (gap.plug new))
  | .first x _ => hR.first (x.inline_related hR h)
  | .later _ rest => hR.later fun _ => hR.first (rest.inlines_related hR h)

/-- So are passes over the lines of a line block with a gap. -/
theorem LinesGap.lines_related [LawfulMonad m] (hR : Congruent R)
    (h : R (OnePass.blocks options insert old) (OnePass.blocks options insert new)) :
    ∀ gap : LinesGap,
      R (OnePass.lines options insert (gap.plug old)) (OnePass.lines options insert (gap.plug new))
  | .first line _ => hR.first (line.inlines_related hR h)
  | .later _ rest => hR.later fun _ => hR.first (rest.lines_related hR h)

end

end Related

/-! ## Results with a gap -/

/-- The blocks with a gap that come after some other blocks. -/
def BlocksGap.after : List Block → BlocksGap → BlocksGap
  | [], gap => gap
  | b :: before, gap => .later b (after before gap)

/-- What comes before a gap stays where it is when the gap is filled. -/
theorem BlocksGap.plug_after (new before : List Block) (gap : BlocksGap) :
    (gap.after before).plug new = before ++ gap.plug new := by
  induction before with
  | nil => rfl
  | cons b before ih => rw [BlocksGap.after, BlocksGap.plug, ih, List.cons_append]

section Plugged

variable {options} {insert} {T : ⦃α : Type⦄ → (α → Prop) → m α → Prop}
  {slot : List Block → Prop} {old : List Block}

-- One theorem for each type of gaps.  Nothing is asserted of what is beside the gap.
mutual

/-- The result of a pass over a block with a gap is one block with a gap, which is filled with the
result of the pass over what filled the gap before. -/
theorem BlockGap.block_plugged [LawfulMonad m] (hT : Splice.Asserts T)
    (hbeside : ∀ {α : Type} (x : m α), T (fun _ => True) x)
    (h : T slot (OnePass.blocks options insert old)) :
    ∀ gap : BlockGap,
      T (fun out => ∃ (gap' : BlockGap) (new : List Block), out = [gap'.plug new] ∧ slot new)
        (OnePass.block options insert (gap.plug old))
  | .plain content =>
    hT.map (content.inlines_plugged hT hbeside h) fun _ ⟨gap', new, hout, hnew⟩ =>
      ⟨.plain gap', new, by rw [hout, BlockGap.plug], hnew⟩
  | .para content =>
    hT.map (content.inlines_plugged hT hbeside h) fun _ ⟨gap', new, hout, hnew⟩ =>
      ⟨.para gap', new, by rw [hout, BlockGap.plug], hnew⟩
  | .lineBlock lines =>
    hT.map (lines.lines_plugged hT hbeside h) fun _ ⟨gap', new, hout, hnew⟩ =>
      ⟨.lineBlock gap', new, by rw [hout, BlockGap.plug], hnew⟩
  | .blockQuote content =>
    hT.map (content.blocks_plugged hT hbeside h) fun _ ⟨gap', new, hout, hnew⟩ =>
      ⟨.blockQuote gap', new, by rw [hout, BlockGap.plug], hnew⟩
  | .orderedList numbering items =>
    hT.map (items.items_plugged hT hbeside h) fun _ ⟨gap', new, hout, hnew⟩ =>
      ⟨.orderedList numbering gap', new, by rw [hout, BlockGap.plug], hnew⟩
  | .bulletList items =>
    hT.map (items.items_plugged hT hbeside h) fun _ ⟨gap', new, hout, hnew⟩ =>
      ⟨.bulletList gap', new, by rw [hout, BlockGap.plug], hnew⟩
  | .definitionList items =>
    hT.map (items.definitions_plugged hT hbeside h) fun _ ⟨gap', new, hout, hnew⟩ =>
      ⟨.definitionList gap', new, by rw [hout, BlockGap.plug], hnew⟩
  | .header level attr content =>
    hT.map (content.inlines_plugged hT hbeside h) fun _ ⟨gap', new, hout, hnew⟩ =>
      ⟨.header level attr gap', new, by rw [hout, BlockGap.plug], hnew⟩
  | .tableCaption caption alignments widths _ _ => by
    apply hT.bind (caption.inlines_plugged hT hbeside h)
    rintro caption' ⟨gap', new, rfl, hnew⟩
    apply hT.map₂ (hbeside _) (hbeside _)
    intro headers rows _ _
    exact ⟨.tableCaption gap' alignments widths headers rows, new, by rw [BlockGap.plug], hnew⟩
  | .tableHeaders _ alignments widths headers _ => by
    apply hT.bind (hbeside _)
    intro caption _
    apply hT.map₂ (headers.items_plugged hT hbeside h) (hbeside _)
    rintro headers' rows ⟨gap', new, rfl, hnew⟩ _
    exact ⟨.tableHeaders caption alignments widths gap' rows, new, by rw [BlockGap.plug], hnew⟩
  | .tableRows _ alignments widths _ rows => by
    apply hT.bind (hbeside _)
    intro caption _
    apply hT.map₂ (hbeside _) (rows.rows_plugged hT hbeside h)
    rintro headers rows' _ ⟨gap', new, rfl, hnew⟩
    exact ⟨.tableRows caption alignments widths headers gap', new, by rw [BlockGap.plug], hnew⟩
  | .div attr content =>
    hT.map (content.blocks_plugged hT hbeside h) fun _ ⟨gap', new, hout, hnew⟩ =>
      ⟨.div attr gap', new, by rw [hout, BlockGap.plug], hnew⟩

/-- The result of a pass over blocks with a gap has a gap, which is filled with the result of the
pass over what filled the gap before. -/
theorem BlocksGap.blocks_plugged [LawfulMonad m] (hT : Splice.Asserts T)
    (hbeside : ∀ {α : Type} (x : m α), T (fun _ => True) x)
    (h : T slot (OnePass.blocks options insert old)) :
    ∀ gap : BlocksGap,
      T (fun out => ∃ (gap' : BlocksGap) (new : List Block), out = gap'.plug new ∧ slot new)
        (OnePass.blocks options insert (gap.plug old))
  | .here rest => by
    rw [BlocksGap.plug, OnePass.blocks_append]
    apply hT.map₂ h (hbeside _)
    intro new rest' hnew _
    exact ⟨.here rest', new, rfl, hnew⟩
  | .first b rest => by
    apply hT.map₂ (b.block_plugged hT hbeside h) (hbeside _)
    rintro _ rest' ⟨gap', new, rfl, hnew⟩ _
    exact ⟨.first gap' rest', new, rfl, hnew⟩
  | .later b rest => by
    apply hT.map₂ (hbeside _) (rest.blocks_plugged hT hbeside h)
    rintro before _ _ ⟨gap', new, rfl, hnew⟩
    exact ⟨gap'.after before, new, (gap'.plug_after new before).symm, hnew⟩

/-- So it is with the items of a list, or the cells of a row. -/
theorem ItemsGap.items_plugged [LawfulMonad m] (hT : Splice.Asserts T)
    (hbeside : ∀ {α : Type} (x : m α), T (fun _ => True) x)
    (h : T slot (OnePass.blocks options insert old)) :
    ∀ gap : ItemsGap,
      T (fun out => ∃ (gap' : ItemsGap) (new : List Block), out = gap'.plug new ∧ slot new)
        (OnePass.items options insert (gap.plug old))
  | .first item _ => by
    apply hT.map₂ (item.blocks_plugged hT hbeside h) (hbeside _)
    rintro _ rest' ⟨gap', new, rfl, hnew⟩ _
    exact ⟨.first gap' rest', new, rfl, hnew⟩
  | .later _ rest => by
    apply hT.map₂ (hbeside _) (rest.items_plugged hT hbeside h)
    rintro item' _ _ ⟨gap', new, rfl, hnew⟩
    exact ⟨.later item' gap', new, rfl, hnew⟩

/-- So it is with the rows of a table. -/
theorem RowsGap.rows_plugged [LawfulMonad m] (hT : Splice.Asserts T)
    (hbeside : ∀ {α : Type} (x : m α), T (fun _ => True) x)
    (h : T slot (OnePass.blocks options insert old)) :
    ∀ gap : RowsGap,
      T (fun out => ∃ (gap' : RowsGap) (new : List Block), out = gap'.plug new ∧ slot new)
        (OnePass.rows options insert (gap.plug old))
  | .first row _ => by
    apply hT.map₂ (row.items_plugged hT hbeside h) (hbeside _)
    rintro _ rest' ⟨gap', new, rfl, hnew⟩ _
    exact ⟨.first gap' rest', new, rfl, hnew⟩
  | .later _ rest => by
    apply hT.map₂ (hbeside _) (rest.rows_plugged hT hbeside h)
    rintro row' _ _ ⟨gap', new, rfl, hnew⟩
    exact ⟨.later row' gap', new, rfl, hnew⟩

/-- So it is with a definition list, be the gap in a term or in its definitions. -/
theorem DefinitionsGap.definitions_plugged [LawfulMonad m] (hT : Splice.Asserts T)
    (hbeside : ∀ {α : Type} (x : m α), T (fun _ => True) x)
    (h : T slot (OnePass.blocks options insert old)) :
    ∀ gap : DefinitionsGap,
      T (fun out => ∃ (gap' : DefinitionsGap) (new : List Block), out = gap'.plug new ∧ slot new)
        (OnePass.definitions options insert (gap.plug old))
  | .term term _ _ => by
    apply hT.bind (term.inlines_plugged hT hbeside h)
    rintro _ ⟨gap', new, rfl, hnew⟩
    apply hT.map₂ (hbeside _) (hbeside _)
    intro meanings rest _ _
    exact ⟨.term gap' meanings rest, new, rfl, hnew⟩
  | .meanings _ meanings _ => by
    apply hT.bind (hbeside _)
    intro term _
    apply hT.map₂ (meanings.items_plugged hT hbeside h) (hbeside _)
    rintro _ rest ⟨gap', new, rfl, hnew⟩ _
    exact ⟨.meanings term gap' rest, new, rfl, hnew⟩
  | .later _ _ rest => by
    apply hT.bind (hbeside _)
    intro term _
    apply hT.map₂ (hbeside _) (rest.definitions_plugged hT hbeside h)
    rintro meanings _ _ ⟨gap', new, rfl, hnew⟩
    exact ⟨.later term meanings gap', new, rfl, hnew⟩

/-- So it is with an inline, whose gap is in a note. -/
theorem InlineGap.inline_plugged [LawfulMonad m] (hT : Splice.Asserts T)
    (hbeside : ∀ {α : Type} (x : m α), T (fun _ => True) x)
    (h : T slot (OnePass.blocks options insert old)) :
    ∀ gap : InlineGap,
      T (fun out => ∃ (gap' : InlineGap) (new : List Block), out = gap'.plug new ∧ slot new)
        (OnePass.inline options insert (gap.plug old))
  | .emph content =>
    hT.map (content.inlines_plugged hT hbeside h) fun _ ⟨gap', new, hout, hnew⟩ =>
      ⟨.emph gap', new, by rw [hout, InlineGap.plug], hnew⟩
  | .strong content =>
    hT.map (content.inlines_plugged hT hbeside h) fun _ ⟨gap', new, hout, hnew⟩ =>
      ⟨.strong gap', new, by rw [hout, InlineGap.plug], hnew⟩
  | .strikeout content =>
    hT.map (content.inlines_plugged hT hbeside h) fun _ ⟨gap', new, hout, hnew⟩ =>
      ⟨.strikeout gap', new, by rw [hout, InlineGap.plug], hnew⟩
  | .superscript content =>
    hT.map (content.inlines_plugged hT hbeside h) fun _ ⟨gap', new, hout, hnew⟩ =>
      ⟨.superscript gap', new, by rw [hout, InlineGap.plug], hnew⟩
  | .subscript content =>
    hT.map (content.inlines_plugged hT hbeside h) fun _ ⟨gap', new, hout, hnew⟩ =>
      ⟨.subscript gap', new, by rw [hout, InlineGap.plug], hnew⟩
  | .smallCaps content =>
    hT.map (content.inlines_plugged hT hbeside h) fun _ ⟨gap', new, hout, hnew⟩ =>
      ⟨.smallCaps gap', new, by rw [hout, InlineGap.plug], hnew⟩
  | .quoted kind content =>
    hT.map (content.inlines_plugged hT hbeside h) fun _ ⟨gap', new, hout, hnew⟩ =>
      ⟨.quoted kind gap', new, by rw [hout, InlineGap.plug], hnew⟩
  | .cite citations content =>
    hT.map (content.inlines_plugged hT hbeside h) fun _ ⟨gap', new, hout, hnew⟩ =>
      ⟨.cite citations gap', new, by rw [hout, InlineGap.plug], hnew⟩
  | .link attr content target =>
    hT.map (content.inlines_plugged hT hbeside h) fun _ ⟨gap', new, hout, hnew⟩ =>
      ⟨.link attr gap' target, new, by rw [hout, InlineGap.plug], hnew⟩
  | .image attr content target =>
    hT.map (content.inlines_plugged hT hbeside h) fun _ ⟨gap', new, hout, hnew⟩ =>
      ⟨.image attr gap' target, new, by rw [hout, InlineGap.plug], hnew⟩
  | .note content =>
    hT.map (content.blocks_plugged hT hbeside h) fun _ ⟨gap', new, hout, hnew⟩ =>
      ⟨.note gap', new, by rw [hout, InlineGap.plug], hnew⟩
  | .span attr content =>
    hT.map (content.inlines_plugged hT hbeside h) fun _ ⟨gap', new, hout, hnew⟩ =>
      ⟨.span attr gap', new, by rw [hout, InlineGap.plug], hnew⟩

/-- So it is with running text. -/
theorem InlinesGap.inlines_plugged [LawfulMonad m] (hT : Splice.Asserts T)
    (hbeside : ∀ {α : Type} (x : m α), T (fun _ => True) x)
    (h : T slot (OnePass.blocks options insert old)) :
    ∀ gap : InlinesGap,
      T (fun out => ∃ (gap' : InlinesGap) (new : List Block), out = gap'.plug new ∧ slot new)
        (OnePass.inlines options insert (gap.plug old))
  | .first x _ => by
    apply hT.map₂ (x.inline_plugged hT hbeside h) (hbeside _)
    rintro _ rest' ⟨gap', new, rfl, hnew⟩ _
    exact ⟨.first gap' rest', new, rfl, hnew⟩
  | .later _ rest => by
    apply hT.map₂ (hbeside _) (rest.inlines_plugged hT hbeside h)
    rintro x' _ _ ⟨gap', new, rfl, hnew⟩
    exact ⟨.later x' gap', new, rfl, hnew⟩

/-- So it is with the lines of a line block. -/
theorem LinesGap.lines_plugged [LawfulMonad m] (hT : Splice.Asserts T)
    (hbeside : ∀ {α : Type} (x : m α), T (fun _ => True) x)
    (h : T slot (OnePass.blocks options insert old)) :
    ∀ gap : LinesGap,
      T (fun out => ∃ (gap' : LinesGap) (new : List Block), out = gap'.plug new ∧ slot new)
        (OnePass.lines options insert (gap.plug old))
  | .first line _ => by
    apply hT.map₂ (line.inlines_plugged hT hbeside h) (hbeside _)
    rintro _ rest' ⟨gap', new, rfl, hnew⟩ _
    exact ⟨.first gap' rest', new, rfl, hnew⟩
  | .later _ rest => by
    apply hT.map₂ (hbeside _) (rest.lines_plugged hT hbeside h)
    rintro line' _ _ ⟨gap', new, rfl, hnew⟩
    exact ⟨.later line' gap', new, rfl, hnew⟩

end

end Plugged

end Passes

end Transclude
