import Transclude.Proofs.Document.WellFormed
import Transclude.Walk.Preorder

/-!
# Widths by node

The table widths that occur among some blocks, told node by node: those of the tables that a walk
over everything lists, and those in the text around the works that its citations name.

Main results:

- Definition {lit}`Node.ownWidths`: the widths that a node holds apart from its children.
- Theorem {lit}`Block.forall_widthsList_iff`: what holds of all widths holds of those of each node.
-/

namespace Transclude

namespace Node

/-- The widths that a node holds apart from its children. -/
def ownWidths : Node → List Binary64
  | .block (.table _ _ widths _ _) => widths
  | .inline (.cite citations _) => Citation.widthsList citations
  | _ => []

/-- All widths that the nodes of a listing hold have a property. -/
def WidthsSatisfy (p : Binary64 → Prop) (nodes : List Node) : Prop :=
  ∀ node ∈ nodes, ∀ w ∈ node.ownWidths, p w

variable {p : Binary64 → Prop}

theorem widthsSatisfy_nil : WidthsSatisfy p [] := by
  simp [WidthsSatisfy]

theorem widthsSatisfy_cons {node : Node} {nodes : List Node} :
    WidthsSatisfy p (node :: nodes) ↔ (∀ w ∈ node.ownWidths, p w) ∧ WidthsSatisfy p nodes :=
  List.forall_mem_cons

/-- The widths of joined listings are those of both. -/
theorem widthsSatisfy_append {us vs : List Node} :
    WidthsSatisfy p (us ++ vs) ↔ WidthsSatisfy p us ∧ WidthsSatisfy p vs :=
  List.forall_mem_append

/-- A node that holds no widths of its own adds nothing to those of its children. -/
theorem iff_ownWidths_and {P Q : Prop} (h : P ↔ Q) :
    P ↔ (∀ w ∈ ([] : List Binary64), p w) ∧ Q := by
  simp [h]

/-- A node without children and widths of its own holds no widths. -/
theorem iff_leaf : (∀ w ∈ ([] : List Binary64), p w) ↔
    (∀ w ∈ ([] : List Binary64), p w) ∧ WidthsSatisfy p [] :=
  iff_ownWidths_and (iff_of_true (by simp) widthsSatisfy_nil)

end Node

section Widths

open Node (WidthsSatisfy iff_ownWidths_and iff_leaf widthsSatisfy_nil widthsSatisfy_cons
  widthsSatisfy_append)

variable {p : Binary64 → Prop}

mutual

/-- The widths of a block are its own and those of the nodes below it. -/
theorem Block.forall_widths_iff : ∀ b : Block, (∀ w ∈ b.widths, p w) ↔
    (∀ w ∈ (Node.block b).ownWidths, p w) ∧ WidthsSatisfy p (Block.descendants .everywhere b)
  | .plain content => iff_ownWidths_and (Inline.forall_widthsList_iff content)
  | .para content => iff_ownWidths_and (Inline.forall_widthsList_iff content)
  | .lineBlock lines => iff_ownWidths_and (Inline.forall_widthsLines_iff lines)
  | .codeBlock _ _ => iff_leaf
  | .rawBlock _ _ => iff_leaf
  | .blockQuote content => iff_ownWidths_and (Block.forall_widthsList_iff content)
  | .orderedList _ items => iff_ownWidths_and (Block.forall_widthsItems_iff items)
  | .bulletList items => iff_ownWidths_and (Block.forall_widthsItems_iff items)
  | .definitionList items => iff_ownWidths_and (Definition.forall_widthsList_iff items)
  | .header _ _ content => iff_ownWidths_and (Inline.forall_widthsList_iff content)
  | .horizontalRule => iff_leaf
  | .table caption alignments widths headers rows => by
    have hbelow : WidthsSatisfy p
        (Block.descendants .everywhere (.table caption alignments widths headers rows)) ↔
          (WidthsSatisfy p (Inline.preorder .everywhere caption) ∧
            WidthsSatisfy p (Block.preorderItems .everywhere headers)) ∧
          WidthsSatisfy p (Block.preorderRows .everywhere rows) :=
      widthsSatisfy_append.trans (and_congr_left' widthsSatisfy_append)
    rw [Block.widths, List.forall_mem_append, List.forall_mem_append, List.forall_mem_append,
      Inline.forall_widthsList_iff caption, Block.forall_widthsItems_iff headers,
      Block.forall_widthsRows_iff rows, hbelow, and_assoc]
    exact and_left_comm
  | .div _ content => iff_ownWidths_and (Block.forall_widthsList_iff content)
  | .null => iff_leaf

/-- What holds of all widths among some blocks holds of those of each node. -/
theorem Block.forall_widthsList_iff : ∀ bs : List Block,
    (∀ w ∈ Block.widthsList bs, p w) ↔ WidthsSatisfy p (Block.preorder .everywhere bs)
  | [] => iff_of_true (by simp [Block.widthsList]) widthsSatisfy_nil
  | b :: bs => by
    rw [Block.widthsList, Block.preorder, List.forall_mem_append, Block.forall_widths_iff b,
      Block.forall_widthsList_iff bs, List.cons_append, widthsSatisfy_cons, widthsSatisfy_append,
      and_assoc]

/-- The widths in the items of a list, or in the cells of a row, are those of their nodes. -/
theorem Block.forall_widthsItems_iff : ∀ items : List (List Block),
    (∀ w ∈ Block.widthsItems items, p w) ↔ WidthsSatisfy p (Block.preorderItems .everywhere items)
  | [] => iff_of_true (by simp [Block.widthsItems]) widthsSatisfy_nil
  | item :: items => by
    rw [Block.widthsItems, Block.preorderItems, List.forall_mem_append,
      Block.forall_widthsList_iff item, Block.forall_widthsItems_iff items, widthsSatisfy_append]

/-- So are the widths in the rows of a table. -/
theorem Block.forall_widthsRows_iff : ∀ rows : List (List (List Block)),
    (∀ w ∈ Block.widthsRows rows, p w) ↔ WidthsSatisfy p (Block.preorderRows .everywhere rows)
  | [] => iff_of_true (by simp [Block.widthsRows]) widthsSatisfy_nil
  | row :: rows => by
    rw [Block.widthsRows, Block.preorderRows, List.forall_mem_append,
      Block.forall_widthsItems_iff row, Block.forall_widthsRows_iff rows, widthsSatisfy_append]

/-- So are the widths in a definition list. -/
theorem Definition.forall_widthsList_iff : ∀ items : List Definition,
    (∀ w ∈ Definition.widthsList items, p w) ↔
      WidthsSatisfy p (Definition.preorder .everywhere items)
  | [] => iff_of_true (by simp [Definition.widthsList]) widthsSatisfy_nil
  | .mk term definitions :: items => by
    rw [Definition.widthsList, Definition.widths, Definition.preorder, List.forall_mem_append,
      List.forall_mem_append, Inline.forall_widthsList_iff term,
      Block.forall_widthsItems_iff definitions, Definition.forall_widthsList_iff items,
      widthsSatisfy_append, widthsSatisfy_append]
    rfl

/-- The widths in an inline are those of the nodes below it. -/
theorem Inline.forall_widths_iff : ∀ x : Inline, (∀ w ∈ x.widths, p w) ↔
    (∀ w ∈ (Node.inline x).ownWidths, p w) ∧ WidthsSatisfy p (Inline.descendants .everywhere x)
  | .str _ => iff_leaf
  | .emph content => iff_ownWidths_and (Inline.forall_widthsList_iff content)
  | .strong content => iff_ownWidths_and (Inline.forall_widthsList_iff content)
  | .strikeout content => iff_ownWidths_and (Inline.forall_widthsList_iff content)
  | .superscript content => iff_ownWidths_and (Inline.forall_widthsList_iff content)
  | .subscript content => iff_ownWidths_and (Inline.forall_widthsList_iff content)
  | .smallCaps content => iff_ownWidths_and (Inline.forall_widthsList_iff content)
  | .quoted _ content => iff_ownWidths_and (Inline.forall_widthsList_iff content)
  | .cite citations content => by
    rw [Inline.widths, List.forall_mem_append, Inline.forall_widthsList_iff content]
    rfl
  | .code _ _ => iff_leaf
  | .space => iff_leaf
  | .softBreak => iff_leaf
  | .lineBreak => iff_leaf
  | .math _ _ => iff_leaf
  | .rawInline _ _ => iff_leaf
  | .link _ content _ => iff_ownWidths_and (Inline.forall_widthsList_iff content)
  | .image _ content _ => iff_ownWidths_and (Inline.forall_widthsList_iff content)
  | .note content => iff_ownWidths_and (Block.forall_widthsList_iff content)
  | .span _ content => iff_ownWidths_and (Inline.forall_widthsList_iff content)

/-- So are the widths in running text. -/
theorem Inline.forall_widthsList_iff : ∀ xs : List Inline,
    (∀ w ∈ Inline.widthsList xs, p w) ↔ WidthsSatisfy p (Inline.preorder .everywhere xs)
  | [] => iff_of_true (by simp [Inline.widthsList]) widthsSatisfy_nil
  | x :: xs => by
    rw [Inline.widthsList, Inline.preorder, List.forall_mem_append, Inline.forall_widths_iff x,
      Inline.forall_widthsList_iff xs, List.cons_append, widthsSatisfy_cons, widthsSatisfy_append,
      and_assoc]

/-- So are the widths in the lines of a line block. -/
theorem Inline.forall_widthsLines_iff : ∀ lines : List (List Inline),
    (∀ w ∈ Inline.widthsLines lines, p w) ↔
      WidthsSatisfy p (Inline.preorderLines .everywhere lines)
  | [] => iff_of_true (by simp [Inline.widthsLines]) widthsSatisfy_nil
  | line :: lines => by
    rw [Inline.widthsLines, Inline.preorderLines, List.forall_mem_append,
      Inline.forall_widthsList_iff line, Inline.forall_widthsLines_iff lines, widthsSatisfy_append]

end

end Widths

end Transclude
