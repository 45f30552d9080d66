import Mathlib.Order.MinMax
import Transclude.Document.Basic

/-!
# Children and height

The children of a block are the blocks that an edit sees next below it: the nearest ones along the
edges that it follows.  Edges lead from blocks to the blocks in them and, if the edit crosses, also
from blocks to inlines, from inlines to inlines, and from notes to the blocks in them.

Main results:

- Definition {lit}`Block.children`: the nearest blocks below a block.
- Definition {lit}`Block.height`: how many nodes there are on the longest way down from a block.
- Theorem {lit}`Block.height_lt_of_mem_children`: a child is less high than its block.
-/

namespace Transclude

/-! ## The nearest blocks -/

mutual

/-- The nearest blocks below an inline, which are those in its notes. -/
def Inline.nearest : Inline → List Block
  | .str _ => []
  | .emph content => Inline.nearestOf content
  | .strong content => Inline.nearestOf content
  | .strikeout content => Inline.nearestOf content
  | .superscript content => Inline.nearestOf content
  | .subscript content => Inline.nearestOf content
  | .smallCaps content => Inline.nearestOf content
  | .quoted _ content => Inline.nearestOf content
  | .cite _ content => Inline.nearestOf content
  | .code _ _ => []
  | .space => []
  | .softBreak => []
  | .lineBreak => []
  | .math _ _ => []
  | .rawInline _ _ => []
  | .link _ content _ => Inline.nearestOf content
  | .image _ content _ => Inline.nearestOf content
  | .note content => content
  | .span _ content => Inline.nearestOf content

/-- The nearest blocks below some inlines. -/
def Inline.nearestOf : List Inline → List Block
  | [] => []
  | x :: xs => x.nearest ++ Inline.nearestOf xs

end

/-- The nearest blocks below a term and its definitions. -/
def Definition.children (cross : Bool) : Definition → List Block
  | .mk term definitions => (if cross then Inline.nearestOf term else []) ++ definitions.flatten

/-- The nearest blocks below a block. -/
def Block.children (cross : Bool) : Block → List Block
  | .plain content => if cross then Inline.nearestOf content else []
  | .para content => if cross then Inline.nearestOf content else []
  | .lineBlock lines => if cross then lines.flatMap Inline.nearestOf else []
  | .codeBlock _ _ => []
  | .rawBlock _ _ => []
  | .blockQuote content => content
  | .orderedList _ items => items.flatten
  | .bulletList items => items.flatten
  | .definitionList items => items.flatMap (Definition.children cross)
  | .header _ _ content => if cross then Inline.nearestOf content else []
  | .horizontalRule => []
  | .table caption _ _ headers rows =>
    (if cross then Inline.nearestOf caption else []) ++ headers.flatten ++
      rows.flatMap List.flatten
  | .div _ content => content
  | .null => []

/-! ## Height -/

mutual

/-- How many nodes there are on the longest way down from a block. -/
def Block.height (cross : Bool) : Block → Nat
  | .plain content => (if cross then Inline.heightOf cross content else 0) + 1
  | .para content => (if cross then Inline.heightOf cross content else 0) + 1
  | .lineBlock lines => (if cross then Inline.heightOfLines cross lines else 0) + 1
  | .codeBlock _ _ => 1
  | .rawBlock _ _ => 1
  | .blockQuote content => Block.heightOf cross content + 1
  | .orderedList _ items => Block.heightOfItems cross items + 1
  | .bulletList items => Block.heightOfItems cross items + 1
  | .definitionList items => Definition.heightOf cross items + 1
  | .header _ _ content => (if cross then Inline.heightOf cross content else 0) + 1
  | .horizontalRule => 1
  | .table caption _ _ headers rows =>
    max (max (if cross then Inline.heightOf cross caption else 0)
      (Block.heightOfItems cross headers)) (Block.heightOfRows cross rows) + 1
  | .div _ content => Block.heightOf cross content + 1
  | .null => 1

/-- The height of a sequence of blocks. -/
def Block.heightOf (cross : Bool) : List Block → Nat
  | [] => 0
  | b :: bs => max (b.height cross) (Block.heightOf cross bs)

/-- The height of a list of items or cells. -/
def Block.heightOfItems (cross : Bool) : List (List Block) → Nat
  | [] => 0
  | item :: items => max (Block.heightOf cross item) (Block.heightOfItems cross items)

/-- The height of a list of rows. -/
def Block.heightOfRows (cross : Bool) : List (List (List Block)) → Nat
  | [] => 0
  | row :: rows => max (Block.heightOfItems cross row) (Block.heightOfRows cross rows)

/-- The height of a definition list. -/
def Definition.heightOf (cross : Bool) : List Definition → Nat
  | [] => 0
  | .mk term definitions :: items =>
    max (max (if cross then Inline.heightOf cross term else 0)
      (Block.heightOfItems cross definitions)) (Definition.heightOf cross items)

/-- How many nodes there are on the longest way down from an inline. -/
def Inline.height (cross : Bool) : Inline → Nat
  | .str _ => 1
  | .emph content => Inline.heightOf cross content + 1
  | .strong content => Inline.heightOf cross content + 1
  | .strikeout content => Inline.heightOf cross content + 1
  | .superscript content => Inline.heightOf cross content + 1
  | .subscript content => Inline.heightOf cross content + 1
  | .smallCaps content => Inline.heightOf cross content + 1
  | .quoted _ content => Inline.heightOf cross content + 1
  | .cite _ content => Inline.heightOf cross content + 1
  | .code _ _ => 1
  | .space => 1
  | .softBreak => 1
  | .lineBreak => 1
  | .math _ _ => 1
  | .rawInline _ _ => 1
  | .link _ content _ => Inline.heightOf cross content + 1
  | .image _ content _ => Inline.heightOf cross content + 1
  | .note content => Block.heightOf cross content + 1
  | .span _ content => Inline.heightOf cross content + 1

/-- The height of a sequence of inlines. -/
def Inline.heightOf (cross : Bool) : List Inline → Nat
  | [] => 0
  | x :: xs => max (x.height cross) (Inline.heightOf cross xs)

/-- The height of a list of lines. -/
def Inline.heightOfLines (cross : Bool) : List (List Inline) → Nat
  | [] => 0
  | line :: lines => max (Inline.heightOf cross line) (Inline.heightOfLines cross lines)

end

section Height

variable {cross : Bool} {c : Block}

/-! ### Blocks in sequences -/

/-- Blocks are as high as the highest of them. -/
theorem Block.height_le_heightOf {bs : List Block} (h : c ∈ bs) :
    c.height cross ≤ Block.heightOf cross bs := by
  induction bs with
  | nil => simp at h
  | cons b bs ih =>
    rw [Block.heightOf, le_max_iff]
    rcases List.mem_cons.1 h with rfl | h
    · exact .inl (Nat.le_refl _)
    · exact .inr (ih h)

/-- So are the items of a list, or the cells of a row. -/
theorem Block.height_le_heightOfItems {items : List (List Block)} (h : c ∈ items.flatten) :
    c.height cross ≤ Block.heightOfItems cross items := by
  induction items with
  | nil => simp at h
  | cons item items ih =>
    rw [Block.heightOfItems, le_max_iff]
    exact (List.mem_append.1 h).imp Block.height_le_heightOf ih

/-- So are the rows of a table. -/
theorem Block.height_le_heightOfRows {rows : List (List (List Block))}
    (h : c ∈ rows.flatMap List.flatten) : c.height cross ≤ Block.heightOfRows cross rows := by
  induction rows with
  | nil => simp at h
  | cons row rows ih =>
    rw [List.flatMap_cons] at h
    rw [Block.heightOfRows, le_max_iff]
    exact (List.mem_append.1 h).imp Block.height_le_heightOfItems ih

/-! ### Blocks in notes -/

mutual

/-- A block that is found in an inline is less high than the inline. -/
theorem Inline.height_lt_of_mem_nearest : ∀ x : Inline, c ∈ x.nearest →
    c.height cross < x.height cross
  | .emph content, h => Nat.lt_succ_of_le (height_le_of_mem_nearestOf content h)
  | .strong content, h => Nat.lt_succ_of_le (height_le_of_mem_nearestOf content h)
  | .strikeout content, h => Nat.lt_succ_of_le (height_le_of_mem_nearestOf content h)
  | .superscript content, h => Nat.lt_succ_of_le (height_le_of_mem_nearestOf content h)
  | .subscript content, h => Nat.lt_succ_of_le (height_le_of_mem_nearestOf content h)
  | .smallCaps content, h => Nat.lt_succ_of_le (height_le_of_mem_nearestOf content h)
  | .quoted _ content, h => Nat.lt_succ_of_le (height_le_of_mem_nearestOf content h)
  | .cite _ content, h => Nat.lt_succ_of_le (height_le_of_mem_nearestOf content h)
  | .link _ content _, h => Nat.lt_succ_of_le (height_le_of_mem_nearestOf content h)
  | .image _ content _, h => Nat.lt_succ_of_le (height_le_of_mem_nearestOf content h)
  | .note _, h => Nat.lt_succ_of_le (Block.height_le_heightOf h)
  | .span _ content, h => Nat.lt_succ_of_le (height_le_of_mem_nearestOf content h)
  | .str _, h | .code _ _, h | .space, h | .softBreak, h | .lineBreak, h | .math _ _, h
  | .rawInline _ _, h => nomatch h

/-- A block in a note is no higher than the running text around the note. -/
theorem Inline.height_le_of_mem_nearestOf : ∀ xs : List Inline, c ∈ Inline.nearestOf xs →
    c.height cross ≤ Inline.heightOf cross xs
  | [], h => nomatch h
  | x :: xs, h => le_max_iff.2 <| (List.mem_append.1 h).imp
    (fun h => Nat.le_of_lt (height_lt_of_mem_nearest x h)) (height_le_of_mem_nearestOf xs)

end

/-- Nor is it higher than the lines around the note. -/
theorem Inline.height_le_heightOfLines {lines : List (List Inline)}
    (h : c ∈ lines.flatMap Inline.nearestOf) :
    c.height cross ≤ Inline.heightOfLines cross lines := by
  induction lines with
  | nil => simp at h
  | cons line lines ih =>
    rw [List.flatMap_cons] at h
    rw [Inline.heightOfLines, le_max_iff]
    exact (List.mem_append.1 h).imp (Inline.height_le_of_mem_nearestOf line) ih

/-! ### Children -/

/-- Inlines count if the edit crosses. -/
theorem height_le_ite {bs : List Block} {n : Nat}
    (hbs : c ∈ bs → c.height cross ≤ n) (h : c ∈ if cross then bs else []) :
    c.height cross ≤ if cross then n else 0 := by
  cases cross with
  | false => simp at h
  | true => exact hbs h

/-- A child of a definition list is no higher than the list. -/
theorem Definition.height_le_heightOf {items : List Definition}
    (h : c ∈ items.flatMap (Definition.children cross)) :
    c.height cross ≤ Definition.heightOf cross items := by
  induction items with
  | nil => simp at h
  | cons item items ih =>
    obtain ⟨term, definitions⟩ := item
    rw [List.flatMap_cons] at h
    rw [Definition.heightOf, le_max_iff, le_max_iff]
    refine (List.mem_append.1 h).imp (fun h => ?_) ih
    exact (List.mem_append.1 h).imp (height_le_ite (Inline.height_le_of_mem_nearestOf term))
      Block.height_le_heightOfItems

/-- A child of a block is less high than the block. -/
theorem Block.height_lt_of_mem_children {b : Block} (h : c ∈ b.children cross) :
    c.height cross < b.height cross := by
  cases b with
  | plain content | para content | header _ _ content =>
    exact Nat.lt_succ_of_le (height_le_ite (Inline.height_le_of_mem_nearestOf content) h)
  | lineBlock lines => exact Nat.lt_succ_of_le (height_le_ite Inline.height_le_heightOfLines h)
  | blockQuote content | div _ content => exact Nat.lt_succ_of_le (Block.height_le_heightOf h)
  | orderedList _ items | bulletList items =>
    exact Nat.lt_succ_of_le (Block.height_le_heightOfItems h)
  | definitionList items => exact Nat.lt_succ_of_le (Definition.height_le_heightOf h)
  | table caption _ _ headers rows =>
    refine Nat.lt_succ_of_le (le_max_iff.2 ((List.mem_append.1 h).imp (fun h => ?_)
      Block.height_le_heightOfRows))
    exact le_max_iff.2 ((List.mem_append.1 h).imp
      (height_le_ite (Inline.height_le_of_mem_nearestOf caption)) Block.height_le_heightOfItems)
  | codeBlock | rawBlock | horizontalRule | null => exact nomatch h

end Height

end Transclude
