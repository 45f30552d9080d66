import Transclude.Splice
import Transclude.Walk.Preorder

/-!
# What an edit sees

An edit asks about one block after the other.  As long as blocks that can have children are
kept and no new block is gone into, the blocks it asks about do not depend on the answers: they
are the blocks of the pre-order listing.  Two edits that answer block by block in related ways
are therefore related as wholes, whatever the effects of the two may be.

Main results:

- Definition {lit}`Splice.VisitClosed`: relations between effects, indexed by the blocks asked
  about, that are closed under sequencing and under asking.
- Theorem {lit}`Splice.blockContent_related`: such a relation holds between two edits of the
  same blocks, at the blocks of their pre-order listing.
- Theorem {lit}`Splice.blockContent_keep`: an edit that keeps every block changes nothing.
-/

namespace Transclude

/-- Whether a block is of a kind that has no children. -/
def Block.isLeaf : Block → Bool
  | .codeBlock _ _ => true
  | .rawBlock _ _ => true
  | .horizontalRule => true
  | .null => true
  | _ => false

/-- The answers after which the blocks still to be seen are the same: a block is kept, or a
block without children makes way for blocks that are not gone into. -/
inductive Edit.Suits : Block → Edit → Prop where
  | keep (b : Block) : Suits b .keep
  | replace (b : Block) (new : List Block) (h : b.isLeaf = true) : Suits b (.replace new)

/-! ## The blocks of a listing -/

/-- The blocks among some blocks and below them, in pre-order. -/
def Block.visits (cross : Bool) (bs : List Block) : List Block :=
  (Block.preorder ⟨cross, true⟩ bs).filterMap Node.block?

namespace Splice

/-- The blocks of a listing. -/
abbrev visitsOf (nodes : List Node) : List Block :=
  nodes.filterMap Node.block?

/-- There is nothing below a block without children. -/
theorem descendants_of_isLeaf {crossing : Crossing} {b : Block} (h : b.isLeaf = true) :
    Block.descendants crossing b = [] := by
  cases b with
  | codeBlock | rawBlock | horizontalRule | null => simp [Block.descendants]
  | _ => simp [Block.isLeaf] at h

/-- A sequence of blocks is its first block, what is below that one, and the rest. -/
theorem visits_cons (cross : Bool) (b : Block) (bs : List Block) :
    Block.visits cross (b :: bs) =
      b :: (visitsOf (Block.descendants ⟨cross, true⟩ b) ++ Block.visits cross bs) := by
  simp [Block.visits, Block.preorder, Node.block?]

/-! ## Related edits -/

variable {m n : Type → Type} [Monad m] [Monad n]

/-- A relation between effects, indexed by the blocks that both ask about, is closed under doing
nothing, under doing one thing after the other, and under asking about a block when every
suitable answer to it leads to related effects. -/
structure VisitClosed (R : ⦃α : Type⦄ → List Block → m α → n α → Prop)
    (edit : Block → m Edit) (edit' : Block → n Edit) : Prop where
  pure : ∀ {α : Type} (a : α), R [] (pure a) (pure a)
  bind : ∀ {α β : Type} {us vs : List Block} {x : m α} {y : n α} {f : α → m β} {g : α → n β},
    R us x y → (∀ a, R vs (f a) (g a)) → R (us ++ vs) (x >>= f) (y >>= g)
  ask : ∀ {β : Type} (b : Block) {vs : List Block} {f : Edit → m β} {g : Edit → n β},
    (∀ answer, Edit.Suits b answer → R vs (f answer) (g answer)) →
    R (b :: vs) (edit b >>= f) (edit' b >>= g)

namespace VisitClosed

variable {R : ⦃α : Type⦄ → List Block → m α → n α → Prop} {edit : Block → m Edit}
  {edit' : Block → n Edit}

/-- Related effects stay related when the same is made of their results. -/
theorem map (hR : VisitClosed R edit edit') {α β : Type} {us : List Block} {x : m α} {y : n α}
    (k : α → β) (h : R us x y) :
    R us (x >>= fun a => Pure.pure (k a)) (y >>= fun a => Pure.pure (k a)) := by
  have hstep := hR.bind h fun a => hR.pure (k a)
  rwa [List.append_nil] at hstep

/-- Related effects one after the other, of whose results the same is made. -/
theorem map₂ (hR : VisitClosed R edit edit') {α β γ : Type} {us vs : List Block} {x : m α}
    {y : n α} {x' : m β} {y' : n β} (k : α → β → γ) (h : R us x y) (h' : R vs x' y') :
    R (us ++ vs) (x >>= fun a => x' >>= fun b => Pure.pure (k a b))
      (y >>= fun a => y' >>= fun b => Pure.pure (k a b)) :=
  hR.bind h fun a => hR.map (k a) h'

end VisitClosed

section Related

variable {R : ⦃α : Type⦄ → List Block → m α → n α → Prop} {edit : Block → m Edit}
  {edit' : Block → n Edit} (below : Block → m Block) (below' : Block → n Block)

-- One theorem for each function of the edit, by recursion over the tree.  Every case says in
-- which order the parts are seen, and that the listing has them in the same order.
mutual

/-- Edits of the children of a block are related by the blocks below it. -/
theorem blockChildren_related (hR : VisitClosed R edit edit') (cross : Bool) : ∀ b : Block,
    R (visitsOf (Block.descendants ⟨cross, true⟩ b)) (blockChildren below cross edit b)
      (blockChildren below' cross edit' b)
  | .plain content => hR.map Block.plain (inlineContent_related hR cross content)
  | .para content => hR.map Block.para (inlineContent_related hR cross content)
  | .lineBlock lines => hR.map Block.lineBlock (lineContents_related hR cross lines)
  | .codeBlock attr text => hR.pure (Block.codeBlock attr text)
  | .rawBlock format text => hR.pure (Block.rawBlock format text)
  | .blockQuote content => hR.map Block.blockQuote (blockContent_related hR cross content)
  | .orderedList numbering items =>
    hR.map (Block.orderedList numbering) (itemContents_related hR cross items)
  | .bulletList items => hR.map Block.bulletList (itemContents_related hR cross items)
  | .definitionList items => hR.map Block.definitionList (definitionContents_related hR cross items)
  | .header level attr content =>
    hR.map (Block.header level attr) (inlineContent_related hR cross content)
  | .horizontalRule => hR.pure Block.horizontalRule
  | .table caption alignments widths headers rows => by
    rw [Block.descendants, visitsOf, List.filterMap_append, List.filterMap_append,
      List.append_assoc]
    apply hR.bind (inlineContent_related hR cross caption)
    intro caption
    exact hR.map₂ (fun headers rows => Block.table caption alignments widths headers rows)
      (itemContents_related hR cross headers) (rowContents_related hR cross rows)
  | .div attr content => hR.map (Block.div attr) (blockContent_related hR cross content)
  | .null => hR.pure Block.null

/-- Two edits of the same blocks are related by the blocks that a walk visits. -/
theorem blockContent_related (hR : VisitClosed R edit edit') (cross : Bool) : ∀ bs : List Block,
    R (Block.visits cross bs) (blockContent below cross edit bs)
      (blockContent below' cross edit' bs)
  | [] => hR.pure []
  | b :: bs => by
    rw [visits_cons]
    apply hR.ask b
    intro answer hanswer
    cases hanswer with
    | keep =>
      exact hR.map₂ (fun b bs => b :: bs) (blockChildren_related hR cross b)
        (blockContent_related hR cross bs)
    | replace new hleaf =>
      rw [descendants_of_isLeaf hleaf]
      exact hR.map (fun bs => new ++ bs) (blockContent_related hR cross bs)

/-- So are edits of the items of a list, or of the cells of a row. -/
theorem itemContents_related (hR : VisitClosed R edit edit') (cross : Bool) :
    ∀ items : List (List Block),
    R (visitsOf (Block.preorderItems ⟨cross, true⟩ items)) (itemContents below cross edit items)
      (itemContents below' cross edit' items)
  | [] => hR.pure []
  | item :: items => by
    rw [Block.preorderItems, visitsOf, List.filterMap_append]
    exact hR.map₂ (fun item items => item :: items) (blockContent_related hR cross item)
      (itemContents_related hR cross items)

/-- So are edits of the rows of a table. -/
theorem rowContents_related (hR : VisitClosed R edit edit') (cross : Bool) :
    ∀ rows : List (List (List Block)),
    R (visitsOf (Block.preorderRows ⟨cross, true⟩ rows)) (rowContents below cross edit rows)
      (rowContents below' cross edit' rows)
  | [] => hR.pure []
  | row :: rows => by
    rw [Block.preorderRows, visitsOf, List.filterMap_append]
    exact hR.map₂ (fun row rows => row :: rows) (itemContents_related hR cross row)
      (rowContents_related hR cross rows)

/-- So are edits of a definition list. -/
theorem definitionContents_related (hR : VisitClosed R edit edit') (cross : Bool) :
    ∀ items : List Definition,
    R (visitsOf (Definition.preorder ⟨cross, true⟩ items))
      (definitionContents below cross edit items) (definitionContents below' cross edit' items)
  | [] => hR.pure []
  | .mk term definitions :: items => by
    rw [Definition.preorder, visitsOf, List.filterMap_append, List.filterMap_append,
      List.append_assoc]
    apply hR.bind (inlineContent_related hR cross term)
    intro term
    exact hR.map₂ (fun definitions items => Definition.mk term definitions :: items)
      (itemContents_related hR cross definitions) (definitionContents_related hR cross items)

/-- Edits that cross into inlines are related by the blocks below an inline. -/
theorem inlineChildren_related (hR : VisitClosed R edit edit') : ∀ x : Inline,
    R (visitsOf (Inline.descendants ⟨true, true⟩ x)) (inlineChildren below true edit x)
      (inlineChildren below' true edit' x)
  | .str text => hR.pure (Inline.str text)
  | .emph content => hR.map Inline.emph (inlineContent_related hR true content)
  | .strong content => hR.map Inline.strong (inlineContent_related hR true content)
  | .strikeout content => hR.map Inline.strikeout (inlineContent_related hR true content)
  | .superscript content => hR.map Inline.superscript (inlineContent_related hR true content)
  | .subscript content => hR.map Inline.subscript (inlineContent_related hR true content)
  | .smallCaps content => hR.map Inline.smallCaps (inlineContent_related hR true content)
  | .quoted kind content => hR.map (Inline.quoted kind) (inlineContent_related hR true content)
  | .cite citations content =>
    hR.map (Inline.cite citations) (inlineContent_related hR true content)
  | .code attr text => hR.pure (Inline.code attr text)
  | .space => hR.pure Inline.space
  | .softBreak => hR.pure Inline.softBreak
  | .lineBreak => hR.pure Inline.lineBreak
  | .math kind text => hR.pure (Inline.math kind text)
  | .rawInline format text => hR.pure (Inline.rawInline format text)
  | .link attr content target =>
    hR.map (fun content => Inline.link attr content target) (inlineContent_related hR true content)
  | .image attr content target =>
    hR.map (fun content => Inline.image attr content target) (inlineContent_related hR true content)
  | .note content => hR.map Inline.note (blockContent_related hR true content)
  | .span attr content => hR.map (Inline.span attr) (inlineContent_related hR true content)

/-- So they are by the blocks in running text; without crossing there are none. -/
theorem inlineContent_related (hR : VisitClosed R edit edit') : ∀ (cross : Bool)
    (xs : List Inline), R (visitsOf (if cross then Inline.preorder ⟨cross, true⟩ xs else []))
      (inlineContent below cross edit xs) (inlineContent below' cross edit' xs)
  | true, [] => hR.pure []
  | false, [] => hR.pure []
  | false, x :: xs => hR.pure (x :: xs)
  | true, x :: xs => by
    rw [if_pos rfl, Inline.preorder, visitsOf, List.cons_append, List.filterMap_cons,
      List.filterMap_append]
    exact hR.map₂ (fun x xs => x :: xs) (inlineChildren_related hR x)
      (inlineContent_related hR true xs)

/-- So they are by the blocks in the lines of a line block. -/
theorem lineContents_related (hR : VisitClosed R edit edit') : ∀ (cross : Bool)
    (lines : List (List Inline)),
    R (visitsOf (if cross then Inline.preorderLines ⟨cross, true⟩ lines else []))
      (lineContents below cross edit lines) (lineContents below' cross edit' lines)
  | true, [] => hR.pure []
  | false, [] => hR.pure []
  | true, line :: lines => by
    rw [if_pos rfl, Inline.preorderLines, visitsOf, List.filterMap_append]
    exact hR.map₂ (fun line lines => line :: lines) (inlineContent_related hR true line)
      (lineContents_related hR true lines)
  | false, line :: lines =>
    hR.map₂ (fun line lines => line :: lines) (inlineContent_related hR false line)
      (lineContents_related hR false lines)

end

end Related

/-! ## Keeping every block -/

section Keep

variable [LawfulMonad m] (below : Block → m Block)

mutual

/-- An edit that keeps every block changes nothing below a block. -/
theorem blockChildren_keep (cross : Bool) : ∀ b : Block,
    blockChildren below cross (fun _ => pure .keep) b = pure b
  | .plain content => by simp [blockChildren, inlineContent_keep cross content]
  | .para content => by simp [blockChildren, inlineContent_keep cross content]
  | .lineBlock lines => by simp [blockChildren, lineContents_keep cross lines]
  | .codeBlock _ _ => rfl
  | .rawBlock _ _ => rfl
  | .blockQuote content => by simp [blockChildren, blockContent_keep cross content]
  | .orderedList _ items => by simp [blockChildren, itemContents_keep cross items]
  | .bulletList items => by simp [blockChildren, itemContents_keep cross items]
  | .definitionList items => by simp [blockChildren, definitionContents_keep cross items]
  | .header _ _ content => by simp [blockChildren, inlineContent_keep cross content]
  | .horizontalRule => rfl
  | .table caption _ _ headers rows => by
    simp [blockChildren, inlineContent_keep cross caption, itemContents_keep cross headers,
      rowContents_keep cross rows]
  | .div _ content => by simp [blockChildren, blockContent_keep cross content]
  | .null => rfl

/-- An edit that keeps every block changes nothing. -/
theorem blockContent_keep (cross : Bool) : ∀ bs : List Block,
    blockContent below cross (fun _ => pure .keep) bs = pure bs
  | [] => rfl
  | b :: bs => by simp [blockContent, blockChildren_keep cross b, blockContent_keep cross bs]

/-- Nor does it change the items of a list, or the cells of a row. -/
theorem itemContents_keep (cross : Bool) : ∀ items : List (List Block),
    itemContents below cross (fun _ => pure .keep) items = pure items
  | [] => rfl
  | item :: items => by
    simp [itemContents, blockContent_keep cross item, itemContents_keep cross items]

/-- Nor the rows of a table. -/
theorem rowContents_keep (cross : Bool) : ∀ rows : List (List (List Block)),
    rowContents below cross (fun _ => pure .keep) rows = pure rows
  | [] => rfl
  | row :: rows => by simp [rowContents, itemContents_keep cross row, rowContents_keep cross rows]

/-- Nor a definition list. -/
theorem definitionContents_keep (cross : Bool) : ∀ items : List Definition,
    definitionContents below cross (fun _ => pure .keep) items = pure items
  | [] => rfl
  | .mk term definitions :: items => by
    simp [definitionContents, inlineContent_keep cross term, itemContents_keep cross definitions,
      definitionContents_keep cross items]

/-- Nor what is below an inline. -/
theorem inlineChildren_keep (cross : Bool) : ∀ x : Inline,
    inlineChildren below cross (fun _ => pure .keep) x = pure x
  | .str _ => rfl
  | .emph content => by simp [inlineChildren, inlineContent_keep cross content]
  | .strong content => by simp [inlineChildren, inlineContent_keep cross content]
  | .strikeout content => by simp [inlineChildren, inlineContent_keep cross content]
  | .superscript content => by simp [inlineChildren, inlineContent_keep cross content]
  | .subscript content => by simp [inlineChildren, inlineContent_keep cross content]
  | .smallCaps content => by simp [inlineChildren, inlineContent_keep cross content]
  | .quoted _ content => by simp [inlineChildren, inlineContent_keep cross content]
  | .cite _ content => by simp [inlineChildren, inlineContent_keep cross content]
  | .code _ _ => rfl
  | .space => rfl
  | .softBreak => rfl
  | .lineBreak => rfl
  | .math _ _ => rfl
  | .rawInline _ _ => rfl
  | .link _ content _ => by simp [inlineChildren, inlineContent_keep cross content]
  | .image _ content _ => by simp [inlineChildren, inlineContent_keep cross content]
  | .note content => by simp [inlineChildren, blockContent_keep cross content]
  | .span _ content => by simp [inlineChildren, inlineContent_keep cross content]

/-- Nor running text. -/
theorem inlineContent_keep (cross : Bool) : ∀ xs : List Inline,
    inlineContent below cross (fun _ => pure .keep) xs = pure xs
  | [] => rfl
  | x :: xs => by
    rw [inlineContent]
    split
    · simp [inlineChildren_keep cross x, inlineContent_keep cross xs]
    · rfl

/-- Nor the lines of a line block. -/
theorem lineContents_keep (cross : Bool) : ∀ lines : List (List Inline),
    lineContents below cross (fun _ => pure .keep) lines = pure lines
  | [] => rfl
  | line :: lines => by
    simp [lineContents, inlineContent_keep cross line, lineContents_keep cross lines]

end

end Keep

end Splice

end Transclude
