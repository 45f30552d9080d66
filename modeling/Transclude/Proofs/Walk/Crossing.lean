import Mathlib.Data.List.Basic
import Transclude.Proofs.Splice.Visits
import Transclude.Proofs.Walk.Calls

/-!
# Walks that cross and walks that do not

A walk over blocks that does not cross into inlines passes over what blocks hold; a walk over
inlines that does not cross into blocks passes over what notes hold.  Where a listing is compared
with the listing that crosses, a relation between the two holds if it is kept when listings are put
together and holds of the parts that only one of them has.

Main results:

- Theorem {lit}`Walk.preorder_related`: what relates the listing of blocks to the one that crosses.
- Theorem {lit}`Walk.inlinePreorder_related`: the same for the listing of inlines.
- Definition {lit}`Block.bareList`: blocks without the inlines that they hold.
- Theorem {lit}`Walk.walks_by_crossing`: how the walks of a document relate.
-/

namespace Transclude

/-- What a note holds, if an inline is one. -/
def Inline.note? : Inline → Option (List Block)
  | .note content => some content
  | _ => none

namespace Walk

open Splice (visitsOf)

/-! ## Relations between listings -/

/-- A relation between listings that is kept when they are put together. -/
structure Joins (R : List Node → List Node → Prop) : Prop where
  nil : R [] []
  append : ∀ {u v u' v' : List Node}, R u v → R u' v' → R (u ++ u') (v ++ v')

/-- A relation between listings that holds where only one of them goes into inlines. -/
structure SkipsInlines (R : List Node → List Node → Prop) : Prop extends Joins R where
  block : ∀ b, R [.block b] [.block b]
  content : ∀ xs, R [] (Inline.preorder .everywhere xs)

/-- A relation between listings that holds where only one of them goes into notes. -/
structure SkipsNotes (R : List Node → List Node → Prop) : Prop extends Joins R where
  other : ∀ x : Inline, x.note? = none → R [.inline x] [.inline x]
  note : ∀ content,
    R [.inline (.note content)] (.inline (.note content) :: Block.preorder .everywhere content)

section Related

variable {R : List Node → List Node → Prop}

/-- Where inlines are skipped, so are the lines of a line block. -/
theorem SkipsInlines.lines (hR : SkipsInlines R) (lines : List (List Inline)) :
    R [] (Inline.preorderLines .everywhere lines) := by
  induction lines with
  | nil => exact hR.nil
  | cons line lines ih => exact hR.append (hR.content line) ih

mutual

/-- What relates the listing below a block that does not cross into inlines to the one that does. -/
theorem descendants_related (hR : SkipsInlines R) : ∀ b : Block,
    R (Block.descendants ⟨false, true⟩ b) (Block.descendants .everywhere b)
  | .plain content => hR.content content
  | .para content => hR.content content
  | .lineBlock lines => hR.lines lines
  | .codeBlock _ _ => hR.nil
  | .rawBlock _ _ => hR.nil
  | .blockQuote content => preorder_related hR content
  | .orderedList _ items => preorderItems_related hR items
  | .bulletList items => preorderItems_related hR items
  | .definitionList items => preorderDefinitions_related hR items
  | .header _ _ content => hR.content content
  | .horizontalRule => hR.nil
  | .table caption _ _ headers rows =>
    hR.append (hR.append (hR.content caption) (preorderItems_related hR headers))
      (preorderRows_related hR rows)
  | .div _ content => preorder_related hR content
  | .null => hR.nil

/-- What relates the listing of blocks that does not cross into inlines to the one that does. -/
theorem preorder_related (hR : SkipsInlines R) : ∀ bs : List Block,
    R (Block.preorder ⟨false, true⟩ bs) (Block.preorder .everywhere bs)
  | [] => hR.nil
  | b :: bs =>
    hR.append (hR.append (hR.block b) (descendants_related hR b)) (preorder_related hR bs)

/-- So it is with the items of a list, or the cells of a row. -/
theorem preorderItems_related (hR : SkipsInlines R) : ∀ items : List (List Block),
    R (Block.preorderItems ⟨false, true⟩ items) (Block.preorderItems .everywhere items)
  | [] => hR.nil
  | item :: items => hR.append (preorder_related hR item) (preorderItems_related hR items)

/-- So it is with the rows of a table. -/
theorem preorderRows_related (hR : SkipsInlines R) : ∀ rows : List (List (List Block)),
    R (Block.preorderRows ⟨false, true⟩ rows) (Block.preorderRows .everywhere rows)
  | [] => hR.nil
  | row :: rows => hR.append (preorderItems_related hR row) (preorderRows_related hR rows)

/-- So it is with a definition list, whose terms are skipped. -/
theorem preorderDefinitions_related (hR : SkipsInlines R) : ∀ items : List Definition,
    R (Definition.preorder ⟨false, true⟩ items) (Definition.preorder .everywhere items)
  | [] => hR.nil
  | .mk term definitions :: items =>
    hR.append (hR.append (hR.content term) (preorderItems_related hR definitions))
      (preorderDefinitions_related hR items)

end

mutual

/-- What relates the listing of an inline that does not cross into notes to the one that does. -/
theorem inlineNode_related (hR : SkipsNotes R) : ∀ x : Inline,
    R (.inline x :: Inline.descendants ⟨true, false⟩ x)
      (.inline x :: Inline.descendants .everywhere x)
  | .str text => hR.other (.str text) rfl
  | .emph content => hR.append (hR.other (.emph content) rfl) (inlinePreorder_related hR content)
  | .strong content =>
    hR.append (hR.other (.strong content) rfl) (inlinePreorder_related hR content)
  | .strikeout content =>
    hR.append (hR.other (.strikeout content) rfl) (inlinePreorder_related hR content)
  | .superscript content =>
    hR.append (hR.other (.superscript content) rfl) (inlinePreorder_related hR content)
  | .subscript content =>
    hR.append (hR.other (.subscript content) rfl) (inlinePreorder_related hR content)
  | .smallCaps content =>
    hR.append (hR.other (.smallCaps content) rfl) (inlinePreorder_related hR content)
  | .quoted kind content =>
    hR.append (hR.other (.quoted kind content) rfl) (inlinePreorder_related hR content)
  | .cite citations content =>
    hR.append (hR.other (.cite citations content) rfl) (inlinePreorder_related hR content)
  | .code attr text => hR.other (.code attr text) rfl
  | .space => hR.other .space rfl
  | .softBreak => hR.other .softBreak rfl
  | .lineBreak => hR.other .lineBreak rfl
  | .math kind text => hR.other (.math kind text) rfl
  | .rawInline format text => hR.other (.rawInline format text) rfl
  | .link attr content target =>
    hR.append (hR.other (.link attr content target) rfl) (inlinePreorder_related hR content)
  | .image attr content target =>
    hR.append (hR.other (.image attr content target) rfl) (inlinePreorder_related hR content)
  | .note content => hR.note content
  | .span attr content =>
    hR.append (hR.other (.span attr content) rfl) (inlinePreorder_related hR content)

/-- What relates the listing of inlines that does not cross into blocks to the one that does. -/
theorem inlinePreorder_related (hR : SkipsNotes R) : ∀ xs : List Inline,
    R (Inline.preorder ⟨true, false⟩ xs) (Inline.preorder .everywhere xs)
  | [] => hR.nil
  | x :: xs => hR.append (inlineNode_related hR x) (inlinePreorder_related hR xs)

end

end Related

/-! ## Sublists -/

/-- A listing that does not go into notes has nodes of the one that does, in their order. -/
theorem skipsNotes_sublist : SkipsNotes fun u v => u.Sublist v where
  nil := .slnil
  append h h' := h.append h'
  other _ _ := .refl _
  note _ := (List.nil_sublist _).cons_cons _

/-! ## Notes without content -/

/-- Every note of a listing is empty. -/
def NotesEmpty (nodes : List Node) : Prop :=
  ∀ content, .inline (.note content) ∈ nodes → content = []

/-- The notes of joined listings are empty exactly if those of both are. -/
theorem notesEmpty_append {u v : List Node} :
    NotesEmpty (u ++ v) ↔ NotesEmpty u ∧ NotesEmpty v := by
  constructor
  · exact fun h => ⟨fun content hmem => h content (List.mem_append_left v hmem),
      fun content hmem => h content (List.mem_append_right u hmem)⟩
  · rintro ⟨hu, hv⟩ content hmem
    exact (List.mem_append.1 hmem).elim (hu content) (hv content)

theorem notesEmpty_nil : NotesEmpty [] := by
  simp [NotesEmpty]

/-- A walk finds a block among some blocks unless there are none. -/
theorem visits_eq_nil_iff {cross : Bool} {bs : List Block} :
    Block.visits cross bs = [] ↔ bs = [] := by
  cases bs with
  | nil => exact iff_of_true rfl rfl
  | cons b bs => simp [Splice.visits_cons]

/-- No block is found among inlines exactly if all notes are empty. -/
theorem skipsNotes_notesEmpty : SkipsNotes fun _ v => visitsOf v = [] ↔ NotesEmpty v where
  nil := iff_of_true rfl notesEmpty_nil
  append h h' := by
    rw [visitsOf, List.filterMap_append, List.append_eq_nil_iff, notesEmpty_append]
    exact and_congr h h'
  other x hx := by
    refine iff_of_true rfl fun content hmem => ?_
    cases List.mem_singleton.1 hmem
    cases hx
  note content := by
    constructor
    · intro h content' hmem
      have hcontent : content = [] := visits_eq_nil_iff.1 h
      rw [hcontent] at hmem
      cases List.mem_singleton.1 hmem
      rfl
    · exact fun h => visits_eq_nil_iff.2 (h content List.mem_cons_self)

/-- Two lists put together are two longer ones put together only if each is the longer one. -/
theorem append_eq_append_iff_of_sublist {α : Type} {a b c d : List α} (h : a.Sublist c)
    (h' : b.Sublist d) : a ++ b = c ++ d ↔ a = c ∧ b = d := by
  constructor
  · intro heq
    have hlength := congrArg List.length heq
    rw [List.length_append, List.length_append] at hlength
    have hle := h.length_le
    have hle' := h'.length_le
    exact ⟨h.eq_of_length (by omega), h'.eq_of_length (by omega)⟩
  · rintro ⟨rfl, rfl⟩
    rfl

/-- No block is missed exactly if all notes are empty. -/
theorem skipsInlines_notesEmpty : SkipsInlines fun u v =>
    (visitsOf u).Sublist (visitsOf v) ∧ (visitsOf u = visitsOf v ↔ NotesEmpty v) where
  nil := ⟨.slnil, iff_of_true rfl notesEmpty_nil⟩
  append h h' := by
    rw [visitsOf, visitsOf, List.filterMap_append, List.filterMap_append,
      append_eq_append_iff_of_sublist h.1 h'.1, notesEmpty_append]
    exact ⟨h.1.append h'.1, and_congr h.2 h'.2⟩
  block b := by
    refine ⟨.refl _, iff_of_true rfl fun content hmem => ?_⟩
    cases List.mem_singleton.1 hmem
  content xs := by
    refine ⟨List.nil_sublist _, ?_⟩
    rw [← inlinePreorder_related skipsNotes_notesEmpty xs]
    exact eq_comm

/-! ## Blocks in notes -/

/-- The contents of the notes of a listing. -/
def notesOf (nodes : List Node) : List (List Block) :=
  (nodes.filterMap Node.inline?).filterMap Inline.note?

/-- The blocks found among inlines are those found in the notes, note by note. -/
theorem skipsNotes_visits :
    SkipsNotes fun u v => visitsOf v = (notesOf u).flatMap (Block.visits true) where
  nil := rfl
  append h h' := by
    rw [visitsOf, List.filterMap_append, notesOf, List.filterMap_append, List.filterMap_append,
      List.flatMap_append]
    exact congrArg₂ (· ++ ·) h h'
  other x hx := by
    have hnotes : notesOf [.inline x] = [] := by simp [notesOf, Node.inline?, hx]
    rw [hnotes]
    rfl
  note content := by
    have hnotes : notesOf [.inline (.note content)] = [content] := rfl
    rw [hnotes, List.flatMap_singleton]
    rfl

/-! ## Blocks without what they hold -/

end Walk

mutual

/-- A block without the inlines that it and the blocks below it hold. -/
def Block.bare : Block → Block
  | .plain _ => .plain []
  | .para _ => .para []
  | .lineBlock _ => .lineBlock []
  | .codeBlock attr text => .codeBlock attr text
  | .rawBlock format text => .rawBlock format text
  | .blockQuote content => .blockQuote (Block.bareList content)
  | .orderedList numbering items => .orderedList numbering (Block.bareItems items)
  | .bulletList items => .bulletList (Block.bareItems items)
  | .definitionList items => .definitionList (Definition.bareList items)
  | .header level attr _ => .header level attr []
  | .horizontalRule => .horizontalRule
  | .table _ alignments widths headers rows =>
    .table [] alignments widths (Block.bareItems headers) (Block.bareRows rows)
  | .div attr content => .div attr (Block.bareList content)
  | .null => .null

/-- Blocks without the inlines that they hold. -/
def Block.bareList : List Block → List Block
  | [] => []
  | b :: bs => Block.bare b :: Block.bareList bs

/-- Items or cells without the inlines that their blocks hold. -/
def Block.bareItems : List (List Block) → List (List Block)
  | [] => []
  | item :: items => Block.bareList item :: Block.bareItems items

/-- Rows without the inlines that the blocks of their cells hold. -/
def Block.bareRows : List (List (List Block)) → List (List (List Block))
  | [] => []
  | row :: rows => Block.bareItems row :: Block.bareRows rows

/-- A definition list without its terms and without the inlines that its blocks hold. -/
def Definition.bareList : List Definition → List Definition
  | [] => []
  | .mk _ definitions :: items => .mk [] (Block.bareItems definitions) :: Definition.bareList items

end

/-- A block is of the same kind without the inlines that it holds. -/
theorem Block.tag_bare (b : Block) : b.bare.tag = b.tag := by
  cases b <;> rfl

namespace Walk

open Splice (visitsOf)

mutual

/-- Without crossing, a walk below a block without its inlines finds the blocks below the whole
block, without their inlines. -/
theorem visits_descendants_bare : ∀ b : Block,
    visitsOf (Block.descendants ⟨false, true⟩ b.bare) =
      (visitsOf (Block.descendants ⟨false, true⟩ b)).map Block.bare
  | .plain _ => rfl
  | .para _ => rfl
  | .lineBlock _ => rfl
  | .codeBlock _ _ => rfl
  | .rawBlock _ _ => rfl
  | .blockQuote content => visits_bareList content
  | .orderedList _ items => visits_bareItems items
  | .bulletList items => visits_bareItems items
  | .definitionList items => visits_bareDefinitions items
  | .header _ _ _ => rfl
  | .horizontalRule => rfl
  | .table _ _ _ headers rows => by
    simp only [Block.bare, Block.descendants, visitsOf, List.filterMap_append, List.map_append]
    exact congrArg₂ (· ++ ·) (congrArg₂ (· ++ ·) rfl (visits_bareItems headers))
      (visits_bareRows rows)
  | .div _ content => visits_bareList content
  | .null => rfl

/-- Without crossing, a walk over blocks without their inlines finds the blocks of the walk over
the whole blocks, without their inlines. -/
theorem visits_bareList : ∀ bs : List Block,
    Block.visits false (Block.bareList bs) = (Block.visits false bs).map Block.bare
  | [] => rfl
  | b :: bs => by
    rw [Block.bareList, Splice.visits_cons, Splice.visits_cons, visits_descendants_bare b,
      visits_bareList bs, List.map_cons, List.map_append]

/-- The same holds for the items of a list, or the cells of a row. -/
theorem visits_bareItems : ∀ items : List (List Block),
    visitsOf (Block.preorderItems ⟨false, true⟩ (Block.bareItems items)) =
      (visitsOf (Block.preorderItems ⟨false, true⟩ items)).map Block.bare
  | [] => rfl
  | item :: items => by
    simp only [Block.bareItems, Block.preorderItems, visitsOf, List.filterMap_append,
      List.map_append]
    exact congrArg₂ (· ++ ·) (visits_bareList item) (visits_bareItems items)

/-- The same holds for the rows of a table. -/
theorem visits_bareRows : ∀ rows : List (List (List Block)),
    visitsOf (Block.preorderRows ⟨false, true⟩ (Block.bareRows rows)) =
      (visitsOf (Block.preorderRows ⟨false, true⟩ rows)).map Block.bare
  | [] => rfl
  | row :: rows => by
    simp only [Block.bareRows, Block.preorderRows, visitsOf, List.filterMap_append,
      List.map_append]
    exact congrArg₂ (· ++ ·) (visits_bareItems row) (visits_bareRows rows)

/-- The same holds for a definition list, whose terms hold no blocks that are found. -/
theorem visits_bareDefinitions : ∀ items : List Definition,
    visitsOf (Definition.preorder ⟨false, true⟩ (Definition.bareList items)) =
      (visitsOf (Definition.preorder ⟨false, true⟩ items)).map Block.bare
  | [] => rfl
  | .mk _ definitions :: items => by
    simp only [Definition.bareList, Definition.preorder, visitsOf, List.filterMap_append,
      List.map_append]
    exact congrArg₂ (· ++ ·) (congrArg₂ (· ++ ·) rfl (visits_bareItems definitions))
      (visits_bareDefinitions items)

end

/-! ## The walks of a document -/

/-- The inlines among some inlines and below them, in pre-order. -/
theorem toList_inlines (xs : List Inline) (intoNotes : Bool) :
    (inlines xs intoNotes).toList =
      (Inline.preorder ⟨true, intoNotes⟩ xs).filterMap Node.inline? := by
  rw [Cursor.toList_eq]
  simp only [inlines, listing_ofInlines]

/-- An inline is among those that some blocks hold if it is in the listing. -/
theorem mem_toList_inlinesInBlocks {bs : List Block} {x : Inline} :
    x ∈ (inlinesInBlocks bs).toList ↔ .inline x ∈ Block.preorder .everywhere bs := by
  rw [Cursor.toList_eq]
  simp only [inlinesInBlocks, listing_ofBlocks, List.mem_filterMap]
  constructor
  · rintro ⟨_ | y, hmem, hy⟩
    · cases hy
    · cases hy
      exact hmem
  · exact fun hmem => ⟨_, hmem, rfl⟩

/-- How walks that cross relate to walks that do not.  A walk over blocks that does not cross
finds some of the blocks of the one that does, in the same order, and all of them exactly if every
note among the inlines that the blocks hold is empty.  A walk over inlines that does not cross finds
some of the inlines of the one that does.  The blocks in inlines are those of the walks over the
contents of the notes, note by note.  And the kinds of blocks that a walk finds without crossing are
the same for blocks that differ only in the inlines that they hold. -/
theorem walks_by_crossing (bs : List Block) (xs : List Inline) :
    ((blocks bs false).toList.Sublist (blocks bs true).toList ∧
      ((blocks bs false).toList = (blocks bs true).toList ↔
        ∀ content, .note content ∈ (inlinesInBlocks bs).toList → content = [])) ∧
    (inlines xs false).toList.Sublist (inlines xs true).toList ∧
    (blocksInInlines xs).toList =
      ((inlines xs false).toList.filterMap Inline.note?).flatMap
        (fun content => (blocks content true).toList) ∧
    ∀ bs', Block.bareList bs = Block.bareList bs' →
      (blocks bs false).toList.map Block.tag = (blocks bs' false).toList.map Block.tag := by
  refine ⟨?_, ?_, ?_, ?_⟩
  · obtain ⟨hsublist, hequal⟩ := preorder_related skipsInlines_notesEmpty bs
    simp only [toList_blocks, mem_toList_inlinesInBlocks]
    exact ⟨hsublist, hequal⟩
  · rw [toList_inlines, toList_inlines]
    exact (inlinePreorder_related skipsNotes_sublist xs).filterMap Node.inline?
  · have hvisits := inlinePreorder_related skipsNotes_visits xs
    rw [Cursor.toList_eq, toList_inlines]
    simp only [blocksInInlines, listing_ofInlines, toList_blocks]
    exact hvisits
  · intro bs' hbare
    have htags : ∀ bs, (blocks bs false).toList.map Block.tag =
        (Block.visits false (Block.bareList bs)).map Block.tag := by
      intro bs
      rw [toList_blocks, visits_bareList, List.map_map]
      exact List.map_congr_left fun b _ => b.tag_bare.symm
    rw [htags, htags, hbare]

/-- Blocks of the same kinds, some of which hold a note. -/
theorem walks_by_crossing_kinds :
    let bs : List Block := [.para [.emph [.note [.null]]], .bulletList [[.plain [.str "a"]]]]
    let bs' : List Block := [.para [], .bulletList [[.plain [.space, .note [.horizontalRule]]]]]
    Block.bareList bs = Block.bareList bs' ∧
      (blocks bs false).toList.map Block.tag = (blocks bs' false).toList.map Block.tag := by
  intro bs bs'
  have hbare : Block.bareList bs = Block.bareList bs' := rfl
  exact ⟨hbare, (walks_by_crossing bs []).2.2.2 bs' hbare⟩

end Walk

end Transclude
