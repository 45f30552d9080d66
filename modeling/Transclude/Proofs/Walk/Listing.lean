import Transclude.Walk.Preorder
import Transclude.Walk.Views

/-!
# Walks list a tree in pre-order

A walk keeps a stack of unfinished sibling lists.  What it still owes is read off the stack:
the pre-order listing of every frame, from the top down.  A step takes the head of that listing
and leaves its tail, so a cursor returns the wanted nodes of the listing in order.

Main results:

- Theorem {lit}`Walk.listing_step?`: a step takes the head of the listing and leaves its tail.
- Theorem {lit}`Cursor.toList_eq`: a cursor returns the wanted nodes of the listing.
- Theorem {lit}`Walk.toList_blocks`: a walk over blocks returns the blocks of their pre-order
  listing.
-/

namespace Transclude

namespace Walk

/-! ## What a stack still owes -/

/-- The nodes that a frame still has to visit, in pre-order. -/
def Frame.listing (crossing : Crossing) : Frame → List Node
  | .blocks rest => Block.preorder crossing rest
  | .inlines rest => Inline.preorder crossing rest

/-- The nodes that a walk still has to visit, in pre-order. -/
def listing (walk : Walk) : List Node :=
  walk.stack.flatMap (Frame.listing walk.crossing)

/-- A frame of blocks owes their listing, and no frame is missing where there are no blocks. -/
theorem listing_ofBlocks_frames (crossing : Crossing) (bs : List Block) :
    (Frame.ofBlocks bs).flatMap (Frame.listing crossing) = Block.preorder crossing bs := by
  cases bs with
  | nil => simp [Frame.ofBlocks, Block.preorder]
  | cons b bs => simp [Frame.ofBlocks, Frame.listing]

/-- A frame of inlines owes their listing, and no frame is missing where there are none. -/
theorem listing_ofInlines_frames (crossing : Crossing) (xs : List Inline) :
    (Frame.ofInlines xs).flatMap (Frame.listing crossing) = Inline.preorder crossing xs := by
  cases xs with
  | nil => simp [Frame.ofInlines, Inline.preorder]
  | cons x xs => simp [Frame.ofInlines, Frame.listing]

/-- The inlines that a block holds are owed only by walks that follow them. -/
theorem listing_ofContent_frames (crossing : Crossing) (xs : List Inline) :
    (Frame.ofContent crossing xs).flatMap (Frame.listing crossing) =
      if crossing.intoInlines then Inline.preorder crossing xs else [] := by
  unfold Frame.ofContent
  split
  · exact listing_ofInlines_frames crossing xs
  · rfl

/-- The frames of the lines of a line block owe the lines one after the other. -/
theorem listing_lines_frames (crossing : Crossing) (lines : List (List Inline)) :
    (lines.flatMap (Frame.ofContent crossing)).flatMap (Frame.listing crossing) =
      if crossing.intoInlines then Inline.preorderLines crossing lines else [] := by
  induction lines with
  | nil => simp [Inline.preorderLines]
  | cons line lines ih =>
    rw [List.flatMap_cons, List.flatMap_append, ih, listing_ofContent_frames]
    split
    · simp only [Inline.preorderLines]
    · rfl

/-- The frames of items or cells owe them one after the other. -/
theorem listing_items_frames (crossing : Crossing) (items : List (List Block)) :
    (items.flatMap Frame.ofBlocks).flatMap (Frame.listing crossing) =
      Block.preorderItems crossing items := by
  induction items with
  | nil => simp [Block.preorderItems]
  | cons item items ih =>
    rw [List.flatMap_cons, List.flatMap_append, ih, listing_ofBlocks_frames, Block.preorderItems]

/-- The frames of the rows of a table owe them one after the other. -/
theorem listing_rows_frames (crossing : Crossing) (rows : List (List (List Block))) :
    (rows.flatMap (List.flatMap Frame.ofBlocks)).flatMap (Frame.listing crossing) =
      Block.preorderRows crossing rows := by
  induction rows with
  | nil => simp [Block.preorderRows]
  | cons row rows ih =>
    rw [List.flatMap_cons, List.flatMap_append, ih, listing_items_frames, Block.preorderRows]

/-- The frames of a definition list owe each term with its definitions. -/
theorem listing_definitions_frames (crossing : Crossing) (items : List Definition) :
    (items.flatMap fun (.mk term definitions) =>
      Frame.ofContent crossing term ++ definitions.flatMap Frame.ofBlocks).flatMap
        (Frame.listing crossing) = Definition.preorder crossing items := by
  induction items with
  | nil => simp [Definition.preorder]
  | cons item items ih =>
    obtain ⟨term, definitions⟩ := item
    rw [List.flatMap_cons, List.flatMap_append, List.flatMap_append, ih,
      listing_ofContent_frames, listing_items_frames, Definition.preorder]

/-- The frames that a block pushes owe its descendants. -/
theorem listing_blockFrames (crossing : Crossing) (b : Block) :
    (blockFrames crossing b).flatMap (Frame.listing crossing) =
      Block.descendants crossing b := by
  cases b with
  | codeBlock | rawBlock | horizontalRule | null => simp [blockFrames, Block.descendants]
  | plain content | para content | header level attr content =>
    simp only [blockFrames, Block.descendants, listing_ofContent_frames]
  | lineBlock lines => simp only [blockFrames, Block.descendants, listing_lines_frames]
  | blockQuote content | div attr content =>
    simp only [blockFrames, Block.descendants, listing_ofBlocks_frames]
  | orderedList numbering items | bulletList items =>
    simp only [blockFrames, Block.descendants, listing_items_frames]
  | definitionList items =>
    rw [blockFrames, Block.descendants]
    exact listing_definitions_frames crossing items
  | table caption alignments widths headers rows =>
    simp only [blockFrames, Block.descendants, List.flatMap_append, listing_ofContent_frames,
      listing_items_frames, listing_rows_frames]

/-- The frames that an inline pushes owe its descendants. -/
theorem listing_inlineFrames (crossing : Crossing) (x : Inline) :
    (inlineFrames crossing x).flatMap (Frame.listing crossing) =
      Inline.descendants crossing x := by
  cases x with
  | str | code | space | softBreak | lineBreak | math | rawInline =>
    simp [inlineFrames, Inline.descendants]
  | emph content | strong content | strikeout content | superscript content
  | subscript content | smallCaps content | quoted kind content | cite citations content
  | link attr content target | image attr content target | span attr content =>
    simp only [inlineFrames, Inline.descendants, listing_ofInlines_frames]
  | note content =>
    simp only [inlineFrames, Inline.descendants]
    split
    · exact listing_ofBlocks_frames crossing content
    · rfl

/-! ## Steps and searches -/

/-- What a stack owes is the node that a step yields, followed by what the rest owes. -/
theorem listing_stepStack? (crossing : Crossing) (stack : List Frame) :
    stack.flatMap (Frame.listing crossing) =
      match stepStack? crossing stack with
      | none => []
      | some (node, rest) => node :: rest.flatMap (Frame.listing crossing) := by
  fun_induction stepStack? crossing stack with
  | case1 => rfl
  | case2 stack ih => rw [List.flatMap_cons, Frame.listing, Block.preorder, List.nil_append, ih]
  | case3 stack ih => rw [List.flatMap_cons, Frame.listing, Inline.preorder, List.nil_append, ih]
  | case4 b bs stack =>
    simp only [List.flatMap_cons, List.flatMap_append, listing_blockFrames, Frame.listing,
      Block.preorder, List.cons_append, List.append_assoc]
  | case5 x xs stack =>
    simp only [List.flatMap_cons, List.flatMap_append, listing_inlineFrames, Frame.listing,
      Inline.preorder, List.cons_append, List.append_assoc]

/-- A step takes the head of the listing and leaves its tail. -/
theorem listing_step? (walk : Walk) :
    walk.listing =
      match walk.step? with
      | none => []
      | some (node, rest) => node :: rest.listing := by
  unfold listing step?
  rw [listing_stepStack?]
  cases stepStack? walk.crossing walk.stack with
  | none => rfl
  | some next => rfl

/-- A search takes the first wanted node of the listing and leaves what follows it. -/
theorem listing_search? {α : Type} (select : Node → Option α) (walk : Walk) :
    walk.listing.filterMap select =
      match search? select walk with
      | none => []
      | some (a, rest) => a :: rest.listing.filterMap select := by
  fun_induction search? select walk with
  | case1 walk hnone =>
    have hstep : walk.step? = none := by simpa using hnone
    rw [listing_step?, hstep]
    rfl
  | case2 walk node rest hstep heq a ha =>
    rw [listing_step?, hstep]
    simp only [List.filterMap_cons, ha]
  | case3 walk node rest hstep heq hnone ih =>
    rw [listing_step?, hstep]
    simp only [List.filterMap_cons, hnone]
    exact ih

end Walk

/-! ## Cursors -/

namespace Cursor

variable {α : Type}

/-- A cursor takes the first wanted node of its listing and leaves what follows it. -/
theorem listing_next? (cursor : Cursor α) :
    cursor.walk.listing.filterMap cursor.select =
      match cursor.next? with
      | none => []
      | some (a, rest) => a :: rest.walk.listing.filterMap rest.select := by
  rw [Walk.listing_search?, next?]
  cases Walk.search? cursor.select cursor.walk with
  | none => rfl
  | some found => rfl

/-- A cursor returns the wanted nodes of its listing, in order. -/
theorem toList_eq (cursor : Cursor α) :
    cursor.toList = cursor.walk.listing.filterMap cursor.select := by
  fun_induction toList cursor with
  | case1 cursor hnone =>
    have hnext : cursor.next? = none := by simpa using hnone
    rw [listing_next?, hnext]
  | case2 cursor a rest hnext heq ih =>
    rw [listing_next?, hnext, ih]

/-- A further selection filters what a cursor returns. -/
theorem toList_filterMap {β : Type} (cursor : Cursor α) (f : α → Option β) :
    (cursor.filterMap f).toList = cursor.toList.filterMap f := by
  rw [toList_eq, toList_eq, List.filterMap_filterMap]
  rfl

end Cursor

/-! ## The walks of a document -/

namespace Walk

/-- A walk in front of blocks owes their listing. -/
theorem listing_ofBlocks (crossing : Crossing) (bs : List Block) :
    (ofBlocks crossing bs).listing = Block.preorder crossing bs := by
  simp [ofBlocks, listing, Frame.listing]

/-- The blocks among some blocks and below them, in pre-order. -/
theorem toList_blocks (bs : List Block) (intoInlines : Bool) :
    (blocks bs intoInlines).toList =
      (Block.preorder ⟨intoInlines, true⟩ bs).filterMap Node.block? := by
  rw [Cursor.toList_eq]
  simp only [blocks, listing_ofBlocks]

/-- The blocks of code are found among the blocks. -/
theorem toList_codeBlocks (bs : List Block) (intoInlines : Bool) :
    (codeBlocks bs intoInlines).toList = (blocks bs intoInlines).toList.filterMap Block.code? :=
  Cursor.toList_filterMap _ _

end Walk

end Transclude
