import Transclude.Walk.Node

/-!
# Lazy walks

A walk as a stack of unfinished sibling lists.  A step yields the next node and puts its
children on top of the stack, so nodes come out in document order and nothing is visited before
it is asked for.

Main results:

- Definition {lit}`Walk.step?`: the next node and the walk after it.
- Definition {lit}`Cursor.next?`: the next node that a cursor selects.
- Theorem {lit}`Walk.pending_step?_lt`: every step uses up some of the pending tree.
-/

namespace Transclude

namespace Walk

/-! ## Frames -/

/-- The siblings that are still to be visited. -/
inductive Frame where
  | blocks (rest : List Block)
  | inlines (rest : List Inline)

/-- A frame for blocks, unless there are none. -/
def Frame.ofBlocks (bs : List Block) : List Frame :=
  if bs.isEmpty then [] else [.blocks bs]

/-- A frame for inlines, unless there are none. -/
def Frame.ofInlines (xs : List Inline) : List Frame :=
  if xs.isEmpty then [] else [.inlines xs]

/-- A frame for the inlines that a block holds, if they are followed. -/
def Frame.ofContent (crossing : Crossing) (xs : List Inline) : List Frame :=
  if crossing.intoInlines then Frame.ofInlines xs else []

/-- The frames for the children of a block, in document order. -/
def blockFrames (crossing : Crossing) : Block → List Frame
  | .plain content => Frame.ofContent crossing content
  | .para content => Frame.ofContent crossing content
  | .lineBlock lines => lines.flatMap (Frame.ofContent crossing)
  | .codeBlock _ _ => []
  | .rawBlock _ _ => []
  | .blockQuote content => Frame.ofBlocks content
  | .orderedList _ items => items.flatMap Frame.ofBlocks
  | .bulletList items => items.flatMap Frame.ofBlocks
  | .definitionList items =>
    items.flatMap fun (.mk term definitions) =>
      Frame.ofContent crossing term ++ definitions.flatMap Frame.ofBlocks
  | .header _ _ content => Frame.ofContent crossing content
  | .horizontalRule => []
  | .table caption _ _ headers rows =>
    Frame.ofContent crossing caption ++ headers.flatMap Frame.ofBlocks ++
      rows.flatMap (List.flatMap Frame.ofBlocks)
  | .div _ content => Frame.ofBlocks content
  | .null => []

/-- The frames for the children of an inline, in document order. -/
def inlineFrames (crossing : Crossing) : Inline → List Frame
  | .str _ => []
  | .emph content => Frame.ofInlines content
  | .strong content => Frame.ofInlines content
  | .strikeout content => Frame.ofInlines content
  | .superscript content => Frame.ofInlines content
  | .subscript content => Frame.ofInlines content
  | .smallCaps content => Frame.ofInlines content
  | .quoted _ content => Frame.ofInlines content
  | .cite _ content => Frame.ofInlines content
  | .code _ _ => []
  | .space => []
  | .softBreak => []
  | .lineBreak => []
  | .math _ _ => []
  | .rawInline _ _ => []
  | .link _ content _ => Frame.ofInlines content
  | .image _ content _ => Frame.ofInlines content
  | .note content => if crossing.intoNotes then Frame.ofBlocks content else []
  | .span _ content => Frame.ofInlines content

/-! ## Steps -/

/-- The next node and the stack after it; finished frames are dropped on the way. -/
def stepStack? (crossing : Crossing) : List Frame → Option (Node × List Frame)
  | [] => none
  | .blocks [] :: stack => stepStack? crossing stack
  | .inlines [] :: stack => stepStack? crossing stack
  | .blocks (b :: bs) :: stack => some (.block b, blockFrames crossing b ++ .blocks bs :: stack)
  | .inlines (x :: xs) :: stack =>
    some (.inline x, inlineFrames crossing x ++ .inlines xs :: stack)

/-- The size of what a frame still has to visit. -/
noncomputable def Frame.pending : Frame → Nat
  | .blocks rest => sizeOf rest
  | .inlines rest => sizeOf rest

/-- The size of what a stack still has to visit. -/
noncomputable def pendingStack (stack : List Frame) : Nat :=
  stack.foldr (fun frame n => frame.pending + n) 0

@[simp] theorem pendingStack_nil : pendingStack [] = 0 := rfl

@[simp] theorem pendingStack_cons (frame : Frame) (stack : List Frame) :
    pendingStack (frame :: stack) = frame.pending + pendingStack stack := by
  simp [pendingStack]

@[simp] theorem pendingStack_append (front back : List Frame) :
    pendingStack (front ++ back) = pendingStack front + pendingStack back := by
  induction front with
  | nil => simp
  | cons frame front ih =>
    rw [List.cons_append, pendingStack_cons, pendingStack_cons, ih, Nat.add_assoc]

/-- The frame of some blocks has no more to visit than their size. -/
theorem pending_ofBlocks_le (bs : List Block) : pendingStack (Frame.ofBlocks bs) ≤ sizeOf bs := by
  unfold Frame.ofBlocks
  split <;> simp [Frame.pending]

/-- Nor has the frame of running text. -/
theorem pending_ofInlines_le (xs : List Inline) :
    pendingStack (Frame.ofInlines xs) ≤ sizeOf xs := by
  unfold Frame.ofInlines
  split <;> simp [Frame.pending]

/-- Nor has the frame of running text that is only gone into when crossing. -/
theorem pending_ofContent_le (crossing : Crossing) (xs : List Inline) :
    pendingStack (Frame.ofContent crossing xs) ≤ sizeOf xs := by
  unfold Frame.ofContent
  split
  · exact pending_ofInlines_le xs
  · simp

/-- The frames of a list have no more to visit than its size, if those of each member have not. -/
theorem pending_flatMap_le {α : Type} [SizeOf α] {frames : α → List Frame}
    (h : ∀ a, pendingStack (frames a) ≤ sizeOf a) (as : List α) :
    pendingStack (as.flatMap frames) ≤ sizeOf as := by
  induction as with
  | nil => simp
  | cons a as ih =>
    have := h a
    simp only [List.flatMap_cons, pendingStack_append, List.cons.sizeOf_spec]
    omega

/-- Nor have the frames of a term with its definitions. -/
theorem pending_definition_le (crossing : Crossing) (d : Definition) :
    pendingStack (match d with
      | .mk term definitions =>
        Frame.ofContent crossing term ++ definitions.flatMap Frame.ofBlocks) ≤ sizeOf d := by
  obtain ⟨term, definitions⟩ := d
  have := pending_ofContent_le crossing term
  have := pending_flatMap_le pending_ofBlocks_le definitions
  simp only [pendingStack_append, Definition.mk.sizeOf_spec]
  omega

/-- The children of a block are smaller than the block. -/
theorem pending_blockFrames_le (crossing : Crossing) (b : Block) :
    pendingStack (blockFrames crossing b) ≤ sizeOf b := by
  cases b with
  | plain content =>
    have := pending_ofContent_le crossing content
    simp only [blockFrames, Block.plain.sizeOf_spec]
    omega
  | para content =>
    have := pending_ofContent_le crossing content
    simp only [blockFrames, Block.para.sizeOf_spec]
    omega
  | lineBlock lines =>
    have := pending_flatMap_le (pending_ofContent_le crossing) lines
    simp only [blockFrames, Block.lineBlock.sizeOf_spec]
    omega
  | blockQuote content =>
    have := pending_ofBlocks_le content
    simp only [blockFrames, Block.blockQuote.sizeOf_spec]
    omega
  | orderedList numbering items =>
    have := pending_flatMap_le pending_ofBlocks_le items
    simp only [blockFrames, Block.orderedList.sizeOf_spec]
    omega
  | bulletList items =>
    have := pending_flatMap_le pending_ofBlocks_le items
    simp only [blockFrames, Block.bulletList.sizeOf_spec]
    omega
  | definitionList items =>
    have := pending_flatMap_le (pending_definition_le crossing) items
    simp only [blockFrames, Block.definitionList.sizeOf_spec]
    omega
  | header level attr content =>
    have := pending_ofContent_le crossing content
    simp only [blockFrames, Block.header.sizeOf_spec]
    omega
  | table caption alignments widths headers rows =>
    have := pending_ofContent_le crossing caption
    have := pending_flatMap_le pending_ofBlocks_le headers
    have := pending_flatMap_le (pending_flatMap_le pending_ofBlocks_le) rows
    simp only [blockFrames, pendingStack_append, Block.table.sizeOf_spec]
    omega
  | div attr content =>
    have := pending_ofBlocks_le content
    simp only [blockFrames, Block.div.sizeOf_spec]
    omega
  | codeBlock | rawBlock | horizontalRule | null => simp [blockFrames]

/-- The children of an inline are smaller than the inline. -/
theorem pending_inlineFrames_le (crossing : Crossing) (x : Inline) :
    pendingStack (inlineFrames crossing x) ≤ sizeOf x := by
  cases x with
  | emph content | strong content | strikeout content | superscript content | subscript content
  | smallCaps content =>
    have := pending_ofInlines_le content
    simp only [inlineFrames, Inline.emph.sizeOf_spec, Inline.strong.sizeOf_spec,
      Inline.strikeout.sizeOf_spec, Inline.superscript.sizeOf_spec, Inline.subscript.sizeOf_spec,
      Inline.smallCaps.sizeOf_spec]
    omega
  | quoted kind content =>
    have := pending_ofInlines_le content
    simp only [inlineFrames, Inline.quoted.sizeOf_spec]
    omega
  | cite citations content =>
    have := pending_ofInlines_le content
    simp only [inlineFrames, Inline.cite.sizeOf_spec]
    omega
  | link attr content target | image attr content target =>
    have := pending_ofInlines_le content
    simp only [inlineFrames, Inline.link.sizeOf_spec, Inline.image.sizeOf_spec]
    omega
  | span attr content =>
    have := pending_ofInlines_le content
    simp only [inlineFrames, Inline.span.sizeOf_spec]
    omega
  | note content =>
    have := pending_ofBlocks_le content
    simp only [inlineFrames, Inline.note.sizeOf_spec]
    split
    · omega
    · simp
  | str | code | space | softBreak | lineBreak | math | rawInline => simp [inlineFrames]

/-- Every step uses up some of the pending tree. -/
theorem pending_stepStack?_lt {crossing : Crossing} {stack rest : List Frame} {node : Node}
    (h : stepStack? crossing stack = some (node, rest)) :
    pendingStack rest < pendingStack stack := by
  fun_induction stepStack? crossing stack with
  | case1 => simp at h
  | case2 stack ih =>
    have := ih h
    simp only [pendingStack_cons]
    omega
  | case3 stack ih =>
    have := ih h
    simp only [pendingStack_cons]
    omega
  | case4 b bs stack =>
    have := pending_blockFrames_le crossing b
    simp only [Option.some.injEq, Prod.mk.injEq] at h
    simp only [← h.2, pendingStack_append, pendingStack_cons, Frame.pending,
      List.cons.sizeOf_spec]
    omega
  | case5 x xs stack =>
    have := pending_inlineFrames_le crossing x
    simp only [Option.some.injEq, Prod.mk.injEq] at h
    simp only [← h.2, pendingStack_append, pendingStack_cons, Frame.pending,
      List.cons.sizeOf_spec]
    omega

end Walk

/-! ## Walks -/

/-- A walk in progress: which edges it follows, and what it still has to visit. -/
structure Walk where
  crossing : Crossing
  stack : List Walk.Frame

namespace Walk

/-- A walk that begins in front of some blocks. -/
def ofBlocks (crossing : Crossing) (bs : List Block) : Walk :=
  ⟨crossing, [.blocks bs]⟩

/-- A walk that begins in front of some inlines. -/
def ofInlines (crossing : Crossing) (xs : List Inline) : Walk :=
  ⟨crossing, [.inlines xs]⟩

/-- The next node and the walk after it. -/
def step? (walk : Walk) : Option (Node × Walk) :=
  (stepStack? walk.crossing walk.stack).map fun (node, stack) => (node, { walk with stack })

/-- The size of what a walk still has to visit. -/
noncomputable def pending (walk : Walk) : Nat :=
  pendingStack walk.stack

/-- Every step uses up some of the pending tree. -/
theorem pending_step?_lt {walk rest : Walk} {node : Node} (h : walk.step? = some (node, rest)) :
    rest.pending < walk.pending := by
  obtain ⟨⟨n, stack⟩, hstep, heq⟩ := Option.map_eq_some_iff.1 h
  simp only [Prod.mk.injEq] at heq
  rw [← heq.2]
  exact pending_stepStack?_lt hstep

/-- The next node that a selection keeps, and the walk after it. -/
def search? {α : Type} (select : Node → Option α) (walk : Walk) : Option (α × Walk) :=
  match walk.step?.attach with
  | none => none
  | some ⟨(node, rest), _h⟩ =>
    match select node with
    | some a => some (a, rest)
    | none => search? select rest
termination_by walk.pending
decreasing_by exact pending_step?_lt _h

/-- Every successful search uses up some of the pending tree. -/
theorem pending_search?_lt {α : Type} {select : Node → Option α} {walk rest : Walk} {a : α}
    (h : search? select walk = some (a, rest)) : rest.pending < walk.pending := by
  fun_induction search? select walk with
  | case1 => simp at h
  | case2 walk node rest' hstep heq b hb =>
    simp only [Option.some.injEq, Prod.mk.injEq] at h
    rw [← h.2]
    exact pending_step?_lt hstep
  | case3 walk node rest' hstep heq hnone ih =>
    exact Nat.lt_trans (ih h) (pending_step?_lt hstep)

end Walk

/-! ## Cursors -/

/-- A walk of which only some nodes are wanted. -/
structure Cursor (α : Type) where
  walk : Walk
  select : Node → Option α

namespace Cursor

variable {α : Type}

/-- The next wanted node and the cursor after it. -/
def next? (cursor : Cursor α) : Option (α × Cursor α) :=
  (cursor.walk.search? cursor.select).map fun (a, walk) => (a, { cursor with walk })

/-- Every successful call uses up some of the pending tree. -/
theorem pending_next?_lt {cursor rest : Cursor α} {a : α} (h : cursor.next? = some (a, rest)) :
    rest.walk.pending < cursor.walk.pending := by
  obtain ⟨⟨b, walk⟩, hsearch, heq⟩ := Option.map_eq_some_iff.1 h
  simp only [Prod.mk.injEq] at heq
  rw [← heq.2]
  exact Walk.pending_search?_lt hsearch

/-- All wanted nodes, in order. -/
def toList (cursor : Cursor α) : List α :=
  match cursor.next?.attach with
  | none => []
  | some ⟨(a, rest), _h⟩ => a :: toList rest
termination_by cursor.walk.pending
decreasing_by exact pending_next?_lt _h

/-- What a number of calls return one after the other; a cursor at its end stays there. -/
def calls : Nat → Cursor α → List (Option α)
  | 0, _ => []
  | n + 1, cursor =>
    match cursor.next? with
    | some (a, rest) => some a :: calls n rest
    | none => none :: calls n cursor

/-- Only the wanted nodes that a further selection keeps. -/
def filterMap {β : Type} (cursor : Cursor α) (f : α → Option β) : Cursor β :=
  ⟨cursor.walk, fun node => (cursor.select node).bind f⟩

end Cursor

end Transclude
