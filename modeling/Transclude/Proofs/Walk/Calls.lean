import Transclude.Proofs.Walk.Listing

/-!
# What the calls of a cursor return

A call looks for the next wanted node in a loop over an array of unfinished sibling lists, whose
last entry is the top.  A turn of the loop drops a finished list, or takes the first node of the
top one; the lists of its children are appended in document order and then reversed in place.
Every turn uses up some of the pending tree, so the loop ends, and one call after the other
returns the wanted nodes of the pre-order listing and nothing once they are used up.

Main results:

- Definition {lit}`Walk.turn`: one turn of the loop, on an array.
- Theorem {lit}`Walk.callWithin?_eq`: the loop ends, with the first wanted node of the listing.
- Theorem {lit}`Cursor.lists_listing`: the calls of a cursor return its listing in order.
- Theorem {lit}`Walk.calls_list_preorder`: the calls of the five walks of a document return the
  pre-order listing of the tree.
-/

namespace Transclude

namespace Walk

/-! ## The loop behind a call -/

/-- What one turn of the loop comes to: there are no more frames, a finished frame has been
dropped, or a node has been taken. -/
inductive Turn where
  | ended
  | dropped (frames : Array Frame)
  | visited (node : Node) (frames : Array Frame)

/-- Append frames one by one and then reverse them in place, so that the first one is on top. -/
def pushReversed (frames : Array Frame) (children : List Frame) : Array Frame :=
  let pushed := children.foldl Array.push frames
  pushed.extract 0 frames.size ++ (pushed.extract frames.size).reverse

/-- One turn of the loop on an array of frames, the last of which is the top. -/
def turn (crossing : Crossing) (frames : Array Frame) : Turn :=
  match frames.back? with
  | none => .ended
  | some (.blocks []) => .dropped frames.pop
  | some (.inlines []) => .dropped frames.pop
  | some (.blocks (b :: bs)) =>
    .visited (.block b) (pushReversed (frames.pop.push (.blocks bs)) (blockFrames crossing b))
  | some (.inlines (x :: xs)) =>
    .visited (.inline x) (pushReversed (frames.pop.push (.inlines xs)) (inlineFrames crossing x))

/-- A call as a loop that is cut off after a number of turns: what the call returns and the
frames that it leaves, none if it is cut off. -/
def callWithin? {α : Type} (crossing : Crossing) (select : Node → Option α) :
    Nat → Array Frame → Option (Option α × Array Frame)
  | 0, _ => none
  | turns + 1, frames =>
    match turn crossing frames with
    | .ended => some (none, frames)
    | .dropped rest => callWithin? crossing select turns rest
    | .visited node rest =>
      match select node with
      | some a => some (some a, rest)
      | none => callWithin? crossing select turns rest

/-- What a number of calls return one after the other, each of them a loop of at most so many
turns. -/
def callsWithin? {α : Type} (crossing : Crossing) (select : Node → Option α) (turns : Nat) :
    Nat → Array Frame → Option (List (Option α))
  | 0, _ => some []
  | n + 1, frames => do
    let (found, rest) ← callWithin? crossing select turns frames
    let others ← callsWithin? crossing select turns n rest
    return found :: others

/-! ## Turns on a stack -/

/-- A stack as an array, whose last frame is the top. -/
def stackArray (stack : List Frame) : Array Frame :=
  stack.reverse.toArray

/-- The top of a stack is at the end of its array. -/
theorem back?_stackArray_cons (frame : Frame) (stack : List Frame) :
    (stackArray (frame :: stack)).back? = some frame := by
  simp [stackArray]

/-- It is taken off at the end. -/
theorem pop_stackArray_cons (frame : Frame) (stack : List Frame) :
    (stackArray (frame :: stack)).pop = stackArray stack := by
  simp [stackArray]

/-- It is put on at the end. -/
theorem push_stackArray (frame : Frame) (stack : List Frame) :
    (stackArray stack).push frame = stackArray (frame :: stack) := by
  simp [stackArray]

/-- Frames that are pushed and reversed in place come on top of a stack in their order. -/
theorem pushReversed_stackArray (stack children : List Frame) :
    pushReversed (stackArray stack) children = stackArray (children ++ stack) := by
  have hpushed : children.foldl Array.push (stackArray stack) =
      stackArray stack ++ children.toArray := by
    simp
  have hbelow : (stackArray stack ++ children.toArray).extract 0 (stackArray stack).size =
      stackArray stack := by
    rw [Array.extract_append_left, Array.extract_size]
  have habove : (stackArray stack ++ children.toArray).extract (stackArray stack).size =
      children.toArray := by
    simp
  rw [pushReversed, hpushed, hbelow, habove]
  simp [stackArray]

/-- A turn finds the stack empty, drops a finished frame that a step drops too, or takes the node
that a step takes. -/
theorem turn_stackArray_cases (crossing : Crossing) (stack : List Frame) :
    (turn crossing (stackArray stack) = .ended ∧ stack = []) ∨
    (∃ rest, turn crossing (stackArray stack) = .dropped (stackArray rest) ∧
      stepStack? crossing stack = stepStack? crossing rest ∧
      pendingStack rest < pendingStack stack) ∨
    (∃ node rest, turn crossing (stackArray stack) = .visited node (stackArray rest) ∧
      stepStack? crossing stack = some (node, rest)) := by
  cases stack with
  | nil => exact Or.inl ⟨rfl, rfl⟩
  | cons frame stack =>
    refine Or.inr ?_
    have htop := back?_stackArray_cons frame stack
    have hpop := pop_stackArray_cons frame stack
    rcases frame with (_ | ⟨b, bs⟩) | (_ | ⟨x, xs⟩)
    · refine Or.inl ⟨stack, ?_, rfl, ?_⟩
      · rw [turn, htop, ← hpop]
      · simp [Frame.pending]
    · refine Or.inr ⟨.block b, blockFrames crossing b ++ .blocks bs :: stack, ?_, rfl⟩
      simp only [turn, htop, hpop, push_stackArray, pushReversed_stackArray]
    · refine Or.inl ⟨stack, ?_, rfl, ?_⟩
      · rw [turn, htop, ← hpop]
      · simp [Frame.pending]
    · refine Or.inr ⟨.inline x, inlineFrames crossing x ++ .inlines xs :: stack, ?_, rfl⟩
      simp only [turn, htop, hpop, push_stackArray, pushReversed_stackArray]

/-! ## The loop ends -/

section Loop

variable {α : Type} (crossing : Crossing) (select : Node → Option α)

/-- The wanted nodes that a stack still has to visit, in pre-order. -/
def wanted (stack : List Frame) : List α :=
  (stack.flatMap (Frame.listing crossing)).filterMap select

/-- With as many turns as there is something pending, and one more, the loop of a call ends.  It
returns the first wanted node, if there is one, and leaves the others. -/
theorem callWithin?_eq {turns : Nat} {stack : List Frame} (h : pendingStack stack < turns) :
    ∃ rest, callWithin? crossing select turns (stackArray stack) =
        some ((wanted crossing select stack).head?, stackArray rest) ∧
      wanted crossing select rest = (wanted crossing select stack).tail ∧
      pendingStack rest ≤ pendingStack stack := by
  induction turns generalizing stack with
  | zero => exact absurd h (Nat.not_lt_zero _)
  | succ turns ih =>
    rcases turn_stackArray_cases crossing stack with
      ⟨hturn, rfl⟩ | ⟨next, hturn, hstep, hlt⟩ | ⟨node, next, hturn, hstep⟩
    · refine ⟨[], ?_, rfl, Nat.le_refl _⟩
      rw [callWithin?, hturn]
      rfl
    · have hwanted : wanted crossing select next = wanted crossing select stack := by
        rw [wanted, wanted, listing_stepStack?, listing_stepStack?, hstep]
      obtain ⟨rest, hcall, hrest, hle⟩ := ih (Nat.lt_of_lt_of_le hlt (Nat.le_of_lt_succ h))
      refine ⟨rest, ?_, hwanted ▸ hrest, by omega⟩
      rw [callWithin?, hturn, ← hwanted]
      exact hcall
    · have hlt := pending_stepStack?_lt hstep
      have hwanted : wanted crossing select stack =
          (select node).toList ++ wanted crossing select next := by
        rw [wanted, listing_stepStack?, hstep, List.filterMap_cons]
        cases select node <;> rfl
      rw [callWithin?, hturn, hwanted]
      cases hselect : select node with
      | some a =>
        refine ⟨next, ?_, rfl, by omega⟩
        simp only [hselect]
        rfl
      | none =>
        obtain ⟨rest, hcall, hrest, hle⟩ := ih (Nat.lt_of_lt_of_le hlt (Nat.le_of_lt_succ h))
        refine ⟨rest, ?_, hrest, by omega⟩
        simp only [hselect]
        exact hcall

/-- Call after call the loops end, and return the wanted nodes in order and then nothing. -/
theorem callsWithin?_eq {turns : Nat} (n : Nat) {stack : List Frame}
    (h : pendingStack stack < turns) :
    callsWithin? crossing select turns n (stackArray stack) =
      some ((List.range n).map fun i => (wanted crossing select stack)[i]?) := by
  induction n generalizing stack with
  | zero => rfl
  | succ n ih =>
    obtain ⟨rest, hcall, hrest, hle⟩ := callWithin?_eq crossing select h
    have hothers := ih (Nat.lt_of_le_of_lt hle h)
    rw [hrest] at hothers
    rw [callsWithin?, hcall, List.range_succ_eq_map, List.map_cons, List.map_map]
    simp [hothers, List.head?_eq_getElem?, Function.comp_def]

end Loop

end Walk

/-! ## The calls of a cursor -/

namespace Cursor

variable {α : Type}

/-- The calls of a cursor return one element of a list after the other, and nothing from its end
on; and the loop behind each of these calls ends. -/
structure Lists (cursor : Cursor α) (listing : List α) : Prop where
  calls : ∀ n, cursor.calls n = (List.range n).map fun i => listing[i]?
  loops : ∀ n, ∃ turns, Walk.callsWithin? cursor.walk.crossing cursor.select turns n
    (Walk.stackArray cursor.walk.stack) = some (cursor.calls n)

/-- Call after call a cursor returns the wanted nodes of its listing, and then nothing. -/
theorem calls_eq (n : Nat) (cursor : Cursor α) :
    cursor.calls n =
      (List.range n).map fun i => (cursor.walk.listing.filterMap cursor.select)[i]? := by
  induction n generalizing cursor with
  | zero => rfl
  | succ n ih =>
    rw [calls, List.range_succ_eq_map, List.map_cons, List.map_map]
    cases hnext : cursor.next? with
    | none =>
      have hlisting : cursor.walk.listing.filterMap cursor.select = [] := by
        rw [listing_next?, hnext]
      simp [ih, hlisting, Function.comp_def]
    | some found =>
      obtain ⟨a, rest⟩ := found
      have hlisting : cursor.walk.listing.filterMap cursor.select =
          a :: rest.walk.listing.filterMap rest.select := by
        rw [listing_next?, hnext]
      simp [ih, hlisting, Function.comp_def]

/-- The calls of a cursor return the wanted nodes of its listing. -/
theorem lists_listing (cursor : Cursor α) :
    cursor.Lists (cursor.walk.listing.filterMap cursor.select) := by
  refine ⟨fun n => calls_eq n cursor, fun n => ⟨cursor.walk.pending + 1, ?_⟩⟩
  rw [calls_eq]
  exact Walk.callsWithin?_eq cursor.walk.crossing cursor.select n (Nat.lt_succ_self _)

end Cursor

/-! ## The walks of a document -/

namespace Walk

/-- A walk in front of inlines owes their listing. -/
theorem listing_ofInlines (crossing : Crossing) (xs : List Inline) :
    (ofInlines crossing xs).listing = Inline.preorder crossing xs := by
  simp [ofInlines, listing, Frame.listing]

/-- The walks over blocks, over inlines, from inlines to the blocks in their notes, from blocks to
the inlines they hold, and over both kinds list the tree in pre-order.  The n-th call returns the
n-th node of the kind that the walk yields, and nothing once they are used up; and in every call
the loop that drops finished frames and passes over nodes of the other kind ends. -/
theorem calls_list_preorder (bs : List Block) (xs : List Inline) (cross : Bool) :
    (blocks bs cross).Lists ((Block.preorder ⟨cross, true⟩ bs).filterMap Node.block?) ∧
    (inlines xs cross).Lists ((Inline.preorder ⟨true, cross⟩ xs).filterMap Node.inline?) ∧
    (blocksInInlines xs).Lists ((Inline.preorder .everywhere xs).filterMap Node.block?) ∧
    (inlinesInBlocks bs).Lists ((Block.preorder .everywhere bs).filterMap Node.inline?) ∧
    (nodes bs).Lists (Block.preorder .everywhere bs) := by
  have hblocks := (blocks bs cross).lists_listing
  have hinlines := (inlines xs cross).lists_listing
  have hblocksIn := (blocksInInlines xs).lists_listing
  have hinlinesIn := (inlinesInBlocks bs).lists_listing
  have hnodes := (nodes bs).lists_listing
  simp only [blocks, nodes, inlinesInBlocks, listing_ofBlocks, List.filterMap_some]
    at hblocks hinlinesIn hnodes
  simp only [inlines, blocksInInlines, listing_ofInlines] at hinlines hblocksIn
  exact ⟨hblocks, hinlines, hblocksIn, hinlinesIn, hnodes⟩

end Walk

end Transclude
