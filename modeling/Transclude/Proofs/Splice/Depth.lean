import Transclude.Json.Text
import Transclude.Proofs.Splice.Regrowth
import Transclude.Wire.Encode

/-!
# How deep edited blocks nest

An edit that replaces a block by blocks that nest somewhat deeper makes all blocks around it nest
deeper by no more than that.

Main results:

- Theorem {lit}`Json.depth_node`: what the object of a node adds to the depth of its content.
- Theorem {lit}`Splice.blockContent_depth`: how deep the results of an edit nest.
-/

namespace Transclude

namespace Json

/-! ## The depth of what is written -/

/-- An array is one container more than its elements. -/
theorem depth_arr (elements : List Json) : (arr elements).depth = elementDepth elements + 1 := by
  rw [depth]

theorem depth_str (s : String) : (str s).depth = 0 := by
  simp [depth]

/-- An object of content and tag is one container more than its content. -/
theorem depth_node (tag : String) (content : Json) :
    (node tag content).depth = content.depth + 1 := by
  simp [node, depth, memberDepth]

/-- Joined arrays nest as deep as the deeper one. -/
theorem elementDepth_append (xs ys : List Json) :
    elementDepth (xs ++ ys) = max (elementDepth xs) (elementDepth ys) := by
  induction xs with
  | nil => simp [elementDepth]
  | cons x xs ih => rw [List.cons_append, elementDepth, elementDepth, ih, Nat.max_assoc]

/-- A node nests deeper by no more than the list that is its content. -/
theorem depth_content_le (tag : String) {xs xs' : List Json} {more : Nat}
    (h : elementDepth xs' ≤ elementDepth xs + more) :
    (node tag (.arr xs')).depth ≤ (node tag (.arr xs)).depth + more := by
  simp only [depth_node, depth_arr]
  omega

/-- A node nests deeper by no more than a list among the components of its content. -/
theorem depth_component_le (tag : String) (before after : List Json) {xs xs' : List Json}
    {more : Nat} (h : elementDepth xs' ≤ elementDepth xs + more) :
    (node tag (.arr (before ++ .arr xs' :: after))).depth ≤
      (node tag (.arr (before ++ .arr xs :: after))).depth + more := by
  refine depth_content_le tag ?_
  simp only [elementDepth_append, elementDepth, depth_arr]
  omega

end Json

/-- Joined blocks are written one after the other. -/
theorem Block.toJsonList_append (bs cs : List Block) :
    Block.toJsonList (bs ++ cs) = Block.toJsonList bs ++ Block.toJsonList cs := by
  induction bs with
  | nil => simp [Block.toJsonList]
  | cons b bs ih => simp [Block.toJsonList, ih]

/-- A sequence of blocks nests as deep as the deepest of them. -/
theorem Block.elementDepth_toJsonList_le {bs : List Block} {n : Nat}
    (h : ∀ b ∈ bs, b.toJson.depth ≤ n) : Json.elementDepth (Block.toJsonList bs) ≤ n := by
  induction bs with
  | nil => exact Nat.zero_le n
  | cons b bs ih =>
    obtain ⟨hb, hbs⟩ := List.forall_mem_cons.1 h
    exact Nat.max_le.2 ⟨hb, ih hbs⟩

namespace Splice

open Json (depth_node depth_arr elementDepth depth_content_le depth_component_le)

section Depth

variable {m : Type → Type} [Monad m] {T : ⦃α : Type⦄ → (α → Prop) → m α → Prop}
  {edit : Block → m Edit} (below : Block → m Block)

/-- An answer that keeps a block, or replaces it by blocks that nest at most so much deeper. -/
structure Deepens (more : Nat) (b : Block) (answer : Edit) : Prop where
  suits : Edit.Suits b answer
  depth_le : ∀ new, answer = .replace new →
    elementDepth (Block.toJsonList new) ≤ b.toJson.depth + more

-- One theorem for each function of the edit, by recursion over the tree.
mutual

/-- A block that is edited below nests at most as much deeper as each block that makes way for
others. -/
theorem blockChildren_depth (hT : Asserts T) {more : Nat}
    (hedit : ∀ b, T (Deepens more b) (edit b)) (cross : Bool) : ∀ b : Block,
    T (fun b' => b'.toJson.depth ≤ b.toJson.depth + more) (blockChildren below cross edit b)
  | .plain content => hT.map (inlineContent_depth hT hedit cross content) fun _ h =>
    depth_content_le _ h
  | .para content => hT.map (inlineContent_depth hT hedit cross content) fun _ h =>
    depth_content_le _ h
  | .lineBlock lines => hT.map (lineContents_depth hT hedit cross lines) fun _ h =>
    depth_content_le _ h
  | .codeBlock _ _ => hT.pure (Nat.le_add_right _ _)
  | .rawBlock _ _ => hT.pure (Nat.le_add_right _ _)
  | .blockQuote content => hT.map (blockContent_depth hT hedit cross content) fun _ h =>
    depth_content_le _ h
  | .orderedList _ items => hT.map (itemContents_depth hT hedit cross items) fun _ h =>
    depth_component_le _ [_] [] h
  | .bulletList items => hT.map (itemContents_depth hT hedit cross items) fun _ h =>
    depth_content_le _ h
  | .definitionList items => hT.map (definitionContents_depth hT hedit cross items) fun _ h =>
    depth_content_le _ h
  | .header _ _ content => hT.map (inlineContent_depth hT hedit cross content) fun _ h =>
    depth_component_le _ [_, _] [] h
  | .horizontalRule => hT.pure (Nat.le_add_right _ _)
  | .table caption _ _ headers rows => by
    apply hT.bind (inlineContent_depth hT hedit cross caption)
    intro caption' hcaption
    apply hT.map₂ (itemContents_depth hT hedit cross headers)
      (rowContents_depth hT hedit cross rows)
    intro headers' rows' hheaders hrows
    simp only [Block.toJson, depth_node, depth_arr, elementDepth]
    omega
  | .div _ content => hT.map (blockContent_depth hT hedit cross content) fun _ h =>
    depth_component_le _ [_] [] h
  | .null => hT.pure (Nat.le_add_right _ _)

/-- The blocks that an edit ends in nest at most as much deeper than the blocks before it as each
block that makes way for others. -/
theorem blockContent_depth (hT : Asserts T) {more : Nat}
    (hedit : ∀ b, T (Deepens more b) (edit b)) (cross : Bool) : ∀ bs : List Block,
    T (fun bs' => elementDepth (Block.toJsonList bs') ≤ elementDepth (Block.toJsonList bs) + more)
      (blockContent below cross edit bs)
  | [] => hT.pure (Nat.le_add_right _ _)
  | b :: bs => by
    apply hT.bind (hedit b)
    rintro answer ⟨hsuits, hdepth⟩
    cases hsuits with
    | keep =>
      apply hT.map₂ (blockChildren_depth hT hedit cross b) (blockContent_depth hT hedit cross bs)
      intro b' bs' hb hbs
      simp only [Block.toJsonList, elementDepth]
      omega
    | replace new hleaf =>
      apply hT.map (blockContent_depth hT hedit cross bs)
      intro bs' hbs
      have hnew := hdepth new rfl
      simp only [Block.toJsonList_append, Json.elementDepth_append, Block.toJsonList, elementDepth]
      omega

/-- So it is with the items of a list, or the cells of a row. -/
theorem itemContents_depth (hT : Asserts T) {more : Nat}
    (hedit : ∀ b, T (Deepens more b) (edit b)) (cross : Bool) : ∀ items : List (List Block),
    T (fun items' => elementDepth (Block.toJsonItems items') ≤
      elementDepth (Block.toJsonItems items) + more) (itemContents below cross edit items)
  | [] => hT.pure (Nat.le_add_right _ _)
  | item :: items => by
    apply hT.map₂ (blockContent_depth hT hedit cross item) (itemContents_depth hT hedit cross items)
    intro item' items' hitem hitems
    simp only [Block.toJsonItems, elementDepth, depth_arr]
    omega

/-- So it is with the rows of a table. -/
theorem rowContents_depth (hT : Asserts T) {more : Nat}
    (hedit : ∀ b, T (Deepens more b) (edit b)) (cross : Bool) : ∀ rows : List (List (List Block)),
    T (fun rows' => elementDepth (Block.toJsonRows rows') ≤
      elementDepth (Block.toJsonRows rows) + more) (rowContents below cross edit rows)
  | [] => hT.pure (Nat.le_add_right _ _)
  | row :: rows => by
    apply hT.map₂ (itemContents_depth hT hedit cross row) (rowContents_depth hT hedit cross rows)
    intro row' rows' hrow hrows
    simp only [Block.toJsonRows, elementDepth, depth_arr]
    omega

/-- So it is with a definition list. -/
theorem definitionContents_depth (hT : Asserts T) {more : Nat}
    (hedit : ∀ b, T (Deepens more b) (edit b)) (cross : Bool) : ∀ items : List Definition,
    T (fun items' => elementDepth (Definition.toJsonList items') ≤
      elementDepth (Definition.toJsonList items) + more) (definitionContents below cross edit items)
  | [] => hT.pure (Nat.le_add_right _ _)
  | .mk term definitions :: items => by
    apply hT.bind (inlineContent_depth hT hedit cross term)
    intro term' hterm
    apply hT.map₂ (itemContents_depth hT hedit cross definitions)
      (definitionContents_depth hT hedit cross items)
    intro definitions' items' hdefinitions hitems
    simp only [Definition.toJsonList, Definition.toJson, elementDepth, depth_arr]
    omega

/-- So does an inline that is edited below. -/
theorem inlineChildren_depth (hT : Asserts T) {more : Nat}
    (hedit : ∀ b, T (Deepens more b) (edit b)) (cross : Bool) : ∀ x : Inline,
    T (fun x' => x'.toJson.depth ≤ x.toJson.depth + more) (inlineChildren below cross edit x)
  | .str _ => hT.pure (Nat.le_add_right _ _)
  | .emph content => hT.map (inlineContent_depth hT hedit cross content) fun _ h =>
    depth_content_le _ h
  | .strong content => hT.map (inlineContent_depth hT hedit cross content) fun _ h =>
    depth_content_le _ h
  | .strikeout content => hT.map (inlineContent_depth hT hedit cross content) fun _ h =>
    depth_content_le _ h
  | .superscript content => hT.map (inlineContent_depth hT hedit cross content) fun _ h =>
    depth_content_le _ h
  | .subscript content => hT.map (inlineContent_depth hT hedit cross content) fun _ h =>
    depth_content_le _ h
  | .smallCaps content => hT.map (inlineContent_depth hT hedit cross content) fun _ h =>
    depth_content_le _ h
  | .quoted _ content => hT.map (inlineContent_depth hT hedit cross content) fun _ h =>
    depth_component_le _ [_] [] h
  | .cite _ content => hT.map (inlineContent_depth hT hedit cross content) fun _ h =>
    depth_component_le _ [_] [] h
  | .code _ _ => hT.pure (Nat.le_add_right _ _)
  | .space => hT.pure (Nat.le_add_right _ _)
  | .softBreak => hT.pure (Nat.le_add_right _ _)
  | .lineBreak => hT.pure (Nat.le_add_right _ _)
  | .math _ _ => hT.pure (Nat.le_add_right _ _)
  | .rawInline _ _ => hT.pure (Nat.le_add_right _ _)
  | .link _ content _ => hT.map (inlineContent_depth hT hedit cross content) fun _ h =>
    depth_component_le _ [_] [_] h
  | .image _ content _ => hT.map (inlineContent_depth hT hedit cross content) fun _ h =>
    depth_component_le _ [_] [_] h
  | .note content => hT.map (blockContent_depth hT hedit cross content) fun _ h =>
    depth_content_le _ h
  | .span _ content => hT.map (inlineContent_depth hT hedit cross content) fun _ h =>
    depth_component_le _ [_] [] h

/-- So it is with running text. -/
theorem inlineContent_depth (hT : Asserts T) {more : Nat}
    (hedit : ∀ b, T (Deepens more b) (edit b)) : ∀ (cross : Bool) (xs : List Inline),
    T (fun xs' => elementDepth (Inline.toJsonList xs') ≤
      elementDepth (Inline.toJsonList xs) + more) (inlineContent below cross edit xs)
  | _, [] => hT.pure (Nat.le_add_right _ _)
  | false, _ :: _ => hT.pure (Nat.le_add_right _ _)
  | true, x :: xs => by
    apply hT.map₂ (inlineChildren_depth hT hedit true x) (inlineContent_depth hT hedit true xs)
    intro x' xs' hx hxs
    simp only [Inline.toJsonList, elementDepth]
    omega

/-- So it is with the lines of a line block. -/
theorem lineContents_depth (hT : Asserts T) {more : Nat}
    (hedit : ∀ b, T (Deepens more b) (edit b)) (cross : Bool) : ∀ lines : List (List Inline),
    T (fun lines' => elementDepth (Inline.toJsonLines lines') ≤
      elementDepth (Inline.toJsonLines lines) + more) (lineContents below cross edit lines)
  | [] => hT.pure (Nat.le_add_right _ _)
  | line :: lines => by
    apply hT.map₂ (inlineContent_depth hT hedit cross line)
      (lineContents_depth hT hedit cross lines)
    intro line' lines' hline hlines
    simp only [Inline.toJsonLines, elementDepth, depth_arr]
    omega

end

end Depth

end Splice

end Transclude
