import Mathlib.Data.List.Basic
import Transclude.Proofs.Splice.Regrowth
import Transclude.Proofs.Walk.Listing

/-!
# Substitution and walks

An edit without effects that replaces some blocks and keeps the others is a substitution.  What a
walk finds after it is what it finds before it, with every replaced block making way for what a
walk finds in the new blocks.  The lists that the tree is made of keep their places: every kept
block has as many items, cells, rows and terms as before.

Main results:

- Definition {lit}`Splice.substituted`: blocks after a substitution.
- Theorem {lit}`Splice.substituted_eq`: a substitution goes block by block and part by part.
- Theorem {lit}`Splice.walk_substituted`: a walk after a substitution is a substitution in a walk.
-/

namespace Transclude

/-! ## Nodes without their children -/

/-- A node without the nodes below it. -/
def Node.husk : Node → Node
  | .block b => .block b.husk
  | .inline x => .inline x.husk

/-- A block is of the same kind without the nodes below it. -/
theorem Block.tag_husk (b : Block) : b.husk.tag = b.tag := by
  cases b <;> rfl

/-- So is an inline. -/
theorem Inline.tag_husk (x : Inline) : x.husk.tag = x.tag := by
  cases x <;> rfl

/-- So is a node. -/
theorem Node.tagName_husk (node : Node) : node.husk.tagName = node.tagName := by
  cases node with
  | block b => rw [husk, tagName, Block.tag_husk, tagName]
  | inline x => rw [husk, tagName, Inline.tag_husk, tagName]

/-- A node without the nodes below it has none to lose. -/
theorem Node.husk_husk (node : Node) : node.husk.husk = node.husk := by
  cases node with
  | block b => cases b <;> rfl
  | inline x => cases x <;> rfl

/-! ## Parts -/

/-- A block with something done to every list of blocks and every list of inlines that it is
directly made of. -/
def Block.mapParts (onBlocks : List Block → List Block) (onInlines : List Inline → List Inline) :
    Block → Block
  | .plain content => .plain (onInlines content)
  | .para content => .para (onInlines content)
  | .lineBlock lines => .lineBlock (lines.map onInlines)
  | .codeBlock attr text => .codeBlock attr text
  | .rawBlock format text => .rawBlock format text
  | .blockQuote content => .blockQuote (onBlocks content)
  | .orderedList numbering items => .orderedList numbering (items.map onBlocks)
  | .bulletList items => .bulletList (items.map onBlocks)
  | .definitionList items =>
    .definitionList (items.map fun (.mk term definitions) =>
      .mk (onInlines term) (definitions.map onBlocks))
  | .header level attr content => .header level attr (onInlines content)
  | .horizontalRule => .horizontalRule
  | .table caption alignments widths headers rows =>
    .table (onInlines caption) alignments widths (headers.map onBlocks)
      (rows.map (List.map onBlocks))
  | .div attr content => .div attr (onBlocks content)
  | .null => .null

/-- An inline with something done to the list of blocks or inlines that it is directly made of. -/
def Inline.mapParts (onBlocks : List Block → List Block) (onInlines : List Inline → List Inline) :
    Inline → Inline
  | .str text => .str text
  | .emph content => .emph (onInlines content)
  | .strong content => .strong (onInlines content)
  | .strikeout content => .strikeout (onInlines content)
  | .superscript content => .superscript (onInlines content)
  | .subscript content => .subscript (onInlines content)
  | .smallCaps content => .smallCaps (onInlines content)
  | .quoted kind content => .quoted kind (onInlines content)
  | .cite citations content => .cite citations (onInlines content)
  | .code attr text => .code attr text
  | .space => .space
  | .softBreak => .softBreak
  | .lineBreak => .lineBreak
  | .math kind text => .math kind text
  | .rawInline format text => .rawInline format text
  | .link attr content target => .link attr (onInlines content) target
  | .image attr content target => .image attr (onInlines content) target
  | .note content => .note (onBlocks content)
  | .span attr content => .span attr (onInlines content)

namespace Splice

/-! ## Substitution -/

section Substitution

variable (cross : Bool) (new? : Block → Option (List Block))

/-- Replace a block if there is something to replace it by, and keep it otherwise. -/
def substituting (b : Block) : Edit :=
  match new? b with
  | none => .keep
  | some new => .replace new

variable {new?} in
theorem substituting_eq_keep_iff {b : Block} : substituting new? b = .keep ↔ new? b = none := by
  unfold substituting
  cases new? b <;> simp

variable {new?} in
theorem substituting_eq_replace_iff {b : Block} {new : List Block} :
    substituting new? b = .replace new ↔ new? b = some new := by
  unfold substituting
  cases new? b <;> simp

/-- Blocks after a substitution. -/
def substituted (bs : List Block) : List Block :=
  Id.run (replaceBlocks cross (fun b => pure (new? b)) bs)

/-- Inlines after a substitution of the blocks in their notes. -/
def substitutedInlines (xs : List Inline) : List Inline :=
  Id.run (inlineContent pure cross (fun b => pure (substituting new? b)) xs)

/-- A substitution is an edit that keeps or replaces. -/
theorem substituted_eq_blockContent (bs : List Block) :
    substituted cross new? bs =
      Id.run (blockContent pure cross (fun b => pure (substituting new? b)) bs) := by
  have hedit : ∀ b, (match new? b with
      | none => pure .keep
      | some new => pure (.replace new)) = (pure (substituting new? b) : Id Edit) := by
    intro b
    unfold substituting
    cases new? b <;> rfl
  exact congrArg (fun edit => Id.run (blockContent pure cross edit bs)) (funext hedit)

/-! ### Part by part -/

/-- A substitution in the items of a list, or in the cells of a row, is one in each of them. -/
theorem itemContents_eq_map (items : List (List Block)) :
    Id.run (itemContents pure cross (fun b => pure (substituting new? b)) items) =
      items.map (substituted cross new?) := by
  induction items with
  | nil => rfl
  | cons item items ih =>
    rw [List.map_cons, ← ih, substituted_eq_blockContent]
    rfl

/-- A substitution in the rows of a table is one in each cell. -/
theorem rowContents_eq_map (rows : List (List (List Block))) :
    Id.run (rowContents pure cross (fun b => pure (substituting new? b)) rows) =
      rows.map (List.map (substituted cross new?)) := by
  induction rows with
  | nil => rfl
  | cons row rows ih =>
    rw [List.map_cons, ← ih, ← itemContents_eq_map]
    rfl

/-- A substitution in a definition list is one in each term and each definition. -/
theorem definitionContents_eq_map (items : List Definition) :
    Id.run (definitionContents pure cross (fun b => pure (substituting new? b)) items) =
      items.map fun (.mk term definitions) =>
        .mk (substitutedInlines cross new? term) (definitions.map (substituted cross new?)) := by
  induction items with
  | nil => rfl
  | cons item items ih =>
    obtain ⟨term, definitions⟩ := item
    rw [List.map_cons, ← ih]
    dsimp only
    rw [← itemContents_eq_map]
    rfl

/-- A substitution in the lines of a line block is one in each line. -/
theorem lineContents_eq_map (lines : List (List Inline)) :
    Id.run (lineContents pure cross (fun b => pure (substituting new? b)) lines) =
      lines.map (substitutedInlines cross new?) := by
  induction lines with
  | nil => rfl
  | cons line lines ih =>
    rw [List.map_cons, ← ih]
    rfl

/-- A substitution below a block is one in each of its parts. -/
theorem blockChildren_eq_mapParts (b : Block) :
    Id.run (blockChildren pure cross (fun b => pure (substituting new? b)) b) =
      b.mapParts (substituted cross new?) (substitutedInlines cross new?) := by
  cases b with
  | plain | para | header | codeBlock | rawBlock | horizontalRule | null => rfl
  | lineBlock lines =>
    rw [Block.mapParts, ← lineContents_eq_map]
    rfl
  | blockQuote content | div _ content =>
    rw [Block.mapParts, substituted_eq_blockContent]
    rfl
  | orderedList _ items | bulletList items =>
    rw [Block.mapParts, ← itemContents_eq_map]
    rfl
  | definitionList items =>
    rw [Block.mapParts, ← definitionContents_eq_map]
    rfl
  | table caption _ _ headers rows =>
    rw [Block.mapParts, ← itemContents_eq_map, ← rowContents_eq_map]
    rfl

/-- So is a substitution below an inline. -/
theorem inlineChildren_eq_mapParts (x : Inline) :
    Id.run (inlineChildren pure cross (fun b => pure (substituting new? b)) x) =
      x.mapParts (substituted cross new?) (substitutedInlines cross new?) := by
  cases x with
  | note content =>
    rw [Inline.mapParts, substituted_eq_blockContent]
    rfl
  | _ => rfl

/-- A substitution goes block by block: what is replaced makes way, and what is kept has its
parts substituted, each in its place. -/
theorem substituted_eq (bs : List Block) :
    substituted cross new? bs = bs.flatMap fun b =>
      (new? b).getD [b.mapParts (substituted cross new?) (substitutedInlines cross new?)] := by
  induction bs with
  | nil => rfl
  | cons b bs ih =>
    rw [List.flatMap_cons, ← ih, ← blockChildren_eq_mapParts, substituted_eq_blockContent,
      substituted_eq_blockContent, blockContent]
    unfold substituting
    cases new? b <;> rfl

/-- Inlines are substituted one by one if the substitution crosses into them, and otherwise not at
all. -/
theorem substitutedInlines_eq (xs : List Inline) :
    substitutedInlines cross new? xs =
      if cross then
        xs.map (Inline.mapParts (substituted cross new?) (substitutedInlines cross new?))
      else xs := by
  cases cross with
  | false => cases xs <;> rfl
  | true =>
    rw [if_pos rfl]
    induction xs with
    | nil => rfl
    | cons x xs ih =>
      rw [List.map_cons, ← ih, ← inlineChildren_eq_mapParts]
      rfl

end Substitution

/-! ## Walks -/

section Walks

variable {cross : Bool} {new? : Block → Option (List Block)}

/-- What becomes of a node in what a walk finds when blocks may be replaced: what is found in the
new blocks, or what is found in the node alone. -/
def inPlace {β : Type} (new? : Block → Option (List Block)) (kept : Node → List β)
    (found : List Block → List β) : Node → List β
  | .block b => (new? b).elim (kept (.block b)) found
  | .inline x => kept (.inline x)

/-- A listing after a substitution is the listing before it with every node substituted, up to
the children of the nodes that are kept. -/
theorem Regrown.map_husk {crossing : Crossing} {us vs : List Node}
    (h : Regrown crossing (fun b answer => substituting new? b = answer) us vs) :
    vs.map Node.husk = us.flatMap (inPlace new? (fun node => [node.husk]) fun new =>
      (Block.preorder crossing new).map Node.husk) := by
  induction h with
  | nil => rfl
  | @inline x x' us vs hhusk _ ih =>
    rw [List.flatMap_cons, ← ih, List.map_cons, Node.husk, hhusk]
    rfl
  | @keep b b' us vs hanswer hhusk _ ih =>
    have hnone : new? b = none := substituting_eq_keep_iff.1 hanswer
    rw [List.flatMap_cons, ← ih, List.map_cons, Node.husk, hhusk, inPlace, hnone]
    rfl
  | @replace b new us vs hanswer _ ih =>
    have hsome : new? b = some new := substituting_eq_replace_iff.1 hanswer
    rw [List.flatMap_cons, ← ih, List.map_append, inPlace, hsome]
    rfl

/-- What is read off the nodes after a substitution, if it does not depend on their children, is
read off the nodes before it and off what replaces them. -/
theorem Regrown.filterMap_eq {crossing : Crossing} {us vs : List Node}
    (h : Regrown crossing (fun b answer => substituting new? b = answer) us vs) {β : Type}
    {read : Node → Option β} (hread : ∀ node, read node.husk = read node) :
    vs.filterMap read = us.flatMap (inPlace new? (fun node => (read node).toList) fun new =>
      (Block.preorder crossing new).filterMap read) := by
  have hhusks (nodes : List Node) :
      (nodes.map Node.husk).filterMap read = nodes.filterMap read := by
    rw [List.filterMap_map, show read ∘ Node.husk = read from funext hread]
  have hkept (node : Node) : [node.husk].filterMap read = (read node).toList := by
    rw [List.filterMap_cons, hread]
    cases read node <;> rfl
  rw [← hhusks, h.map_husk, List.filterMap_flatMap]
  congr 1
  funext node
  cases node with
  | inline x => exact hkept _
  | block b =>
    rw [inPlace, inPlace]
    cases new? b with
    | none => exact hkept _
    | some new => exact hhusks _

variable (hleaf : ∀ b new, new? b = some new → b.isLeaf = true)
include hleaf

/-- A substitution of leaves only replaces what has no children. -/
theorem suits_substituting (b : Block) : Edit.Suits b (substituting new? b) := by
  cases hnew : new? b with
  | none =>
    rw [substituting_eq_keep_iff.2 hnew]
    exact .keep b
  | some new =>
    rw [substituting_eq_replace_iff.2 hnew]
    exact .replace b new (hleaf b new hnew)

/-- The listing of blocks after a substitution of blocks without children. -/
theorem regrown_substituted (cross : Bool) (bs : List Block) :
    Regrown ⟨cross, true⟩ (fun b answer => substituting new? b = answer)
      (Block.preorder ⟨cross, true⟩ bs)
      (Block.preorder ⟨cross, true⟩ (substituted cross new? bs)) := by
  let T : ⦃α : Type⦄ → (α → Prop) → Id α → Prop := fun _ post x => post (Id.run x)
  let edit : Block → Id Edit := fun b => pure (substituting new? b)
  have hT : Asserts T := ⟨fun h => h, fun hx hf => hf _ hx⟩
  have hedit (b : Block) : T (fun answer => Edit.Suits b answer ∧ substituting new? b = answer)
      (edit b) := ⟨suits_substituting hleaf b, rfl⟩
  rw [substituted_eq_blockContent]
  exact blockContent_regrown pure hT hedit cross bs

/-- An edit that substitutes never goes into new blocks, so it needs no room for that. -/
theorem editWithin?_substituting (bound : Nat) (cross : Bool) (bs : List Block) :
    Id.run (editWithin? bound cross (fun b => pure (substituting new? b)) bs).run =
      some (substituted cross new? bs) := by
  let R : ⦃α : Type⦄ → List Block → OptionT Id α → Id α → Prop :=
    fun _ _ x y => x = pure (Id.run y)
  let edit : Block → OptionT Id Edit := fun b => OptionT.lift (pure (substituting new? b))
  let edit' : Block → Id Edit := fun b => pure (substituting new? b)
  have hR : VisitClosed R edit edit' := by
    refine ⟨fun a => rfl, ?_, fun b vs f g hfg => ?_⟩
    · rintro α β us vs x y f g rfl hfg
      exact hfg (Id.run y)
    · exact hfg (substituting new? b) (suits_substituting hleaf b)
  have hrelated := blockContent_related (childrenWithin? cross edit' bound) pure hR cross bs
  rw [substituted_eq_blockContent]
  exact congrArg (fun x => Id.run (OptionT.run x)) hrelated

/-- A walk over the blocks after a substitution. -/
theorem tags_blocks_substituted (cross : Bool) (bs : List Block) :
    (Walk.blocks (substituted cross new? bs) cross).toList.map Block.tag =
      (Walk.blocks bs cross).toList.flatMap fun b =>
        (new? b).elim [b.tag] fun new => (Walk.blocks new cross).toList.map Block.tag := by
  have hread (node : Node) : node.husk.block?.map Block.tag = node.block?.map Block.tag := by
    cases node with
    | block b => exact congrArg some b.tag_husk
    | inline x => rfl
  simp only [Walk.toList_blocks, List.map_filterMap]
  rw [(regrown_substituted hleaf cross bs).filterMap_eq hread,
    List.filterMap_eq_flatMap_toList, List.flatMap_assoc]
  congr 1
  funext node
  cases node with
  | inline x => rfl
  | block b => exact (List.append_nil _).symm

/-- A walk over all nodes after a substitution that crosses. -/
theorem map_nodes_substituted (bs : List Block) {β : Type} {read : Node → β}
    (hread : ∀ node, read node.husk = read node) :
    (Walk.nodes (substituted true new? bs)).toList.map read =
      (Walk.nodes bs).toList.flatMap (inPlace new? (fun node => [read node]) fun new =>
        (Walk.nodes new).toList.map read) := by
  have hnodes (cs : List Block) : (Walk.nodes cs).toList = Block.preorder .everywhere cs := by
    rw [Cursor.toList_eq, Walk.nodes, Walk.listing_ofBlocks, List.filterMap_some]
  have hsome (node : Node) : (some ∘ read) node.husk = (some ∘ read) node :=
    congrArg some (hread node)
  have hregrown := (regrown_substituted hleaf true bs).filterMap_eq hsome
  simp only [List.filterMap_eq_map] at hregrown
  simp only [hnodes]
  exact hregrown

end Walks

/-- An edit that replaces some blocks without children, and never asks to go on inside the new
ones, has a result.  The tags that a walk finds in it are those found before, where the tag of a
replaced block makes way for those found in the new blocks; and the same holds for a walk over all
nodes if the edit crosses, of the tags and of all that is in a node besides its children.

The result is made list by list: in a block that is kept every list of blocks is substituted in its
place, and so is every list of inlines if the edit crosses, inline by inline; otherwise these are
the same as before. -/
theorem walk_substituted (new? : Block → Option (List Block))
    (hleaf : ∀ b new, new? b = some new → b.isLeaf = true) (bound : Nat) (cross : Bool)
    (bs : List Block) :
    let result := substituted cross new? bs
    Id.run (editWithin? bound cross (fun b => pure (substituting new? b)) bs).run = some result ∧
    (Walk.blocks result cross).toList.map Block.tag =
      (Walk.blocks bs cross).toList.flatMap (fun b =>
        (new? b).elim [b.tag] fun new => (Walk.blocks new cross).toList.map Block.tag) ∧
    (cross = true →
      (Walk.nodes result).toList.map Node.tagName =
        (Walk.nodes bs).toList.flatMap (inPlace new? (fun node => [node.tagName]) fun new =>
          (Walk.nodes new).toList.map Node.tagName) ∧
      (Walk.nodes result).toList.map Node.husk =
        (Walk.nodes bs).toList.flatMap (inPlace new? (fun node => [node.husk]) fun new =>
          (Walk.nodes new).toList.map Node.husk)) ∧
    (∀ cs, substituted cross new? cs = cs.flatMap fun b =>
      (new? b).getD [b.mapParts (substituted cross new?) (substitutedInlines cross new?)]) ∧
    (∀ xs, substitutedInlines cross new? xs =
      if cross then
        xs.map (Inline.mapParts (substituted cross new?) (substitutedInlines cross new?))
      else xs) := by
  intro result
  refine ⟨editWithin?_substituting hleaf bound cross bs, tags_blocks_substituted hleaf cross bs,
    ?_, substituted_eq cross new?, substitutedInlines_eq cross new?⟩
  rintro rfl
  exact ⟨map_nodes_substituted hleaf bs Node.tagName_husk,
    map_nodes_substituted hleaf bs Node.husk_husk⟩

/-- A cell, an item and a note in which rules become two blocks and null blocks disappear. -/
theorem walk_substituted_rules :
    let new? (b : Block) : Option (List Block) :=
      match b with
      | .horizontalRule => some [.div .empty [.horizontalRule], .null]
      | .null => some []
      | _ => none
    let bs : List Block :=
      [.table [.str "t"] [.left] [] [[.horizontalRule]] [[[.null]]],
        .bulletList [[.null], [.para [.note [.horizontalRule]]]]]
    (∀ b new, new? b = some new → b.isLeaf = true) ∧
    Id.run (editWithin? 0 true (fun b => pure (substituting new? b)) bs).run =
      some (substituted true new? bs) ∧
    (Walk.blocks (substituted true new? bs) true).toList.map Block.tag =
      [.table, .div, .horizontalRule, .null, .bulletList, .para, .div, .horizontalRule, .null] ∧
    (Walk.nodes (substituted true new? bs)).toList.map Node.tagName =
      ["Table", "Str", "Div", "HorizontalRule", "Null", "BulletList", "Para", "Note", "Div",
        "HorizontalRule", "Null"] := by
  intro new? bs
  have hleaf (b : Block) (new : List Block) (h : new? b = some new) : b.isLeaf = true := by
    cases b <;> first | rfl | cases h
  obtain ⟨hresult, hblocks, hnodes, -⟩ := walk_substituted new? hleaf 0 true bs
  refine ⟨hleaf, hresult, hblocks.trans ?_, (hnodes rfl).1.trans ?_⟩
  · cbv
  · cbv

end Splice

end Transclude
