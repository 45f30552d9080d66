import Transclude.Proofs.Splice.Visits

/-!
# What an edit leaves

The listing of edited blocks, told from the listing of the blocks before the edit.  Every inline
and every block that is kept is listed again, and a block that is replaced makes way for the
listing of what replaces it.  What may come out of an effect is said by an assertion, which can be
any that goes along with one effect after the other.

Main results:

- Definitions {lit}`Block.husk`, {lit}`Inline.husk`: a node without its children.
- Definition {lit}`Splice.Asserts`: assertions on the results of effects.
- Definition {lit}`Splice.Regrown`: a listing before and after an edit.
- Theorem {lit}`Splice.blockContent_regrown`: the listing of the results of an edit.
-/

namespace Transclude

/-! ## Nodes without their children -/

/-- A block without the inlines and blocks below it. -/
def Block.husk : Block → Block
  | .plain _ => .plain []
  | .para _ => .para []
  | .lineBlock _ => .lineBlock []
  | .codeBlock attr text => .codeBlock attr text
  | .rawBlock format text => .rawBlock format text
  | .blockQuote _ => .blockQuote []
  | .orderedList numbering _ => .orderedList numbering []
  | .bulletList _ => .bulletList []
  | .definitionList _ => .definitionList []
  | .header level attr _ => .header level attr []
  | .horizontalRule => .horizontalRule
  | .table _ alignments widths _ _ => .table [] alignments widths [] []
  | .div attr _ => .div attr []
  | .null => .null

/-- An inline without the inlines and blocks below it; its citations stay. -/
def Inline.husk : Inline → Inline
  | .str text => .str text
  | .emph _ => .emph []
  | .strong _ => .strong []
  | .strikeout _ => .strikeout []
  | .superscript _ => .superscript []
  | .subscript _ => .subscript []
  | .smallCaps _ => .smallCaps []
  | .quoted kind _ => .quoted kind []
  | .cite citations _ => .cite citations []
  | .code attr text => .code attr text
  | .space => .space
  | .softBreak => .softBreak
  | .lineBreak => .lineBreak
  | .math kind text => .math kind text
  | .rawInline format text => .rawInline format text
  | .link attr _ target => .link attr [] target
  | .image attr _ target => .image attr [] target
  | .note _ => .note []
  | .span attr _ => .span attr []

namespace Splice

/-! ## Assertions -/

section Asserts

variable {m : Type → Type} [Monad m]

/-- Assertions on the results of effects that go along with sequencing: a result has the
properties that are given of it, and what is said of one effect may be used for the next. -/
structure Asserts (T : ⦃α : Type⦄ → (α → Prop) → m α → Prop) : Prop where
  pure : ∀ {α : Type} {post : α → Prop} {a : α}, post a → T post (pure a)
  bind : ∀ {α β : Type} {mid : α → Prop} {post : β → Prop} {x : m α} {f : α → m β},
    T mid x → (∀ a, mid a → T post (f a)) → T post (x >>= f)

namespace Asserts

variable {T : ⦃α : Type⦄ → (α → Prop) → m α → Prop} {α β γ : Type}

/-- What is made of a result has a property if that follows from what is said of the result. -/
theorem map (hT : Asserts T) {mid : α → Prop} {post : β → Prop} {x : m α} {k : α → β}
    (hx : T mid x) (hk : ∀ a, mid a → post (k a)) : T post (x >>= fun a => Pure.pure (k a)) :=
  hT.bind hx fun a ha => hT.pure (hk a ha)

/-- Two effects one after the other, of whose results something is made. -/
theorem map₂ (hT : Asserts T) {mid : α → Prop} {mid' : β → Prop} {post : γ → Prop} {x : m α}
    {x' : m β} {k : α → β → γ} (hx : T mid x) (hx' : T mid' x')
    (hk : ∀ a b, mid a → mid' b → post (k a b)) :
    T post (x >>= fun a => x' >>= fun b => Pure.pure (k a b)) :=
  hT.bind hx fun a ha => hT.map hx' fun b hb => hk a b ha hb

/-- What is said of an effect on each member of a list holds of all results. -/
theorem mapM [LawfulMonad m] (hT : Asserts T) {post : β → Prop} {f : α → m β}
    (hf : ∀ a, T post (f a)) (as : List α) : T (fun bs => ∀ b ∈ bs, post b) (as.mapM f) := by
  induction as with
  | nil =>
    rw [List.mapM_nil]
    exact hT.pure (by simp)
  | cons a as ih =>
    rw [List.mapM_cons]
    exact hT.map₂ (hf a) ih fun b bs hb hbs => List.forall_mem_cons.2 ⟨hb, hbs⟩

end Asserts

end Asserts

/-! ## Listings before and after an edit -/

/-- A listing after an edit, next to the one before it.  Inlines and kept blocks are the same but
for their children, and a block that is replaced makes way for the listing of the new blocks. -/
inductive Regrown (crossing : Crossing) (answers : Block → Edit → Prop) :
    List Node → List Node → Prop
  | nil : Regrown crossing answers [] []
  | inline {x x' : Inline} {us vs : List Node} (hhusk : x'.husk = x.husk)
    (hrest : Regrown crossing answers us vs) :
    Regrown crossing answers (.inline x :: us) (.inline x' :: vs)
  | keep {b b' : Block} {us vs : List Node} (hanswer : answers b .keep)
    (hhusk : b'.husk = b.husk) (hrest : Regrown crossing answers us vs) :
    Regrown crossing answers (.block b :: us) (.block b' :: vs)
  | replace {b : Block} {new : List Block} {us vs : List Node} (hanswer : answers b (.replace new))
    (hrest : Regrown crossing answers us vs) :
    Regrown crossing answers (.block b :: us) (Block.preorder crossing new ++ vs)

namespace Regrown

variable {crossing : Crossing} {answers : Block → Edit → Prop}

/-- Joined listings regrow one after the other. -/
theorem append {us vs us' vs' : List Node} (h : Regrown crossing answers us vs)
    (h' : Regrown crossing answers us' vs') :
    Regrown crossing answers (us ++ us') (vs ++ vs') := by
  induction h with
  | nil => exact h'
  | inline hhusk _ ih => exact .inline hhusk ih
  | keep hanswer hhusk _ ih => exact .keep hanswer hhusk ih
  | replace hanswer _ ih =>
    rw [List.append_assoc]
    exact .replace hanswer ih

/-- What holds of inlines and kept blocks, whatever becomes of their children, and of the nodes
that replace others, holds of every node after an edit. -/
theorem forall_mem {P : Node → Prop} {us vs : List Node} (h : Regrown crossing answers us vs)
    (hinline : ∀ x x', Node.inline x ∈ us → x'.husk = x.husk → P (.inline x'))
    (hkeep : ∀ b b', Node.block b ∈ us → answers b .keep → b'.husk = b.husk → P (.block b'))
    (hreplace : ∀ b new, Node.block b ∈ us → answers b (.replace new) →
      ∀ node ∈ Block.preorder crossing new, P node) : ∀ v ∈ vs, P v := by
  induction h with
  | nil => simp
  | @inline x x' us vs hhusk _ ih =>
    refine List.forall_mem_cons.2 ⟨hinline x x' (.head _) hhusk, ih ?_ ?_ ?_⟩
    · exact fun y y' hy => hinline y y' (.tail _ hy)
    · exact fun b b' hb => hkeep b b' (.tail _ hb)
    · exact fun b new hb => hreplace b new (.tail _ hb)
  | @keep b b' us vs hanswer hhusk _ ih =>
    refine List.forall_mem_cons.2 ⟨hkeep b b' (.head _) hanswer hhusk, ih ?_ ?_ ?_⟩
    · exact fun y y' hy => hinline y y' (.tail _ hy)
    · exact fun c c' hc => hkeep c c' (.tail _ hc)
    · exact fun c new hc => hreplace c new (.tail _ hc)
  | @replace b new us vs hanswer _ ih =>
    refine List.forall_mem_append.2 ⟨hreplace b new (.head _) hanswer, ih ?_ ?_ ?_⟩
    · exact fun y y' hy => hinline y y' (.tail _ hy)
    · exact fun c c' hc => hkeep c c' (.tail _ hc)
    · exact fun c new hc => hreplace c new (.tail _ hc)

end Regrown

end Splice

/-- The blocks of joined sequences are listed one after the other. -/
theorem Block.preorder_append (crossing : Crossing) (bs cs : List Block) :
    Block.preorder crossing (bs ++ cs) =
      Block.preorder crossing bs ++ Block.preorder crossing cs := by
  induction bs with
  | nil => simp [Block.preorder]
  | cons b bs ih => simp [Block.preorder, ih]

/-- A node is listed if it is listed for one of the blocks. -/
theorem Block.mem_preorder_iff {crossing : Crossing} {bs : List Block} {node : Node} :
    node ∈ Block.preorder crossing bs ↔ ∃ b ∈ bs, node ∈ Block.preorder crossing [b] := by
  induction bs with
  | nil => simp [Block.preorder]
  | cons b bs ih =>
    rw [← List.singleton_append, Block.preorder_append, List.mem_append, ih]
    simp

namespace Splice

section Results

variable {m : Type → Type} [Monad m] {T : ⦃α : Type⦄ → (α → Prop) → m α → Prop}
  {answers : Block → Edit → Prop} {edit : Block → m Edit} (below : Block → m Block)

-- One theorem for each function of the edit, by recursion over the tree.  What is said of a node is
-- that its husk stays and that the listing below it is regrown.
mutual

/-- The listing below a block after an edit, and the block without its children. -/
theorem blockChildren_regrown (hT : Asserts T)
    (hedit : ∀ b, T (fun a => Edit.Suits b a ∧ answers b a) (edit b)) (cross : Bool) :
    ∀ b : Block, T (fun b' => b'.husk = b.husk ∧
      Regrown ⟨cross, true⟩ answers (Block.descendants ⟨cross, true⟩ b)
        (Block.descendants ⟨cross, true⟩ b')) (blockChildren below cross edit b)
  | .plain content =>
    hT.map (inlineContent_regrown hT hedit cross content) fun _ h => ⟨rfl, h⟩
  | .para content =>
    hT.map (inlineContent_regrown hT hedit cross content) fun _ h => ⟨rfl, h⟩
  | .lineBlock lines =>
    hT.map (lineContents_regrown hT hedit cross lines) fun _ h => ⟨rfl, h⟩
  | .codeBlock _ _ => hT.pure ⟨rfl, .nil⟩
  | .rawBlock _ _ => hT.pure ⟨rfl, .nil⟩
  | .blockQuote content =>
    hT.map (blockContent_regrown hT hedit cross content) fun _ h => ⟨rfl, h⟩
  | .orderedList _ items =>
    hT.map (itemContents_regrown hT hedit cross items) fun _ h => ⟨rfl, h⟩
  | .bulletList items =>
    hT.map (itemContents_regrown hT hedit cross items) fun _ h => ⟨rfl, h⟩
  | .definitionList items =>
    hT.map (definitionContents_regrown hT hedit cross items) fun _ h => ⟨rfl, h⟩
  | .header _ _ content =>
    hT.map (inlineContent_regrown hT hedit cross content) fun _ h => ⟨rfl, h⟩
  | .horizontalRule => hT.pure ⟨rfl, .nil⟩
  | .table caption _ _ headers rows => by
    apply hT.bind (inlineContent_regrown hT hedit cross caption)
    intro caption' hcaption
    apply hT.map₂ (itemContents_regrown hT hedit cross headers)
      (rowContents_regrown hT hedit cross rows)
    intro headers' rows' hheaders hrows
    exact ⟨rfl, (hcaption.append hheaders).append hrows⟩
  | .div _ content =>
    hT.map (blockContent_regrown hT hedit cross content) fun _ h => ⟨rfl, h⟩
  | .null => hT.pure ⟨rfl, .nil⟩

/-- The listing of the results of an edit, if blocks with children are kept and no new block is
gone into. -/
theorem blockContent_regrown (hT : Asserts T)
    (hedit : ∀ b, T (fun a => Edit.Suits b a ∧ answers b a) (edit b)) (cross : Bool) :
    ∀ bs : List Block, T (fun bs' =>
      Regrown ⟨cross, true⟩ answers (Block.preorder ⟨cross, true⟩ bs)
        (Block.preorder ⟨cross, true⟩ bs')) (blockContent below cross edit bs)
  | [] => hT.pure .nil
  | b :: bs => by
    apply hT.bind (hedit b)
    rintro answer ⟨hsuits, hanswer⟩
    cases hsuits with
    | keep =>
      apply hT.map₂ (blockChildren_regrown hT hedit cross b)
        (blockContent_regrown hT hedit cross bs)
      rintro b' bs' ⟨hhusk, hb⟩ hbs
      exact .keep hanswer hhusk (hb.append hbs)
    | replace new hleaf =>
      apply hT.map (blockContent_regrown hT hedit cross bs)
      intro bs' hbs
      rw [Block.preorder_append, Block.preorder, descendants_of_isLeaf hleaf]
      exact .replace hanswer hbs

/-- The listing of the items of a list, or of the cells of a row. -/
theorem itemContents_regrown (hT : Asserts T)
    (hedit : ∀ b, T (fun a => Edit.Suits b a ∧ answers b a) (edit b)) (cross : Bool) :
    ∀ items : List (List Block), T (fun items' =>
      Regrown ⟨cross, true⟩ answers (Block.preorderItems ⟨cross, true⟩ items)
        (Block.preorderItems ⟨cross, true⟩ items')) (itemContents below cross edit items)
  | [] => hT.pure .nil
  | item :: items =>
    hT.map₂ (blockContent_regrown hT hedit cross item) (itemContents_regrown hT hedit cross items)
      fun _ _ h h' => h.append h'

/-- The listing of the rows of a table. -/
theorem rowContents_regrown (hT : Asserts T)
    (hedit : ∀ b, T (fun a => Edit.Suits b a ∧ answers b a) (edit b)) (cross : Bool) :
    ∀ rows : List (List (List Block)), T (fun rows' =>
      Regrown ⟨cross, true⟩ answers (Block.preorderRows ⟨cross, true⟩ rows)
        (Block.preorderRows ⟨cross, true⟩ rows')) (rowContents below cross edit rows)
  | [] => hT.pure .nil
  | row :: rows =>
    hT.map₂ (itemContents_regrown hT hedit cross row) (rowContents_regrown hT hedit cross rows)
      fun _ _ h h' => h.append h'

/-- The listing of a definition list. -/
theorem definitionContents_regrown (hT : Asserts T)
    (hedit : ∀ b, T (fun a => Edit.Suits b a ∧ answers b a) (edit b)) (cross : Bool) :
    ∀ items : List Definition, T (fun items' =>
      Regrown ⟨cross, true⟩ answers (Definition.preorder ⟨cross, true⟩ items)
        (Definition.preorder ⟨cross, true⟩ items')) (definitionContents below cross edit items)
  | [] => hT.pure .nil
  | .mk term definitions :: items => by
    apply hT.bind (inlineContent_regrown hT hedit cross term)
    intro term' hterm
    apply hT.map₂ (itemContents_regrown hT hedit cross definitions)
      (definitionContents_regrown hT hedit cross items)
    intro definitions' items' hdefinitions hitems
    exact (hterm.append hdefinitions).append hitems

/-- The listing below an inline, if the edit crosses, and the inline without its children. -/
theorem inlineChildren_regrown (hT : Asserts T)
    (hedit : ∀ b, T (fun a => Edit.Suits b a ∧ answers b a) (edit b)) :
    ∀ x : Inline, T (fun x' => x'.husk = x.husk ∧
      Regrown ⟨true, true⟩ answers (Inline.descendants ⟨true, true⟩ x)
        (Inline.descendants ⟨true, true⟩ x')) (inlineChildren below true edit x)
  | .str _ => hT.pure ⟨rfl, .nil⟩
  | .emph content => hT.map (inlineContent_regrown hT hedit true content) fun _ h => ⟨rfl, h⟩
  | .strong content => hT.map (inlineContent_regrown hT hedit true content) fun _ h => ⟨rfl, h⟩
  | .strikeout content => hT.map (inlineContent_regrown hT hedit true content) fun _ h => ⟨rfl, h⟩
  | .superscript content =>
    hT.map (inlineContent_regrown hT hedit true content) fun _ h => ⟨rfl, h⟩
  | .subscript content => hT.map (inlineContent_regrown hT hedit true content) fun _ h => ⟨rfl, h⟩
  | .smallCaps content => hT.map (inlineContent_regrown hT hedit true content) fun _ h => ⟨rfl, h⟩
  | .quoted _ content => hT.map (inlineContent_regrown hT hedit true content) fun _ h => ⟨rfl, h⟩
  | .cite _ content => hT.map (inlineContent_regrown hT hedit true content) fun _ h => ⟨rfl, h⟩
  | .code _ _ => hT.pure ⟨rfl, .nil⟩
  | .space => hT.pure ⟨rfl, .nil⟩
  | .softBreak => hT.pure ⟨rfl, .nil⟩
  | .lineBreak => hT.pure ⟨rfl, .nil⟩
  | .math _ _ => hT.pure ⟨rfl, .nil⟩
  | .rawInline _ _ => hT.pure ⟨rfl, .nil⟩
  | .link _ content _ => hT.map (inlineContent_regrown hT hedit true content) fun _ h => ⟨rfl, h⟩
  | .image _ content _ => hT.map (inlineContent_regrown hT hedit true content) fun _ h => ⟨rfl, h⟩
  | .note content => hT.map (blockContent_regrown hT hedit true content) fun _ h => ⟨rfl, h⟩
  | .span _ content => hT.map (inlineContent_regrown hT hedit true content) fun _ h => ⟨rfl, h⟩

/-- The listing of running text, which is empty if the edit does not cross. -/
theorem inlineContent_regrown (hT : Asserts T)
    (hedit : ∀ b, T (fun a => Edit.Suits b a ∧ answers b a) (edit b)) :
    ∀ (cross : Bool) (xs : List Inline), T (fun xs' => Regrown ⟨cross, true⟩ answers
      (if cross then Inline.preorder ⟨cross, true⟩ xs else [])
      (if cross then Inline.preorder ⟨cross, true⟩ xs' else [])) (inlineContent below cross edit xs)
  | true, [] => hT.pure .nil
  | false, [] => hT.pure .nil
  | false, _ :: _ => hT.pure .nil
  | true, x :: xs => by
    apply hT.map₂ (inlineChildren_regrown hT hedit x) (inlineContent_regrown hT hedit true xs)
    rintro x' xs' ⟨hhusk, hx⟩ hxs
    exact .inline hhusk (hx.append hxs)

/-- The listing of the lines of a line block. -/
theorem lineContents_regrown (hT : Asserts T)
    (hedit : ∀ b, T (fun a => Edit.Suits b a ∧ answers b a) (edit b)) :
    ∀ (cross : Bool) (lines : List (List Inline)), T (fun lines' => Regrown ⟨cross, true⟩ answers
      (if cross then Inline.preorderLines ⟨cross, true⟩ lines else [])
      (if cross then Inline.preorderLines ⟨cross, true⟩ lines' else []))
      (lineContents below cross edit lines)
  | true, [] => hT.pure .nil
  | false, [] => hT.pure .nil
  | true, line :: lines =>
    hT.map₂ (inlineContent_regrown hT hedit true line) (lineContents_regrown hT hedit true lines)
      fun _ _ h h' => h.append h'
  | false, line :: lines =>
    hT.map₂ (inlineContent_regrown hT hedit false line) (lineContents_regrown hT hedit false lines)
      fun _ _ _ _ => .nil

end

end Results

end Splice

end Transclude
