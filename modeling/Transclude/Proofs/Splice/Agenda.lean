import Transclude.Proofs.Splice.Calls
import Transclude.Proofs.Splice.Children

/-!
# The agenda of an edit

An edit as it is seen from the function that it asks.  Some blocks are on the agenda, the next one
first.  The function is asked about that one, and its answer puts the children of some blocks in
its place: those of the block itself if it is kept, and those of the new blocks if these are gone
into.  Neither the new blocks nor what is put in place without being gone into get on the agenda.
A block that is given back changed, for its children to be seen next, is gone into as the only new
block.

Main results:

- Definition {lit}`Edit.entered`: the blocks whose children an answer puts on the agenda.
- Definition {lit}`Splice.Asks`: some calls in a row, and what is left of the agenda after them.
- Theorem {lit}`Splice.Asks.unique`: calls that use up an agenda are determined by it.
- Theorem {lit}`Splice.Asks.perm`: which blocks are asked about.
- Theorem {lit}`Splice.blockContent_follows`: an edit goes through the agenda of its blocks.
-/

namespace Transclude

/-- The blocks whose children are seen next. -/
def Edit.entered (b : Block) : Edit → List Block
  | .keep => [b]
  | .replace _ => []
  | .descend new => new

namespace Splice

variable {σ ε : Type}

/-! ## Calls in a row -/

/-- What an answer puts on the agenda in place of the block that it is about. -/
def nextUp (cross : Bool) (b : Block) (answer : Edit) : List Block :=
  (answer.entered b).flatMap (Block.children cross)

/-- Some calls in a row, from an agenda and a state: the calls, what is left of the agenda unless
the last call fails, and the state after them. -/
inductive Asks (cross : Bool) (edit : Block → ExceptT ε (StateM σ) Edit) :
    List Block → σ → List (Call ε) → Except ε (List Block) → σ → Prop
  | none (us : List Block) (s : σ) : Asks cross edit us s [] (.ok us) s
  | answered {b : Block} {us : List Block} {s s₁ s' : σ} {answer : Edit} {calls : List (Call ε)}
    {left : Except ε (List Block)} (hanswer : StateT.run (edit b).run s = (.ok answer, s₁))
    (hrest : Asks cross edit (nextUp cross b answer ++ us) s₁ calls left s') :
    Asks cross edit (b :: us) s ((b, .ok answer) :: calls) left s'
  | failed {b : Block} {us : List Block} {s s' : σ} {e : ε}
    (hfails : StateT.run (edit b).run s = (.error e, s')) :
    Asks cross edit (b :: us) s [(b, .error e)] (.error e) s'

namespace Asks

variable {cross : Bool} {edit : Block → ExceptT ε (StateM σ) Edit} {us vs : List Block}
  {s s' s'' : σ} {calls calls' : List (Call ε)} {left left' : Except ε (List Block)}

/-- Blocks at the end of the agenda are left there. -/
theorem append (h : Asks cross edit us s calls left s') (vs : List Block) :
    Asks cross edit (us ++ vs) s calls (left.map (· ++ vs)) s' := by
  induction h with
  | none us s => exact .none (us ++ vs) s
  | @answered b us s s₁ s' answer calls left hanswer _ ih =>
    rw [List.append_assoc] at ih
    exact .answered hanswer ih
  | failed hfails => exact .failed hfails

/-- Calls go on with what is left of the agenda. -/
theorem trans (h : Asks cross edit us s calls (.ok vs) s')
    (h' : Asks cross edit vs s' calls' left s'') :
    Asks cross edit us s (calls ++ calls') left s'' := by
  generalize hvs : Except.ok vs = before at h
  induction h with
  | none us s =>
    cases hvs
    exact h'
  | answered hanswer _ ih => exact .answered hanswer (ih h' hvs)
  | failed _ => cases hvs

/-- Calls that use up the agenda, or fail, are determined by the agenda and the state. -/
theorem unique (h : Asks cross edit us s calls left s') (h' : Asks cross edit us s calls' left' s'')
    (hleft : ∀ b rest, left ≠ .ok (b :: rest)) (hleft' : ∀ b rest, left' ≠ .ok (b :: rest)) :
    calls = calls' ∧ left = left' ∧ s' = s'' := by
  induction h generalizing calls' with
  | none us s =>
    cases h' with
    | none => exact ⟨rfl, rfl, rfl⟩
    | answered | failed => exact absurd rfl (hleft _ _)
  | @answered b us s s₁ s' answer calls left hanswer _ ih =>
    cases h' with
    | none => exact absurd rfl (hleft' _ _)
    | answered hanswer' hrest' =>
      cases hanswer.symm.trans hanswer'
      obtain ⟨rfl, hsame⟩ := ih hrest' hleft
      exact ⟨rfl, hsame⟩
    | failed hfails' => cases hanswer.symm.trans hfails'
  | failed hfails =>
    cases h' with
    | none => exact absurd rfl (hleft' _ _)
    | answered hanswer' _ => cases hfails.symm.trans hanswer'
    | failed hfails' =>
      cases hfails.symm.trans hfails'
      exact ⟨rfl, rfl, rfl⟩

end Asks

/-- What a call puts on the agenda. -/
def Call.nextUp (cross : Bool) : Call ε → List Block
  | (b, .ok answer) => Splice.nextUp cross b answer
  | (_, .error _) => []

/-- Every block that is asked about is one of the first agenda or one that an earlier call has put
on it, and each of these is asked about once, unless it is left or the edit fails before. -/
theorem Asks.perm {cross : Bool} {edit : Block → ExceptT ε (StateM σ) Edit} {us : List Block}
    {s s' : σ} {calls : List (Call ε)} {left : Except ε (List Block)}
    (h : Asks cross edit us s calls left s') :
    ∃ unseen, (calls.map Prod.fst ++ unseen).Perm (us ++ calls.flatMap (Call.nextUp cross)) ∧
      ∀ vs, left = .ok vs → unseen = vs := by
  induction h with
  | none us s => exact ⟨us, by simp, fun vs hvs => Except.ok.inj hvs⟩
  | @answered b us s s₁ s' answer calls left hanswer _ ih =>
    obtain ⟨unseen, hperm, hleft⟩ := ih
    refine ⟨unseen, ?_, hleft⟩
    rw [List.map_cons, List.flatMap_cons, List.cons_append, List.cons_append, List.perm_cons]
    refine hperm.trans ?_
    rw [← List.append_assoc]
    exact (List.perm_append_comm.append_right _)
  | @failed b us s s' e hfails =>
    exact ⟨us, by simp [Call.nextUp], fun vs hvs => nomatch hvs⟩

/-! ## Edits -/

section Follows

variable {m n : Type → Type} [Monad m] [Monad n]

/-- A relation between effects, indexed by the agenda that both of them go through, is closed under
doing nothing, under doing one thing after the other, and under asking about a block when every
answer leads to related effects.  It has to be given for going into low blocks, and only such
blocks have to be gone into by an answer. -/
structure AgendaClosed (cross : Bool) (Low : Block → Prop)
    (R : ⦃α : Type⦄ → List Block → m α → n α → Prop) (edit : Block → m Edit)
    (edit' : Block → n Edit) (below : Block → m Block) (below' : Block → n Block) : Prop where
  pure : ∀ {α : Type} (a : α), R [] (pure a) (pure a)
  bind : ∀ {α β : Type} {us vs : List Block} {x : m α} {y : n α} {f : α → m β} {g : α → n β},
    R us x y → (∀ a, R vs (f a) (g a)) → R (us ++ vs) (x >>= f) (y >>= g)
  ask : ∀ {β : Type} (b : Block) {vs : List Block} {f : Edit → m β} {g : Edit → n β},
    (∀ answer, (∀ c ∈ answer.entered b, Low c) →
      R (nextUp cross b answer ++ vs) (f answer) (g answer)) →
    R (b :: vs) (edit b >>= f) (edit' b >>= g)
  below : ∀ c, Low c → R (c.children cross) (below c) (below' c)

namespace AgendaClosed

variable {cross : Bool} {Low : Block → Prop} {R : ⦃α : Type⦄ → List Block → m α → n α → Prop}
  {edit : Block → m Edit} {edit' : Block → n Edit} {below : Block → m Block}
  {below' : Block → n Block}

/-- Related effects stay related when the same is made of their results. -/
theorem map (hR : AgendaClosed cross Low R edit edit' below below') {α β : Type} {us : List Block}
    {x : m α} {y : n α} (k : α → β) (h : R us x y) :
    R us (x >>= fun a => Pure.pure (k a)) (y >>= fun a => Pure.pure (k a)) := by
  have hstep := hR.bind h fun a => hR.pure (k a)
  rwa [List.append_nil] at hstep

/-- Related effects one after the other, of whose results the same is made. -/
theorem map₂ (hR : AgendaClosed cross Low R edit edit' below below') {α β γ : Type}
    {us vs : List Block} {x : m α} {y : n α} {x' : m β} {y' : n β} (k : α → β → γ) (h : R us x y)
    (h' : R vs x' y') :
    R (us ++ vs) (x >>= fun a => x' >>= fun b => Pure.pure (k a b))
      (y >>= fun a => y' >>= fun b => Pure.pure (k a b)) :=
  hR.bind h fun a => hR.map (k a) h'

/-- Low blocks are gone into one after the other. -/
theorem mapM_below [LawfulMonad m] [LawfulMonad n]
    (hR : AgendaClosed cross Low R edit edit' below below') (new : List Block)
    (hnew : ∀ c ∈ new, Low c) :
    R (new.flatMap (Block.children cross)) (new.mapM below) (new.mapM below') := by
  induction new with
  | nil =>
    rw [List.mapM_nil, List.mapM_nil]
    exact hR.pure []
  | cons c new ih =>
    obtain ⟨hc, hnew⟩ := List.forall_mem_cons.1 hnew
    rw [List.mapM_cons, List.mapM_cons, List.flatMap_cons]
    exact hR.map₂ (fun c new => c :: new) (hR.below c hc) (ih hnew)

end AgendaClosed

variable {Low : Block → Prop} {R : ⦃α : Type⦄ → List Block → m α → n α → Prop}
  {edit : Block → m Edit} {edit' : Block → n Edit} {below : Block → m Block}
  {below' : Block → n Block}

-- One theorem for each function of the edit, by recursion over the tree.  Every case says what is
-- on the agenda when the children of a node are seen.
mutual

/-- Two edits of the children of a block go through them alike. -/
theorem blockChildren_follows [LawfulMonad m] [LawfulMonad n] {cross : Bool}
    (hR : AgendaClosed cross Low R edit edit' below below') :
    ∀ b : Block, R (b.children cross) (blockChildren below cross edit b)
      (blockChildren below' cross edit' b)
  | .plain content => hR.map Block.plain (inlineContent_follows hR content)
  | .para content => hR.map Block.para (inlineContent_follows hR content)
  | .lineBlock lines => hR.map Block.lineBlock (lineContents_follows hR lines)
  | .codeBlock attr text => hR.pure (Block.codeBlock attr text)
  | .rawBlock format text => hR.pure (Block.rawBlock format text)
  | .blockQuote content => hR.map Block.blockQuote (blockContent_follows hR content)
  | .orderedList numbering items =>
    hR.map (Block.orderedList numbering) (itemContents_follows hR items)
  | .bulletList items => hR.map Block.bulletList (itemContents_follows hR items)
  | .definitionList items => hR.map Block.definitionList (definitionContents_follows hR items)
  | .header level attr content =>
    hR.map (Block.header level attr) (inlineContent_follows hR content)
  | .horizontalRule => hR.pure Block.horizontalRule
  | .table caption alignments widths headers rows => by
    rw [Block.children, List.append_assoc]
    apply hR.bind (inlineContent_follows hR caption)
    intro caption
    exact hR.map₂ (fun headers rows => Block.table caption alignments widths headers rows)
      (itemContents_follows hR headers) (rowContents_follows hR rows)
  | .div attr content => hR.map (Block.div attr) (blockContent_follows hR content)
  | .null => hR.pure Block.null

/-- Two edits of the same blocks go through their agenda alike. -/
theorem blockContent_follows [LawfulMonad m] [LawfulMonad n] {cross : Bool}
    (hR : AgendaClosed cross Low R edit edit' below below') :
    ∀ bs : List Block, R bs (blockContent below cross edit bs) (blockContent below' cross edit' bs)
  | [] => hR.pure []
  | b :: bs => by
    apply hR.ask b
    intro answer hlow
    cases answer with
    | keep =>
      rw [nextUp, Edit.entered, List.flatMap_singleton]
      exact hR.map₂ (fun b bs => b :: bs) (blockChildren_follows hR b) (blockContent_follows hR bs)
    | replace new => exact hR.map (fun bs => new ++ bs) (blockContent_follows hR bs)
    | descend new =>
      exact hR.map₂ (fun new bs => new ++ bs) (hR.mapM_below new hlow) (blockContent_follows hR bs)

/-- So do edits of the items of a list, or of the cells of a row. -/
theorem itemContents_follows [LawfulMonad m] [LawfulMonad n] {cross : Bool}
    (hR : AgendaClosed cross Low R edit edit' below below') :
    ∀ items : List (List Block), R items.flatten (itemContents below cross edit items)
      (itemContents below' cross edit' items)
  | [] => hR.pure []
  | item :: items =>
    hR.map₂ (fun item items => item :: items) (blockContent_follows hR item)
      (itemContents_follows hR items)

/-- So do edits of the rows of a table. -/
theorem rowContents_follows [LawfulMonad m] [LawfulMonad n] {cross : Bool}
    (hR : AgendaClosed cross Low R edit edit' below below') :
    ∀ rows : List (List (List Block)), R (rows.flatMap List.flatten)
      (rowContents below cross edit rows) (rowContents below' cross edit' rows)
  | [] => hR.pure []
  | row :: rows => by
    rw [List.flatMap_cons]
    exact hR.map₂ (fun row rows => row :: rows) (itemContents_follows hR row)
      (rowContents_follows hR rows)

/-- So do edits of a definition list. -/
theorem definitionContents_follows [LawfulMonad m] [LawfulMonad n] {cross : Bool}
    (hR : AgendaClosed cross Low R edit edit' below below') :
    ∀ items : List Definition, R (items.flatMap (Definition.children cross))
      (definitionContents below cross edit items) (definitionContents below' cross edit' items)
  | [] => hR.pure []
  | .mk term definitions :: items => by
    rw [List.flatMap_cons, Definition.children, List.append_assoc]
    apply hR.bind (inlineContent_follows hR term)
    intro term
    exact hR.map₂ (fun definitions items => Definition.mk term definitions :: items)
      (itemContents_follows hR definitions) (definitionContents_follows hR items)

/-- Edits that cross go alike through the nearest blocks below an inline. -/
theorem inlineChildren_follows [LawfulMonad m] [LawfulMonad n]
    (hR : AgendaClosed true Low R edit edit' below below') :
    ∀ x : Inline, R x.nearest (inlineChildren below true edit x)
      (inlineChildren below' true edit' x)
  | .str text => hR.pure (Inline.str text)
  | .emph content => hR.map Inline.emph (inlineContent_follows hR content)
  | .strong content => hR.map Inline.strong (inlineContent_follows hR content)
  | .strikeout content => hR.map Inline.strikeout (inlineContent_follows hR content)
  | .superscript content => hR.map Inline.superscript (inlineContent_follows hR content)
  | .subscript content => hR.map Inline.subscript (inlineContent_follows hR content)
  | .smallCaps content => hR.map Inline.smallCaps (inlineContent_follows hR content)
  | .quoted kind content => hR.map (Inline.quoted kind) (inlineContent_follows hR content)
  | .cite citations content => hR.map (Inline.cite citations) (inlineContent_follows hR content)
  | .code attr text => hR.pure (Inline.code attr text)
  | .space => hR.pure Inline.space
  | .softBreak => hR.pure Inline.softBreak
  | .lineBreak => hR.pure Inline.lineBreak
  | .math kind text => hR.pure (Inline.math kind text)
  | .rawInline format text => hR.pure (Inline.rawInline format text)
  | .link attr content target =>
    hR.map (fun content => Inline.link attr content target) (inlineContent_follows hR content)
  | .image attr content target =>
    hR.map (fun content => Inline.image attr content target) (inlineContent_follows hR content)
  | .note content => hR.map Inline.note (blockContent_follows hR content)
  | .span attr content => hR.map (Inline.span attr) (inlineContent_follows hR content)

/-- So they do with running text; without crossing nothing is on the agenda. -/
theorem inlineContent_follows [LawfulMonad m] [LawfulMonad n] : ∀ {cross : Bool}
    (_ : AgendaClosed cross Low R edit edit' below below') (xs : List Inline),
    R (if cross then Inline.nearestOf xs else []) (inlineContent below cross edit xs)
      (inlineContent below' cross edit' xs)
  | true, hR, [] => hR.pure []
  | false, hR, [] => hR.pure []
  | false, hR, x :: xs => hR.pure (x :: xs)
  | true, hR, x :: xs => by
    rw [if_pos rfl, Inline.nearestOf]
    exact hR.map₂ (fun x xs => x :: xs) (inlineChildren_follows hR x) (inlineContent_follows hR xs)

/-- So they do with the lines of a line block. -/
theorem lineContents_follows [LawfulMonad m] [LawfulMonad n] : ∀ {cross : Bool}
    (_ : AgendaClosed cross Low R edit edit' below below') (lines : List (List Inline)),
    R (if cross then lines.flatMap Inline.nearestOf else []) (lineContents below cross edit lines)
      (lineContents below' cross edit' lines)
  | true, hR, [] => hR.pure []
  | false, hR, [] => hR.pure []
  | true, hR, line :: lines => by
    rw [if_pos rfl, List.flatMap_cons]
    exact hR.map₂ (fun line lines => line :: lines) (inlineContent_follows hR line)
      (lineContents_follows hR lines)
  | false, hR, line :: lines =>
    hR.map₂ (fun line lines => line :: lines) (inlineContent_follows hR line)
      (lineContents_follows hR lines)

end

end Follows

end Splice

end Transclude
