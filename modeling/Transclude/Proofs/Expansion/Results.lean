import Transclude.Proofs.Expansion.Failure
import Transclude.Proofs.Splice.Regrowth

/-!
# What expansion gives

Assertions on the documents that expansion can end in, whatever state it starts from.  What is
said of each included file, by the room that is left for files in it, holds of a whole run; it has
to go along with one pass over a fragment only.

Main results:

- Definition {lit}`GivesOnly`: all results of an effect have a property.
- Theorem {lit}`Expansion.givesOnly_fragment`: the listing of an expanded fragment.
- Theorem {lit}`Expansion.givesOnly_includeFile`: an induction over the files in files.
- Theorem {lit}`Expansion.givesOnly_nodes`: a property of every node of an expanded document.
- Theorem {lit}`Expansion.directives_of_expand`: no directive is left among the blocks of an
  expanded document and below them.
-/

namespace Transclude

open Splice (Asserts Regrown)

variable {σ ε : Type}

/-- All results in which an effect can end have a property. -/
def GivesOnly {α : Type} (post : α → Prop) (x : ExceptT ε (StateM σ) α) : Prop :=
  ∀ s a s', StateT.run x.run s = (.ok a, s') → post a

namespace GivesOnly

/-- What results are like is an assertion about effects. -/
theorem asserts : Asserts (m := ExceptT ε (StateM σ)) fun _ => GivesOnly where
  pure := by
    intro α post a hpost s a' s' hrun
    cases hrun
    exact hpost
  bind := by
    intro α β mid post x f hx hf s b s' hrun
    rw [run_bind] at hrun
    rcases houtcome : StateT.run x.run s with ⟨e | a, next⟩
    · rw [houtcome] at hrun
      cases hrun
    · rw [houtcome] at hrun
      exact hf a (hx s a next houtcome) next b s' hrun

/-- An error is no result. -/
theorem throw {α : Type} (post : α → Prop) (e : ε) :
    GivesOnly post (throw e : ExceptT ε (StateM σ) α) := by
  intro s a s' hrun
  cases hrun

/-- What an effect that does not fail hands on has a property. -/
theorem lift {α : Type} {post : α → Prop} {x : StateM σ α}
    (h : ∀ s a s', StateT.run x s = (a, s') → post a) :
    GivesOnly post (liftM x : ExceptT ε (StateM σ) α) := by
  intro s a s' hrun
  have hresult : Except.ok (StateT.run x s).1 = Except.ok a := congrArg Prod.fst hrun
  exact h s a _ (Prod.ext (Except.ok.inj hresult) rfl)

/-- Nothing has to be said of a result. -/
theorem trivial {α : Type} (x : ExceptT ε (StateM σ) α) : GivesOnly (fun _ => True) x :=
  fun _ _ _ _ => True.intro

end GivesOnly

namespace Expansion

variable {options : Options}

/-! ## Fragments -/

/-- What an expansion answers: a block that is no directive is kept, and a directive makes way for
blocks of some kind. -/
inductive Answered (options : Options) (slot : Block → Prop) : Block → Edit → Prop
  | keep {b : Block} (hother : textsOf options [b] = []) : Answered options slot b .keep
  | replace {attr : Attr} {text : String} {new : List Block}
    (hmarked : options.isDirective attr = true) (hnew : ∀ c ∈ new, slot c) :
    Answered options slot (.codeBlock attr text) (.replace new)

/-- The answers of a pass that inserts blocks of some kind. -/
theorem answer_answered {m : Type → Type} [Monad m] [LawfulMonad m]
    {T : ⦃α : Type⦄ → (α → Prop) → m α → Prop} (hT : Asserts T) {slot : Block → Prop}
    {insert : String → m (List Block)}
    (hinsert : ∀ text, T (fun new => ∀ c ∈ new, slot c) (insert text)) (b : Block) :
    T (fun a => Edit.Suits b a ∧ Answered options slot b a) (OnePass.answer options insert b) := by
  have hkeep (b : Block) (h : textsOf options [b] = []) :
      Edit.Suits b .keep ∧ Answered options slot b .keep := ⟨.keep b, .keep h⟩
  cases b with
  | codeBlock attr text =>
    cases hmarked : options.isDirective attr with
    | true =>
      have hanswer : OnePass.answer options insert (.codeBlock attr text) =
          insert text >>= fun new => pure (.replace new) := by
        simp [OnePass.answer, atDirective, hmarked]
      rw [hanswer]
      exact hT.map (hinsert text) fun new hnew => ⟨.replace _ new rfl, .replace hmarked hnew⟩
    | false =>
      have hanswer : OnePass.answer options insert (.codeBlock attr text) = pure .keep := by
        simp [OnePass.answer, atDirective, hmarked]
      rw [hanswer]
      exact hT.pure (hkeep _ (by simp [textsOf, Block.code?, hmarked]))
  | _ =>
    simp only [OnePass.answer, atDirective, pure_bind]
    exact hT.pure (hkeep _ rfl)

/-- A directive makes way for blocks of the kind that files are included as. -/
theorem givesOnly_directive {slot : Block → Prop} {inclusion : Inclusion (StateM σ)}
    (hinclusion : ∀ text path dialect, GivesOnly slot (inclusion text path dialect))
    (baseDir text : String) :
    GivesOnly (fun new => ∀ c ∈ new, slot c) (directive options inclusion baseDir text) :=
  GivesOnly.asserts.bind (.trivial _) fun refs _ =>
    GivesOnly.asserts.mapM (fun _ => hinclusion _ _ _) refs

/-- In the listing of an expanded fragment, each directive has made way for blocks of the kind
that files are included as. -/
theorem givesOnly_fragment {slot : Block → Prop} {inclusion : Inclusion (StateM σ)}
    (hinclusion : ∀ text path dialect, GivesOnly slot (inclusion text path dialect))
    (baseDir : String) (bs : List Block) :
    GivesOnly (fun out => Regrown .everywhere (Answered options slot)
      (Block.preorder .everywhere bs) (Block.preorder .everywhere out))
      (fragment options inclusion baseDir bs) := by
  rw [fragment_eq_blocks, OnePass.blocks_eq]
  exact Splice.blockContent_regrown pure GivesOnly.asserts
    (answer_answered GivesOnly.asserts (givesOnly_directive hinclusion baseDir)) true bs

/-! ## Files in files -/

/-- The division of a file whose blocks have a property.  The property may depend on the room for
files in it, which is one less than the room where the division stands. -/
inductive Included (options : Options) (post : Nat → List Block → Prop) : Nat → Block → Prop
  | file {room : Nat} {bs : List Block} (h : post room bs) :
    Included options post (room + 1) (container options bs)

/-- What a pass over the blocks of an acceptable document keeps up, given that it holds of the
files included in them, holds of every file. -/
theorem givesOnly_includeFile {converter : Converter (StateM σ)} {accept : Document → Prop}
    (haccept : ∀ request s document s',
      StateT.run (converter request) s = (.ok document, s') → accept document)
    {post : Nat → List Block → Prop}
    (hpass : ∀ room (inclusion : Inclusion (StateM σ)) baseDir document, accept document →
      (∀ text path dialect,
        GivesOnly (Included options post room) (inclusion text path dialect)) →
      GivesOnly (post room) (fragment options inclusion baseDir document.blocks))
    (room : Nat) (openFiles : List Path) (text : String) (path : Path) (dialect : String) :
    GivesOnly (Included options post room)
      (includeFile options converter room openFiles text path dialect) := by
  induction room generalizing openFiles text path dialect with
  | zero =>
    by_cases hopen : path ∈ openFiles
    · rw [includeFile_of_mem _ _ _ _ _ hopen]
      exact .throw _ _
    · rw [includeFile_zero _ _ _ _ hopen]
      exact .throw _ _
  | succ room ih =>
    by_cases hopen : path ∈ openFiles
    · rw [includeFile_of_mem _ _ _ _ _ hopen]
      exact .throw _ _
    · rw [includeFile_succ _ _ _ _ _ hopen]
      have hanswer : GivesOnly (fun answer => ∀ document, answer = .ok document → accept document)
          (liftM (converter ⟨path, dialect, openFiles⟩) : ExceptT IncludeError (StateM σ) _) := by
        refine .lift fun s answer s' hrun document hdocument => ?_
        subst hdocument
        exact haccept _ s document s' hrun
      refine GivesOnly.asserts.bind hanswer fun answer hanswer => ?_
      cases answer with
      | error cause => exact .throw _ _
      | ok document =>
        exact GivesOnly.asserts.map
          (hpass room _ _ document (hanswer document rfl) fun text path dialect =>
            ih _ text path dialect)
          fun bs hbs => .file hbs

/-! ## Nodes -/

/-- The listing of the division of a file is the division before the listing of the file. -/
theorem preorder_container (bs : List Block) :
    Block.preorder .everywhere [container options bs] =
      .block (container options bs) :: Block.preorder .everywhere bs := by
  simp [container, Block.preorder, Block.descendants]

/-- What holds of every node of an expanded fragment, if it holds of inlines and kept blocks
whatever becomes of their children, and of what directives make way for. -/
theorem forall_mem_of_regrown {slot : Block → Prop} {post : Node → Prop} {bs out : List Block}
    (h : Regrown .everywhere (Answered options slot) (Block.preorder .everywhere bs)
      (Block.preorder .everywhere out))
    (hinline : ∀ x x', Node.inline x ∈ Block.preorder .everywhere bs → x'.husk = x.husk →
      post (.inline x'))
    (hkeep : ∀ b b', Node.block b ∈ Block.preorder .everywhere bs → textsOf options [b] = [] →
      b'.husk = b.husk → post (.block b'))
    (hslot : ∀ c, slot c → ∀ node ∈ Block.preorder .everywhere [c], post node) :
    ∀ node ∈ Block.preorder .everywhere out, post node := by
  refine h.forall_mem hinline ?_ ?_
  · intro b b' hb hanswer
    cases hanswer with
    | keep hother => exact hkeep b b' hb hother
  · intro b new _ hanswer node hnode
    cases hanswer with
    | replace _ hnew =>
      obtain ⟨c, hc, hnode⟩ := Block.mem_preorder_iff.1 hnode
      exact hslot c (hnew c hc) node hnode

/-- A property of every node of an expanded document.  It holds of an inline or a kept block for
what that was like before the expansion, in the document or in a file; and it holds of the
divisions that files are put in. -/
theorem givesOnly_nodes {converter : Converter (StateM σ)} (pre post : Node → Prop)
    (hconverter : ∀ request s document s',
      StateT.run (converter request) s = (.ok document, s') →
        ∀ node ∈ Block.preorder .everywhere document.blocks, pre node)
    (hinline : ∀ x x', pre (.inline x) → x'.husk = x.husk → post (.inline x'))
    (hkeep : ∀ b b', pre (.block b) → textsOf options [b] = [] → b'.husk = b.husk →
      post (.block b'))
    (hcontainer : ∀ bs, post (.block (container options bs)))
    {bs : List Block} (hbs : ∀ node ∈ Block.preorder .everywhere bs, pre node)
    (baseDir : String) :
    GivesOnly (fun out => ∀ node ∈ Block.preorder .everywhere out, post node)
      (blocks options converter baseDir bs) := by
  have hpass (room : Nat) (inclusion : Inclusion (StateM σ)) (baseDir : String) (bs : List Block)
      (hbs : ∀ node ∈ Block.preorder .everywhere bs, pre node)
      (hinclusion : ∀ text path dialect, GivesOnly (Included options
        (fun _ out => ∀ node ∈ Block.preorder .everywhere out, post node) room)
        (inclusion text path dialect)) :
      GivesOnly (fun out => ∀ node ∈ Block.preorder .everywhere out, post node)
        (fragment options inclusion baseDir bs) := by
    intro s out s' hrun
    refine forall_mem_of_regrown (givesOnly_fragment hinclusion baseDir bs s out s' hrun)
      (fun x x' hx => hinline x x' (hbs _ hx)) (fun b b' hb => hkeep b b' (hbs _ hb)) ?_
    intro c hc
    cases hc with
    | file hfile =>
      rw [preorder_container]
      exact List.forall_mem_cons.2 ⟨hcontainer _, hfile⟩
  exact hpass options.maxDepth _ baseDir bs hbs fun text path dialect =>
    givesOnly_includeFile hconverter
      (fun room inclusion baseDir document hdocument =>
        hpass room inclusion baseDir document.blocks hdocument)
      options.maxDepth [] text path dialect

/-! ## Directives -/

/-- Blocks hold no directives exactly if none of them does. -/
theorem textsOf_eq_nil_iff {us : List Block} :
    textsOf options us = [] ↔ ∀ b ∈ us, textsOf options [b] = [] := by
  induction us with
  | nil => simp [textsOf]
  | cons b us ih =>
    rw [← List.singleton_append, textsOf_append, List.append_eq_nil_iff, ih,
      List.forall_mem_append, List.forall_mem_singleton]

/-- A fragment is without directives if no block of its listing is one. -/
theorem directives_eq_nil_iff {bs : List Block} :
    directives options bs = [] ↔
      ∀ b, Node.block b ∈ Block.preorder .everywhere bs → textsOf options [b] = [] := by
  have hvisits (b : Block) :
      b ∈ Block.visits true bs ↔ Node.block b ∈ Block.preorder .everywhere bs := by
    rw [Block.visits, List.mem_filterMap]
    constructor
    · rintro ⟨_ | _, hnode, hb⟩
      · cases hb
        exact hnode
      · cases hb
    · exact fun hb => ⟨_, hb, rfl⟩
  rw [directives_eq, textsOf_eq_nil_iff]
  simp only [hvisits]

/-- Whether a block is a directive does not depend on what is below it. -/
theorem textsOf_of_husk {b b' : Block} (h : b'.husk = b.husk) :
    textsOf options [b'] = textsOf options [b] := by
  have hhusk (b : Block) : textsOf options [b] = textsOf options [b.husk] := by
    cases b <;> rfl
  rw [hhusk b', h, ← hhusk b]

/-- An expanded document has no directives, neither its own nor such that come from files. -/
theorem directives_of_expand {converter : Converter (StateM σ)} {baseDir : String}
    {d d' : Document} {s s' : σ}
    (hrun : StateT.run (d.expand options converter baseDir).run s = (.ok d', s')) :
    directives options d'.blocks = [] := by
  have hexpand : GivesOnly (fun d' : Document => directives options d'.blocks = [])
      (d.expand options converter baseDir) := by
    refine GivesOnly.asserts.map (givesOnly_nodes (fun _ => True)
      (fun node => ∀ b, node = .block b → textsOf options [b] = []) ?_ ?_ ?_ ?_ ?_ baseDir)
      fun out hout => directives_eq_nil_iff.2 fun b hb => hout _ hb b rfl
    · exact fun _ _ _ _ _ _ _ => trivial
    · intro x x' _ _ b hb
      cases hb
    · intro b b' _ hother hhusk c hc
      cases hc
      rw [textsOf_of_husk hhusk, hother]
    · intro bs c hc
      cases hc
      rfl
    · exact fun _ _ => trivial
  exact hexpand s d' s' hrun

end Expansion

end Transclude
