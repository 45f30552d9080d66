import Transclude.Proofs.Expansion.OnePass
import Transclude.Proofs.Walk.Listing

/-!
# Two phases are one pass

Expansion looks up the directives of a fragment on a walk and puts their expansions in a queue;
then it edits the fragment, and each directive takes the front of the queue.  The walk and the
edit meet the directives in the same order, so each of them gets its own expansion, and the queue
is used up when the edit ends.

Main results:

- Theorem {lit}`Expansion.blocks_related`: two passes are related as what they insert.
- Theorem {lit}`Expansion.plan_then_take`: planning a queue and editing with it is inserting at
  the directives, with nothing left in the queue.
- Theorem {lit}`Expansion.fragment_eq_blocks`: the expansion of a fragment is one pass over it.
- Theorem {lit}`Expansion.fragment_related`: expansions of a fragment are related as the
  inclusions of its files.
- Theorem {lit}`Expansion.expand_related`: expansions of a document are related as the conversions
  of files.
- Theorem {lit}`Expansion.fragment_eq_onePass`: a fragment inside open files is expanded as by
  the recursion over blocks and files.
-/

namespace Transclude

namespace Expansion

/-! ## The directives of a fragment -/

/-- The texts of the directives among some blocks. -/
def textsOf (options : Options) (bs : List Block) : List String :=
  ((bs.filterMap Block.code?).filter fun code => options.isDirective code.1).map Prod.snd

/-- The directives of a fragment are those among the blocks that a crossing edit sees. -/
theorem directives_eq (options : Options) (bs : List Block) :
    directives options bs = textsOf options (Block.visits true bs) := by
  rw [directives, Walk.toList_codeBlocks, Walk.toList_blocks, textsOf, Block.visits]

theorem textsOf_append (options : Options) (us vs : List Block) :
    textsOf options (us ++ vs) = textsOf options us ++ textsOf options vs := by
  simp [textsOf]

/-- A block is a directive, and the answer to it is what is inserted for its text; or it is not
one, and the answer to it is to keep it. -/
theorem answer_cases (options : Options) (b : Block) :
    (∃ attr text, b = .codeBlock attr text ∧ textsOf options [b] = [text] ∧
      ∀ {n : Type → Type} [Monad n] [LawfulMonad n] (insert : String → n (List Block)) {β : Type}
        (f : Edit → n β), (OnePass.answer options insert b >>= f) =
          (insert text >>= fun new => f (.replace new))) ∨
    (textsOf options [b] = [] ∧
      ∀ {n : Type → Type} [Monad n] [LawfulMonad n] (insert : String → n (List Block)) {β : Type}
        (f : Edit → n β), (OnePass.answer options insert b >>= f) = f .keep) := by
  cases b with
  | codeBlock attr text =>
    cases h : options.isDirective attr with
    | true =>
      refine .inl ⟨attr, text, rfl, ?_, fun insert β f => ?_⟩
      · simp [textsOf, Block.code?, h]
      · simp [OnePass.answer, atDirective, h]
    | false =>
      refine .inr ⟨?_, fun insert β f => ?_⟩
      · simp [textsOf, Block.code?, h]
      · simp [OnePass.answer, atDirective, h]
  | _ =>
    refine .inr ⟨rfl, fun insert β f => ?_⟩
    simp [OnePass.answer, atDirective]

/-- Two passes over the same blocks are related if what they insert at the directives is, for a
relation that holds of results and of one effect after the other. -/
theorem blocks_related {m n : Type → Type} [Monad m] [LawfulMonad m] [Monad n] [LawfulMonad n]
    (options : Options) (insert : String → m (List Block)) (insert' : String → n (List Block))
    {R : ⦃α : Type⦄ → m α → n α → Prop}
    (hpure : ∀ {α : Type} (a : α), R (pure a) (pure a))
    (hbind : ∀ {α β : Type} {x : m α} {y : n α} {f : α → m β} {g : α → n β},
      R x y → (∀ a, R (f a) (g a)) → R (x >>= f) (y >>= g))
    {bs : List Block}
    (hinsert : ∀ text ∈ directives options bs, R (insert text) (insert' text)) :
    R (OnePass.blocks options insert bs) (OnePass.blocks options insert' bs) := by
  have hclosed : Splice.VisitClosed (m := m) (n := n)
      (fun _ us x y =>
        (∀ text ∈ textsOf options us, R (insert text) (insert' text)) → R x y)
      (OnePass.answer options insert) (OnePass.answer options insert') :=
    { pure := fun a _ => hpure a
      bind := by
        intro α β us vs x y f g hxy hfg htexts
        rw [textsOf_append, List.forall_mem_append] at htexts
        exact hbind (hxy htexts.1) fun a => hfg a htexts.2
      ask := by
        intro β b vs f g hfg htexts
        rw [← List.singleton_append, textsOf_append, List.forall_mem_append] at htexts
        rcases answer_cases options b with ⟨attr, text, rfl, htext, hanswer⟩ | ⟨_, hanswer⟩
        · rw [hanswer, hanswer]
          rw [htext, List.forall_mem_singleton] at htexts
          exact hbind htexts.1 fun new => hfg (.replace new) (.replace _ new rfl) htexts.2
        · rw [hanswer, hanswer]
          exact hfg .keep (.keep b) htexts.2 }
  rw [directives_eq] at hinsert
  rw [OnePass.blocks_eq, OnePass.blocks_eq]
  exact Splice.blockContent_related pure pure hclosed true bs hinsert

/-! ## Planning a queue and using it up -/

/-- The effects of an edit that takes from a queue. -/
abbrev Taking := StateT (List (List Block)) (Except IncludeError)

/-- What comes after taking from a queue gets the front, and finds the rest. -/
theorem run_takeFront_bind {β : Type} (text : String) (f : List Block → Taking β)
    (front : List Block) (queue : List (List Block)) :
    (takeFront text >>= f).run (front :: queue) = (f front).run queue := by
  simp [takeFront]

section Plan

variable {m : Type → Type} [Monad m] [LawfulMonad m] (options : Options)
  (insert : String → ExceptT IncludeError m (List Block))

/-- An effect that takes from a queue does what an inserting effect does, if the expansions of
the directives it meets are put in front of the queue.  What comes after it finds the rest of the
queue, so nothing is taken too much and nothing is left over. -/
def Takes {α : Type} (us : List Block)
    (x : Taking α) (y : ExceptT IncludeError m α) : Prop :=
  ∀ {β : Type} (k : α → Taking β) (later : List String),
    (do
      let queue ← (textsOf options us ++ later).mapM insert
      ExceptT.mk (pure ((x >>= k).run queue)) : ExceptT IncludeError m (β × List (List Block))) =
    (do
      let a ← y
      let queue ← later.mapM insert
      ExceptT.mk (pure ((k a).run queue)))

/-- Taking from a queue and inserting are related block by block. -/
theorem visitClosed_takes :
    Splice.VisitClosed (m := Taking) (n := ExceptT IncludeError m)
      (fun _ => Takes options insert) (OnePass.answer options takeFront)
      (OnePass.answer options insert) where
  pure a β k later := by
    simp [textsOf]
  bind := by
    intro α β us vs x y f g hxy hfg γ k later
    rw [textsOf_append, List.append_assoc, bind_assoc, hxy, bind_assoc]
    exact bind_congr fun a => hfg a k later
  ask := by
    intro β b vs f g hfg γ k later
    rw [← List.singleton_append, textsOf_append, List.append_assoc]
    rcases answer_cases options b with ⟨attr, text, rfl, htexts, hanswer⟩ | ⟨htexts, hanswer⟩
    · rw [htexts, List.singleton_append, List.mapM_cons, hanswer, hanswer]
      simp only [bind_assoc, pure_bind, run_takeFront_bind]
      exact bind_congr fun front => hfg (.replace front) (.replace _ front rfl) k later
    · rw [htexts, List.nil_append, hanswer, hanswer]
      exact hfg .keep (.keep b) k later

/-- Planning the expansions of all directives and editing with the queue of them is inserting
each in its place.  The edit never lacks an expansion and leaves none in the queue. -/
theorem plan_then_take (bs : List Block) :
    (do
      let queue ← (directives options bs).mapM insert
      ExceptT.mk (pure ((Splice.replaceBlocks true (atDirective options takeFront) bs).run
        queue))) = (fun out => (out, [])) <$> OnePass.blocks options insert bs := by
  have htakes := Splice.blockContent_related pure pure (visitClosed_takes options insert) true bs
    pure []
  rw [List.append_nil, ← directives_eq] at htakes
  simp only [bind_pure] at htakes
  rw [OnePass.blocks_eq, ← bind_pure_comp]
  refine htakes.trans (bind_congr fun out => ?_)
  rw [List.mapM_nil, pure_bind]
  rfl

/-- A finished outcome is changed where it is a result. -/
theorem map_mk_pure {α β : Type} (k : α → β) (r : Except IncludeError α) :
    (k <$> ExceptT.mk (pure r) : ExceptT IncludeError m β) = ExceptT.mk (pure (k <$> r)) := by
  cases r with
  | error e =>
    simp only [Functor.map, ExceptT.map, ExceptT.mk, pure_bind]
    rfl
  | ok a =>
    simp only [Functor.map, ExceptT.map, ExceptT.mk, pure_bind]
    rfl

/-- What an inserting effect does where there is no directive. -/
def Inert {α : Type} (us : List Block) (x : ExceptT IncludeError m α) (y : Id α) : Prop :=
  textsOf options us = [] → x = pure y.run

/-- Without directives nothing is inserted. -/
theorem visitClosed_inert :
    Splice.VisitClosed (m := ExceptT IncludeError m) (n := Id) (fun _ => Inert options)
      (OnePass.answer options insert) (fun _ => pure .keep) where
  pure a _ := rfl
  bind := by
    intro α β us vs x y f g hxy hfg htexts
    rw [textsOf_append, List.append_eq_nil_iff] at htexts
    rw [hxy htexts.1, pure_bind]
    exact hfg _ htexts.2
  ask := by
    intro β b vs f g hfg htexts
    rw [← List.singleton_append, textsOf_append, List.append_eq_nil_iff] at htexts
    rcases answer_cases options b with ⟨attr, text, rfl, htext, _⟩ | ⟨_, hanswer⟩
    · rw [htext] at htexts
      simp at htexts
    · rw [hanswer]
      exact hfg .keep (.keep b) htexts.2

/-- Blocks without directives are rebuilt as they are. -/
theorem blocks_eq_pure {bs : List Block} (h : directives options bs = []) :
    OnePass.blocks options insert bs = pure bs := by
  rw [directives_eq] at h
  rw [OnePass.blocks_eq, Splice.blockContent_related pure pure (visitClosed_inert options insert)
    true bs h, Splice.blockContent_keep]
  rfl

/-- The expansion of a fragment, by a queue or not at all, is one pass over it. -/
theorem fragment_eq_blocks (inclusion : Inclusion m) (baseDir : String) (bs : List Block) :
    fragment options inclusion baseDir bs =
      OnePass.blocks options (directive options inclusion baseDir) bs := by
  unfold fragment
  cases htexts : directives options bs with
  | nil => rw [blocks_eq_pure options _ htexts]; simp
  | cons text texts =>
    have hplan := plan_then_take options (directive options inclusion baseDir) bs
    have hfill : OnePass.blocks options (directive options inclusion baseDir) bs =
        (do
          let queue ← (directives options bs).mapM (directive options inclusion baseDir)
          ExceptT.mk (pure (fill options queue bs))) := by
      have hfst := congrArg (Prod.fst <$> ·) hplan
      simp only [Functor.map_map, id_map', map_bind, map_mk_pure] at hfst
      exact hfst.symm
    rw [hfill, htexts, List.mapM_cons]
    simp only [bind_assoc, pure_bind]
    rfl

end Plan

/-! ## Related fragments -/

/-- Expansions of the same fragment are related if the inclusions of files are, for a relation
that holds of finished outcomes and of one effect after the other. -/
theorem fragment_related {m n : Type → Type} [Monad m] [LawfulMonad m] [Monad n] [LawfulMonad n]
    (options : Options) {inclusion : Inclusion m} {inclusion' : Inclusion n}
    {R : ⦃α : Type⦄ → ExceptT IncludeError m α → ExceptT IncludeError n α → Prop}
    (hdone : ∀ {α : Type} (r : Except IncludeError α),
      R (ExceptT.mk (pure r)) (ExceptT.mk (pure r)))
    (hbind : ∀ {α β : Type} {x : ExceptT IncludeError m α} {y : ExceptT IncludeError n α}
      {f : α → ExceptT IncludeError m β} {g : α → ExceptT IncludeError n β},
      R x y → (∀ a, R (f a) (g a)) → R (x >>= f) (y >>= g))
    (hinclusion : ∀ text path dialect,
      R (inclusion text path dialect) (inclusion' text path dialect))
    (baseDir : String) (bs : List Block) :
    R (fragment options inclusion baseDir bs) (fragment options inclusion' baseDir bs) := by
  have hpure : ∀ {α : Type} (a : α), R (pure a) (pure a) := fun a => hdone (.ok a)
  rw [fragment_eq_blocks, fragment_eq_blocks]
  refine blocks_related options _ _ hpure hbind fun text _ => ?_
  refine hbind (hdone _) fun refs => ?_
  induction refs with
  | nil => exact hpure []
  | cons ref refs ih =>
    rw [List.mapM_cons, List.mapM_cons]
    exact hbind (hinclusion text _ _) fun b => hbind ih fun bs => hpure (b :: bs)

/-! ## Files in files -/

section Files

variable {m : Type → Type} [Monad m] (options : Options) (converter : Converter m)
  (text dialect : String)

/-- A file that is open is not included again, whether there is room or not. -/
theorem includeFile_of_mem [LawfulMonad m] (room : Nat) {openFiles : List Path} {path : Path}
    (h : path ∈ openFiles) :
    includeFile options converter room openFiles text path dialect =
      throw (.cycle (openFiles ++ [path])) := by
  cases room with
  | zero =>
    rw [includeFile, if_pos h]
    simp
  | succ room =>
    rw [includeFile, if_pos h]
    simp

/-- Without room no file is included. -/
theorem includeFile_zero {openFiles : List Path} {path : Path} (h : path ∉ openFiles) :
    includeFile options converter 0 openFiles text path dialect =
      throw (.depthExceeded options.maxDepth path) := by
  rw [includeFile, if_neg h]

/-- With room a file that is not open is converted, and what it becomes is expanded with the file
open. -/
theorem includeFile_succ (room : Nat) {openFiles : List Path} {path : Path}
    (h : path ∉ openFiles) :
    includeFile options converter (room + 1) openFiles text path dialect = (do
      match ← converter ⟨path, dialect, openFiles⟩ with
      | .error cause => throw (.convert path text cause)
      | .ok document =>
        let bs ← fragment options (includeFile options converter room (openFiles ++ [path]))
          path.parent.toText document.blocks
        return container options bs) := by
  rw [includeFile]
  exact if_neg h

end Files

/-! ## Related files -/

section Related

variable {m n : Type → Type} [Monad m] [LawfulMonad m] [Monad n] [LawfulMonad n]
  (options : Options) {converter : Converter m} {converter' : Converter n}
  {R : ⦃α : Type⦄ → ExceptT IncludeError m α → ExceptT IncludeError n α → Prop}
  (hdone : ∀ {α : Type} (r : Except IncludeError α),
    R (ExceptT.mk (pure r)) (ExceptT.mk (pure r)))
  (hbind : ∀ {α β : Type} {x : ExceptT IncludeError m α} {y : ExceptT IncludeError n α}
    {f : α → ExceptT IncludeError m β} {g : α → ExceptT IncludeError n β},
    R x y → (∀ a, R (f a) (g a)) → R (x >>= f) (y >>= g))
  (hconverter : ∀ request, R (liftM (converter request)) (liftM (converter' request)))

include hdone hbind hconverter

/-- Inclusions of the same file are related if all conversions are, for a relation that holds of
finished outcomes and of one effect after the other. -/
theorem includeFile_related (room : Nat) (openFiles : List Path) (text : String) (path : Path)
    (dialect : String) :
    R (includeFile options converter room openFiles text path dialect)
      (includeFile options converter' room openFiles text path dialect) := by
  induction room generalizing openFiles text path dialect with
  | zero =>
    by_cases hopen : path ∈ openFiles
    · rw [includeFile_of_mem _ _ _ _ _ hopen, includeFile_of_mem _ _ _ _ _ hopen]
      exact hdone (.error _)
    · rw [includeFile_zero _ _ _ _ hopen, includeFile_zero _ _ _ _ hopen]
      exact hdone (.error _)
  | succ room ih =>
    by_cases hopen : path ∈ openFiles
    · rw [includeFile_of_mem _ _ _ _ _ hopen, includeFile_of_mem _ _ _ _ _ hopen]
      exact hdone (.error _)
    · rw [includeFile_succ _ _ _ _ _ hopen, includeFile_succ _ _ _ _ _ hopen]
      refine hbind (hconverter _) fun answer => ?_
      cases answer with
      | error cause => exact hdone (.error _)
      | ok document =>
        refine hbind ?_ fun bs => hdone (.ok _)
        exact fragment_related options hdone hbind (ih _) _ _

/-- Expansions of the same document are related if all conversions are. -/
theorem expand_related (baseDir : String) (d : Document) :
    R (d.expand options converter baseDir) (d.expand options converter' baseDir) :=
  hbind
    (fragment_related options hdone hbind
      (includeFile_related options hdone hbind hconverter options.maxDepth []) baseDir d.blocks)
    fun _ => hdone (.ok _)

end Related

/-! ## One pass over blocks and files -/

/-- A fragment inside open files is expanded as by the recursion over blocks and files.  The open
files and the room for more add up to the greatest depth. -/
theorem fragment_eq_onePass {m : Type → Type} [Monad m] [LawfulMonad m] (options : Options)
    (converter : Converter m) (room : Nat) (openFiles : List Path)
    (hroom : openFiles.length + room = options.maxDepth) (baseDir : String) (bs : List Block) :
    fragment options (includeFile options converter room openFiles) baseDir bs =
      onePass options converter openFiles baseDir bs := by
  rw [fragment_eq_blocks, onePass]
  congr 1
  funext text
  apply bind_congr
  intro refs
  congr 1
  funext ref
  by_cases hopen : Path.resolve baseDir ref.path ∈ openFiles
  · rw [includeFile_of_mem options converter text _ room hopen]
    simp only [if_pos hopen]
  cases room with
  | zero =>
    have hfull : options.maxDepth ≤ openFiles.length := by omega
    rw [includeFile_zero options converter text _ hopen]
    simp only [if_neg hopen, dif_pos hfull]
  | succ room =>
    have hfree : ¬ options.maxDepth ≤ openFiles.length := by omega
    have hlength : (openFiles ++ [Path.resolve baseDir ref.path]).length + room =
        options.maxDepth := by
      rw [List.length_append, List.length_singleton]
      omega
    rw [includeFile_succ options converter text _ room hopen]
    simp only [if_neg hopen, dif_neg hfree]
    apply bind_congr
    intro outcome
    cases outcome with
    | error cause => rfl
    | ok document => simp only [fragment_eq_onePass options converter room _ hlength]

end Expansion

end Transclude
