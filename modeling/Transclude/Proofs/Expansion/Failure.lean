import Transclude.Proofs.Expansion.TwoPhases

/-!
# How expansion fails

A bound on the errors that an effect with a state can end in, whatever state it starts from.
Such a bound holds of a sequence of effects when it holds of each of them, and so of a pass over
blocks when it holds of what is inserted at the directives.

Main results:

- Definition {lit}`FailsOnly`: all errors of an effect are of some kind.
- Theorem {lit}`OnePass.failsOnly_blocks`: a pass fails only as its insertions fail.
- Theorem {lit}`Expansion.failsOnly_onePass`: expansion in one pass fails only for an empty
  directive, a cycle, a lack of room or a conversion.
-/

namespace Transclude

variable {σ ε : Type}

/-- What comes after a result goes on from the state it leaves; nothing comes after an error. -/
theorem run_bind {α β : Type} (x : ExceptT ε (StateM σ) α) (f : α → ExceptT ε (StateM σ) β)
    (s : σ) :
    StateT.run (x >>= f).run s =
      match StateT.run x.run s with
      | (.ok a, s') => StateT.run (f a).run s'
      | (.error e, s') => (.error e, s') := by
  cases h : StateT.run x.run s with
  | mk outcome s' =>
    simp only [StateT.run, ExceptT.run] at h ⊢
    simp only [bind, ExceptT.bind, ExceptT.mk, StateT.bind, h]
    cases outcome <;> rfl

/-- What comes after an effect that does not fail goes on from what it gives. -/
theorem run_lift_bind {α β : Type} {x : StateM σ α} {s s' : σ} {a : α}
    (h : StateT.run x s = (a, s')) (f : α → ExceptT ε (StateM σ) β) :
    StateT.run (liftM x >>= f : ExceptT ε (StateM σ) β).run s = StateT.run (f a).run s' := by
  have hlift : StateT.run (liftM x : ExceptT ε (StateM σ) α).run s =
      (.ok (StateT.run x s).1, (StateT.run x s).2) := rfl
  rw [run_bind, hlift, h]

/-- All errors in which an effect can end are of some kind. -/
def FailsOnly {α : Type} (kind : ε → Prop) (x : ExceptT ε (StateM σ) α) : Prop :=
  ∀ s e s', StateT.run x.run s = (.error e, s') → kind e

namespace FailsOnly

variable {kind : ε → Prop} {α β : Type}

/-- A value is no failure. -/
theorem pure (a : α) : FailsOnly kind (Pure.pure a : ExceptT ε (StateM σ) α) := by
  intro s e s' h
  cases h

/-- An error that is thrown is of its own kind. -/
theorem throw {e : ε} (h : kind e) : FailsOnly kind (throw e : ExceptT ε (StateM σ) α) := by
  intro s e' s' hrun
  cases hrun
  exact h

/-- An effect that does not fail fails in no way. -/
theorem lift (x : StateM σ α) : FailsOnly kind (ExceptT.lift x : ExceptT ε (StateM σ) α) := by
  intro s e s' h
  cases h

/-- Effects one after the other fail only as each of them does. -/
theorem bind {x : ExceptT ε (StateM σ) α} {f : α → ExceptT ε (StateM σ) β}
    (hx : FailsOnly kind x) (hf : ∀ a, FailsOnly kind (f a)) : FailsOnly kind (x >>= f) := by
  intro s e s' hrun
  rw [run_bind] at hrun
  rcases houtcome : StateT.run x.run s with ⟨e' | a, s₁⟩
  · rw [houtcome] at hrun
    cases hrun
    exact hx s e _ houtcome
  · rw [houtcome] at hrun
    exact hf a s₁ e s' hrun

/-- So do effects for one member of a list after the other. -/
theorem mapM {f : α → ExceptT ε (StateM σ) β} (hf : ∀ a, FailsOnly kind (f a)) (as : List α) :
    FailsOnly kind (as.mapM f) := by
  induction as with
  | nil => exact pure []
  | cons a as ih =>
    rw [List.mapM_cons]
    exact (hf a).bind fun b => ih.bind fun bs => pure (b :: bs)

end FailsOnly

/-! ## Passes over blocks -/

/-- A pass over blocks fails only as the insertions at its directives fail. -/
theorem OnePass.failsOnly_blocks {kind : IncludeError → Prop} (options : Options)
    (insert : String → ExceptT IncludeError (StateM σ) (List Block))
    (hinsert : ∀ text, FailsOnly kind (insert text)) (bs : List Block) :
    FailsOnly kind (OnePass.blocks options insert bs) := by
  -- A bound on errors is a relation to an effect that says nothing.
  exact Expansion.blocks_related (n := Id) (R := fun _ x _ => FailsOnly kind x) options insert
    (fun _ => pure []) FailsOnly.pure FailsOnly.bind fun text _ => hinsert text

/-! ## Expansion -/

namespace Expansion

/-- The errors of which expansion has a cause: the text of a directive, the open files, or the
converter. -/
inductive Caused (options : Options) : IncludeError → Prop
  | emptyDirective (baseDir : String) : Caused options (.emptyDirective baseDir)
  | convert (path : Path) (text : String) (cause : ConverterError) :
    Caused options (.convert path text cause)
  | cycle (chain : List Path) : Caused options (.cycle chain)
  | depthExceeded (path : Path) : Caused options (.depthExceeded options.maxDepth path)

/-- Expansion in one pass fails only for such a cause. -/
theorem failsOnly_onePass (options : Options) (converter : Converter (StateM σ))
    (openFiles : List Path) (baseDir : String) (bs : List Block) :
    FailsOnly (Caused options) (onePass options converter openFiles baseDir bs) := by
  rw [onePass]
  refine OnePass.failsOnly_blocks options _ (fun text => ?_) bs
  refine FailsOnly.bind ?_ fun refs => FailsOnly.mapM (fun ref => ?_) refs
  · intro s e s' hrun
    have herror : options.parseDirective baseDir text = .error e := congrArg Prod.fst hrun
    rw [((options.parseDirective_eq_error_iff baseDir text e).1 herror).2]
    exact .emptyDirective baseDir
  · simp only
    split
    · exact FailsOnly.throw (.cycle _)
    split
    · exact FailsOnly.throw (.depthExceeded _)
    refine FailsOnly.bind (FailsOnly.lift _) fun outcome => ?_
    cases outcome with
    | error cause => exact FailsOnly.throw (.convert _ text cause)
    | ok document =>
      refine FailsOnly.bind ?_ fun bs => FailsOnly.pure _
      exact failsOnly_onePass options converter _ _ document.blocks
termination_by options.maxDepth - openFiles.length
decreasing_by
  rw [List.length_append, List.length_singleton]
  omega

end Expansion

end Transclude
