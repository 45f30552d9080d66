import Transclude.Pipeline
import Transclude.Proofs.Expansion.Equivalence

/-!
# Pipelines that include files

A step of inclusion and the expansion of a document are two ways to the same blocks.  The step takes
the blocks out of the document and puts the expanded ones in; the expansion makes a new document.
Both have the same effects, and a step that fails leaves the document without blocks.

Main results:

- Definition {lit}`Pipeline.ofAdditions`: a pipeline that is put together by additions.
- Theorem {lit}`Step.run_inclusion`: a step of inclusion is an expansion.
- Theorem {lit}`Pipeline.execute_expanders`: a pipeline of inclusions is one expansion after the
  other.
- Theorem {lit}`Pipeline.execute_in_turn`: how a pipeline with inclusions runs, whatever its other
  steps are.
-/

namespace Transclude

/-! ## Inclusion as a step -/

/-- What an inclusion is set up with. -/
structure Expander (m : Type → Type) where
  options : Options
  converter : Converter m
  baseDir : String

namespace Expander

variable {m : Type → Type} [Monad m]

/-- The expansion of a document. -/
def expand (x : Expander m) (d : Document) : ExceptT IncludeError m Document :=
  d.expand x.options x.converter x.baseDir

/-- The expansions of a document, one after the other. -/
def expandAll (xs : List (Expander m)) (d : Document) : ExceptT IncludeError m Document :=
  xs.foldlM (fun d x => expand x d) d

/-- The expansion as a step of a pipeline. -/
def step (x : Expander m) : Step m :=
  .inclusion x.options x.converter x.baseDir

/-- The same inclusion with a converter that also writes down what it is asked for. -/
def recording {σ : Type} (x : Expander (StateM σ)) : Expander (StateM (σ × List Request)) :=
  { x with converter := x.converter.recording }

end Expander

namespace Step

variable {m : Type → Type} [Monad m]

/-- What knows nothing of the document leaves it as it is. -/
theorem run_outside {α : Type} (x : ExceptT IncludeError m α) (d : Document) :
    (outside x).run.run d = do return (← x.run, d) :=
  rfl

variable [LawfulMonad m]

/-- A step of inclusion does to a document what the expansion does.  If that fails, the document
is left without blocks, with the version and the metadata that it had. -/
theorem run_inclusion (x : Expander m) (d : Document) :
    x.step.run.run.run d = do
      match ← (x.expand d).run with
      | .ok d' => return (.ok (), d')
      | .error e => return (.error e, { d with blocks := [] }) := by
  have hget : (get : ExceptT IncludeError (StateT Document m) Document).run.run d =
      pure (.ok d, d) :=
    pure_bind _ _
  have hmodify : ∀ (f : Document → Document) (left : Document),
      (modify f : ExceptT IncludeError (StateT Document m) Unit).run.run left =
        pure (.ok (), f left) :=
    fun _ _ => pure_bind _ _
  simp only [Expander.step, inclusion, Expander.expand, Document.expand, ExceptT.run_bind,
    StateT.run_bind, hget, hmodify, run_outside, pure_bind, bind_assoc]
  congr 1
  funext outcome
  cases outcome with
  | ok bs => simp only [hmodify, ExceptT.run_pure, pure_bind]
  | error e => simp only [StateT.run_pure, pure_bind]

end Step

/-! ## Pipelines of steps -/

namespace Pipeline

section Steps

variable {m : Type → Type}

/-- A call that adds to a pipeline. -/
inductive Addition (m : Type → Type) where
  | push (step : Step m)
  | extend (steps : List (Step m))

/-- The steps that a call adds. -/
def Addition.steps : Addition m → List (Step m)
  | .push step => [step]
  | .extend steps => steps

/-- A pipeline after a call that adds to it. -/
def add (pipeline : Pipeline m) : Addition m → Pipeline m
  | .push step => pipeline.push step
  | .extend steps => pipeline.extend steps

/-- The pipeline after calls that add to the empty one. -/
def ofAdditions (additions : List (Addition m)) : Pipeline m :=
  additions.foldl add empty

/-- A call adds its steps at the end. -/
theorem add_eq_extend (pipeline : Pipeline m) (addition : Addition m) :
    pipeline.add addition = pipeline.extend addition.steps := by
  cases addition <;> rfl

/-- Calls add their steps in the order of the calls. -/
theorem foldl_add (pipeline : Pipeline m) (additions : List (Addition m)) :
    additions.foldl add pipeline = pipeline.extend (additions.flatMap Addition.steps) := by
  induction additions generalizing pipeline with
  | nil => simp [extend]
  | cons addition additions ih =>
    rw [List.foldl_cons, ih, add_eq_extend, extend, extend, extend, List.flatMap_cons,
      List.append_assoc]

/-- A pipeline has the steps of its additions, in their order. -/
theorem ofAdditions_eq (additions : List (Addition m)) :
    ofAdditions additions = ⟨additions.flatMap Addition.steps⟩ :=
  foldl_add empty additions

variable [Monad m]

/-- The first step of a pipeline is done first, and the others on what it has left. -/
theorem execute_cons (step : Step m) (steps : List (Step m)) (d : Document) :
    execute ⟨step :: steps⟩ d = do
      match ← step.run.run.run d with
      | (.ok (), left) => execute ⟨steps⟩ left
      | (.error e, left) => return (.error e, left) := by
  simp only [execute, runSteps, ExceptT.run_bind, StateT.run_bind]
  congr 1
  funext result
  obtain ⟨_ | _, left⟩ := result <;> rfl

variable [LawfulMonad m]

/-- A pipeline that begins with an inclusion goes on with the expanded document.  If the expansion
fails, the pipeline ends, and the document is left without blocks. -/
theorem execute_inclusion_cons (x : Expander m) (steps : List (Step m)) (d : Document) :
    execute ⟨x.step :: steps⟩ d = do
      match ← (x.expand d).run with
      | .ok d' => execute ⟨steps⟩ d'
      | .error e => return (.error e, { d with blocks := [] }) := by
  rw [execute_cons, Step.run_inclusion, bind_assoc]
  congr 1
  funext outcome
  cases outcome <;> simp only [pure_bind]

/-- A pipeline of inclusions does what the expansions do one after the other.  If one of them
fails, the document is left without blocks, with the version and the metadata that it had before
the first. -/
theorem execute_expanders (xs : List (Expander m)) (d : Document) :
    execute ⟨xs.map Expander.step⟩ d = do
      match ← (Expander.expandAll xs d).run with
      | .ok d' => return (.ok (), d')
      | .error e => return (.error e, { d with blocks := [] }) := by
  -- Expansions change the blocks only, so what is left of a document without blocks is the same.
  suffices ∀ bs : List Block, execute ⟨xs.map Expander.step⟩ { d with blocks := bs } = do
      match ← (Expander.expandAll xs { d with blocks := bs }).run with
      | .ok d' => return (.ok (), d')
      | .error e => return (.error e, { d with blocks := [] }) from this d.blocks
  induction xs with
  | nil =>
    intro bs
    simp only [Expander.expandAll, List.map_nil, List.foldlM_nil, ExceptT.run_pure, pure_bind]
    rfl
  | cons x xs ih =>
    intro bs
    rw [List.map_cons, execute_inclusion_cons, Expander.expandAll, List.foldlM_cons]
    simp only [Expander.expand, Document.expand, ExceptT.run_bind, bind_assoc]
    congr 1
    funext outcome
    cases outcome with
    | ok bs' =>
      simp only [ExceptT.run_pure, pure_bind]
      exact ih bs'
    | error e => simp only [pure_bind]

end Steps

/-! ## Whole runs -/

variable {σ : Type}

/-- However a pipeline is put together, it runs the steps of its additions in their order: the
front ones first, and then, only if these succeed, the others on the document that is left.

An inclusion in it does to the document what the expansion does, whatever state the converter is
in, and it asks the converter for the same files in the same order.  If it fails, the run ends
with its error and in the state that it leaves, whatever comes after it, and the document has no
blocks but the version and the metadata from before.  So a pipeline of inclusions is one expansion
after the other, and of a failed run no block is left. -/
theorem execute_in_turn (additions : List (Addition (StateM σ)))
    (front back : List (Step (StateM σ))) (x : Expander (StateM σ))
    (xs : List (Expander (StateM σ))) (d : Document) (s : σ) :
    ofAdditions additions = ⟨additions.flatMap Addition.steps⟩ ∧
    StateT.run (execute ⟨front ++ back⟩ d) s =
      (match StateT.run (execute ⟨front⟩ d) s with
      | ((.ok (), left), s') => StateT.run (execute ⟨back⟩ left) s'
      | ((.error e, left), s') => ((.error e, left), s')) ∧
    StateT.run (execute ⟨front ++ x.step :: back⟩ d) s =
      (match StateT.run (execute ⟨front⟩ d) s with
      | ((.error e, left), s') => ((.error e, left), s')
      | ((.ok (), left), s') =>
        match StateT.run (x.expand left).run s' with
        | (.ok left', s'') => StateT.run (execute ⟨back⟩ left') s''
        | (.error e, s'') => ((.error e, { left with blocks := [] }), s'')) ∧
    StateT.run (execute ⟨[x.recording.step]⟩ d) (s, []) =
      (match StateT.run (x.recording.expand d).run (s, []) with
      | (.ok d', s', requests) => ((.ok (), d'), s', requests)
      | (.error e, s', requests) => ((.error e, { d with blocks := [] }), s', requests)) ∧
    StateT.run (execute ⟨xs.map Expander.step⟩ d) s =
      (match StateT.run (Expander.expandAll xs d).run s with
      | (.ok d', s') => ((.ok (), d'), s')
      | (.error e, s') => ((.error e, { d with blocks := [] }), s')) := by
  have hturn : ∀ rest : List (Step (StateM σ)),
      StateT.run (execute ⟨front ++ rest⟩ d) s =
        match StateT.run (execute ⟨front⟩ d) s with
        | ((.ok (), left), s') => StateT.run (execute ⟨rest⟩ left) s'
        | ((.error e, left), s') => ((.error e, left), s') := by
    intro rest
    have happend := execute_append ⟨front⟩ rest d
    rw [extend] at happend
    rw [happend, StateT.run_bind]
    rcases StateT.run (execute ⟨front⟩ d) s with ⟨⟨_ | _, left⟩, s'⟩ <;> rfl
  refine ⟨ofAdditions_eq additions, hturn back, ?_, ?_, ?_⟩
  · rw [hturn]
    rcases StateT.run (execute ⟨front⟩ d) s with ⟨⟨_ | _, left⟩, s'⟩
    · rfl
    · dsimp only
      rw [execute_inclusion_cons, StateT.run_bind]
      rcases StateT.run (x.expand left).run s' with ⟨_ | left', s''⟩ <;> rfl
  · rw [execute_inclusion_cons, StateT.run_bind]
    rcases StateT.run (x.recording.expand d).run (s, []) with ⟨_ | d', s', requests⟩ <;> rfl
  · rw [execute_expanders, StateT.run_bind]
    rcases StateT.run (Expander.expandAll xs d).run s with ⟨_ | d', s'⟩ <;> rfl

end Pipeline

end Transclude
