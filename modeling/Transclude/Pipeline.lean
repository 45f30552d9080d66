import Transclude.Include.Expansion

/-!
# Pipelines

Named steps that change a document one after the other.  A step that fails ends the run, and the
document stays as that step left it.

Main results:

- Definition {lit}`Pipeline.execute`: run all steps.
- Definition {lit}`Step.inclusion`: expansion as a step; while it fails, the document has no
  blocks.
- Theorem {lit}`Pipeline.execute_append`: a longer pipeline runs its parts in turn.
-/

namespace Transclude

/-- A named change of a document, which may fail and leave the document half changed. -/
structure Step (m : Type → Type) where
  name : String
  run : ExceptT IncludeError (StateT Document m) Unit

/-- Steps in the order in which they run. -/
structure Pipeline (m : Type → Type) where
  steps : List (Step m)

namespace Step

variable {m : Type → Type} [Monad m]

/-- Do something that knows nothing of the document. -/
def outside {α : Type} (x : ExceptT IncludeError m α) :
    ExceptT IncludeError (StateT Document m) α :=
  ExceptT.mk (StateT.lift x.run)

/-- Expand the directives of the document.  The blocks are taken out of it meanwhile, so a failed
step leaves none. -/
def inclusion (options : Options) (converter : Converter m) (baseDir : String) : Step m where
  name := "include"
  run := do
    let taken := (← get).blocks
    modify fun d => { d with blocks := [] }
    let bs ← outside (Expansion.blocks options converter baseDir taken)
    modify fun d => { d with blocks := bs }

end Step

namespace Pipeline

variable {m : Type → Type}

/-- No steps. -/
def empty : Pipeline m :=
  ⟨[]⟩

/-- Add a step at the end. -/
def push (pipeline : Pipeline m) (step : Step m) : Pipeline m :=
  ⟨pipeline.steps ++ [step]⟩

/-- Add steps at the end. -/
def extend (pipeline : Pipeline m) (steps : List (Step m)) : Pipeline m :=
  ⟨pipeline.steps ++ steps⟩

/-- How many steps there are. -/
def size (pipeline : Pipeline m) : Nat :=
  pipeline.steps.length

/-- Whether there are no steps. -/
def isEmpty (pipeline : Pipeline m) : Bool :=
  pipeline.steps.isEmpty

/-- The names of the steps. -/
def names (pipeline : Pipeline m) : List String :=
  pipeline.steps.map Step.name

/-- Run steps in order, up to the first that fails. -/
def runSteps [Monad m] : List (Step m) → ExceptT IncludeError (StateT Document m) Unit
  | [] => return ()
  | step :: steps => do
    step.run
    runSteps steps

/-- Run all steps on a document: how that ends, and what has become of the document. -/
def execute [Monad m] (pipeline : Pipeline m) (d : Document) :
    m (Except IncludeError Unit × Document) :=
  (runSteps pipeline.steps).run.run d

/-- A longer list of steps runs its parts in turn. -/
theorem runSteps_append [Monad m] [LawfulMonad m] (front back : List (Step m)) :
    runSteps (front ++ back) = (do runSteps front; runSteps back) := by
  induction front with
  | nil => simp [runSteps]
  | cons step steps ih => simp [runSteps, ih]

/-- A longer pipeline runs its parts in turn, the second on what the first has left. -/
theorem execute_append [Monad m] [LawfulMonad m] (front : Pipeline m) (back : List (Step m))
    (d : Document) :
    (front.extend back).execute d = (do
      let (outcome, left) ← front.execute d
      match outcome with
      | .ok () => execute ⟨back⟩ left
      | .error e => return (.error e, left)) := by
  simp only [execute, extend, runSteps_append, ExceptT.run_bind, StateT.run_bind]
  congr 1
  funext ⟨outcome, left⟩
  cases outcome <;> rfl

end Pipeline

end Transclude
