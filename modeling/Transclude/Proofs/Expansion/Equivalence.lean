import Transclude.Proofs.Expansion.Failure

/-!
# Expansion is one recursion

The expansion of a document, which plans each fragment and then edits it, is the recursion that
rebuilds the blocks in document order and includes the files of a directive where it meets it.

Main results:

- Definition {lit}`Converter.recording`: a converter that writes down what it is asked for.
- Theorem {lit}`Expansion.expand_eq_onePass`: both have the same outcome, ask the converter for
  the same files in the same order, and use up every queue exactly.
-/

namespace Transclude

variable {σ : Type}

/-- The converter that also writes down what it is asked for. -/
def Converter.recording (converter : Converter (StateM σ)) :
    Converter (StateM (σ × List Request)) :=
  fun request (s, requests) =>
    let (outcome, s') := StateT.run (converter request) s
    (outcome, s', requests ++ [request])

/-- Expand the blocks of a document by the recursion over blocks and files. -/
def Document.expandOnePass {m : Type → Type} [Monad m] (options : Options)
    (converter : Converter m) (baseDir : String) (d : Document) :
    ExceptT IncludeError m Document := do
  let bs ← Expansion.onePass options converter [] baseDir d.blocks
  return { d with blocks := bs }

namespace Expansion

/-- Expansion with queues and expansion in one pass are the same effect, whatever the monad. -/
theorem expand_eq {m : Type → Type} [Monad m] [LawfulMonad m] (options : Options)
    (converter : Converter m) (baseDir : String) (d : Document) :
    d.expand options converter baseDir = d.expandOnePass options converter baseDir := by
  rw [Document.expand, Document.expandOnePass, blocks,
    fragment_eq_onePass options converter options.maxDepth [] (by simp) baseDir d.blocks]

/-- The expansion of a document is the recursion over blocks and files, for a converter with any
state: both end in the same document or the same error and leave the same state, and they make
the same calls of the converter in the same order.  In every fragment, at whatever level, the
edit that follows the planning never lacks an expansion and leaves none in the queue, and the
error for a directive without an expansion never arises. -/
theorem expand_eq_onePass (options : Options) (converter : Converter (StateM σ))
    (baseDir : String) (d : Document) :
    d.expand options converter baseDir = d.expandOnePass options converter baseDir ∧
    (∀ s, StateT.run (d.expand options converter.recording baseDir).run (s, []) =
      StateT.run (d.expandOnePass options converter.recording baseDir).run (s, [])) ∧
    (∀ (inclusion : Inclusion (StateM σ)) (dir : String) (bs : List Block),
      (do
        let queue ← (directives options bs).mapM (directive options inclusion dir)
        ExceptT.mk (pure ((Splice.replaceBlocks true (atDirective options takeFront) bs).run
          queue))) =
        (fun out => (out, [])) <$> OnePass.blocks options (directive options inclusion dir) bs) ∧
    (∀ s text, (StateT.run (d.expand options converter baseDir).run s).1 ≠
      .error (.unplannedDirective text)) := by
  refine ⟨expand_eq options converter baseDir d, fun s => ?_, fun inclusion dir bs => ?_,
    fun s text hrun => ?_⟩
  · rw [expand_eq]
  · exact plan_then_take options (directive options inclusion dir) bs
  · have hfails : FailsOnly (Caused options) (d.expandOnePass options converter baseDir) :=
      (failsOnly_onePass options converter [] baseDir d.blocks).bind fun bs => FailsOnly.pure _
    rw [expand_eq] at hrun
    have hcaused := hfails s (.unplannedDirective text) _ (Prod.ext hrun rfl)
    cases hcaused

end Expansion

end Transclude
