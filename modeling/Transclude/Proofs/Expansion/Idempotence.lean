import Mathlib
import Transclude.Proofs.Expansion.Equivalence
import Transclude.Proofs.Expansion.Results

/-!
# Expansion is idempotent

An expanded document has no directives, so there is nothing for a second expansion to do: the
document stays as it is, and no file is asked for.

Main results:

- Theorem {lit}`Expansion.fragment_eq_pure`: a fragment without directives stays as it is.
- Theorem {lit}`Expansion.expand_expanded`: a second expansion gives the same document.
-/

namespace Transclude

namespace Expansion

/-- The marker alone decides which blocks are directives. -/
theorem directives_of_marker {options options' : Options}
    (h : options'.markerClass = options.markerClass) (bs : List Block) :
    directives options' bs = directives options bs := by
  simp only [directives, Options.isDirective, h]

/-- A fragment without directives stays as it is, and no file is included. -/
theorem fragment_eq_pure {m : Type → Type} [Monad m] [LawfulMonad m] {options : Options}
    (inclusion : Inclusion m) (baseDir : String) {bs : List Block}
    (h : directives options bs = []) : fragment options inclusion baseDir bs = pure bs := by
  simp [fragment, h]

/-- A document without directives stays as it is. -/
theorem expand_eq_pure {m : Type → Type} [Monad m] [LawfulMonad m] {options : Options}
    (converter : Converter m) (baseDir : String) {d : Document}
    (h : directives options d.blocks = []) : d.expand options converter baseDir = pure d := by
  rw [Document.expand, blocks, fragment_eq_pure _ baseDir h, pure_bind]

variable {σ τ : Type}

/-- The document that an expansion ends in is expanded to itself, without any call of the
converter.  The second expansion may use another converter, another base directory and any options
of the same marker. -/
theorem expand_expanded (options options' : Options)
    (hmarker : options'.markerClass = options.markerClass) (converter : Converter (StateM σ))
    (converter' : Converter (StateM τ)) (baseDir baseDir' : String) {d d' : Document} {s s' : σ}
    (hrun : StateT.run (d.expand options converter baseDir).run s = (.ok d', s')) (t : τ) :
    StateT.run (d'.expand options' converter'.recording baseDir').run (t, []) =
      (.ok d', (t, [])) := by
  have hdirectives : directives options' d'.blocks = [] := by
    rw [directives_of_marker hmarker, directives_of_expand hrun]
  rw [expand_eq_pure _ baseDir' hdirectives]
  rfl

/-- Files that bring in a block of code, a division of the class that inclusion uses, and further
directives in a note and in a table cell.  The second expansion allows no open file, and its
converter knows no file. -/
theorem expand_expanded_nested :
    let directive text := Block.codeBlock (.ofClasses ["include"]) text
    let included bs := Block.div (.ofClasses ["included"]) bs
    let cell bs := Block.table [] [.left] [⟨0⟩] [] [[bs]]
    let converter : Converter (StateM Unit) := fun request =>
      match request.path.names with
      | ["a"] => pure (.ok ⟨[1, 17], [], [.para [.note [directive "b"]], included [.null]]⟩)
      | ["b"] => pure (.ok ⟨[1, 17], [], [.codeBlock (.ofClasses ["code", "include"]) "c"]⟩)
      | _ => pure (.error (.notFound ""))
    let converter' : Converter (StateM Nat) := fun _ calls =>
      (.error (.notFound ""), calls + 1)
    let options' : Options := { maxDepth := 0, separator := '|', containerClass := "include" }
    let d : Document := ⟨[1, 17], [], [cell [directive "a\nb"]]⟩
    let b := included [.codeBlock (.ofClasses ["code", "include"]) "c"]
    let d' : Document := ⟨[1, 17], [], [cell [included [.para [.note [b]], included [.null]], b]]⟩
    StateT.run (d.expand {} converter "").run () = (.ok d', ()) ∧
      StateT.run (d'.expand options' converter'.recording "/").run (0, []) = (.ok d', (0, [])) := by
  intro directive included cell converter converter' options' d b d'
  have hrun : StateT.run (d.expand {} converter "").run () = (.ok d', ()) := by cbv
  exact ⟨hrun, expand_expanded {} options' rfl converter converter' "" "/" hrun 0⟩

end Expansion

end Transclude
