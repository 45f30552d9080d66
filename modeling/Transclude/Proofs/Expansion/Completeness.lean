import Mathlib
import Transclude.Proofs.Expansion.Equivalence
import Transclude.Proofs.Expansion.Results
import Transclude.Proofs.Walk.Occurring

/-!
# Which directives are expanded

When expansion succeeds, no directive occurs in the blocks that it ends in, wherever a block can
occur: in any container, item, definition, caption, cell or note, and in what comes from files.
The one exception is the text before and after the works in a citation.  Neither the lookup of
directives nor the edit goes there, so a directive in it stays as it is.

Main results:

- Theorem {lit}`Expansion.no_directive_occurs`: no directive is left outside of such text.
- Theorem {lit}`Expansion.directive_occurs_before_citation`: a directive in it is left.
-/

namespace Transclude

namespace Expansion

variable {σ : Type}

/-- No block of code whose first class is the marker occurs in an expanded document, in whatever
block or inline, unless it is in the text before or after a cited work. -/
theorem no_directive_occurs (options : Options) (converter : Converter (StateM σ))
    (baseDir : String) {d d' : Document} {s s' : σ}
    (hrun : StateT.run (d.expand options converter baseDir).run s = (.ok d', s')) :
    ∀ attr text, Block.codeBlock attr text ∈ Block.occurring false d'.blocks →
      attr.firstClass? ≠ some options.markerClass := by
  intro attr text hoccurs hmarker
  have hnone := directives_of_expand hrun
  rw [directives_eq, ← Block.occurring_eq_visits, textsOf_eq_nil_iff] at hnone
  have htexts : textsOf options [.codeBlock attr text] = [text] := by
    simp [textsOf, Block.code?, Options.isDirective, hmarker]
  exact absurd ((hnone _ hoccurs).symm.trans htexts) (by simp)

/-- A file whose own directive stands in the note of a link in a cell. -/
theorem no_directive_occurs_cell :
    let directive text := Block.codeBlock (.ofClasses ["include"]) text
    let included bs := Block.div (.ofClasses ["included"]) bs
    let cell bs := Block.table [] [.left] [⟨0⟩] [] [[[.plain [.link .empty [.note bs] ⟨"", ""⟩]]]]
    let converter : Converter (StateM Unit) := fun request =>
      match request.path.names with
      | ["a"] => pure (.ok ⟨[1, 17], [], [cell [directive "b"]]⟩)
      | _ => pure (.ok ⟨[1, 17], [], [.codeBlock .empty "c"]⟩)
    let d : Document := ⟨[1, 17], [], [directive "a"]⟩
    let d' : Document := ⟨[1, 17], [], [included [cell [included [.codeBlock .empty "c"]]]]⟩
    StateT.run (d.expand {} converter "").run () = (.ok d', ()) ∧
      ∀ attr text, Block.codeBlock attr text ∈ Block.occurring false d'.blocks →
        attr.firstClass? ≠ some "include" := by
  intro directive included cell converter d d'
  have hrun : StateT.run (d.expand {} converter "").run () = (.ok d', ()) := by cbv
  exact ⟨hrun, no_directive_occurs {} converter "" hrun⟩

/-- A directive in a note before a cited work is not expanded, although the file that it names
can be converted: the run succeeds, asks for no file and leaves the document as it is. -/
theorem directive_occurs_before_citation :
    let directive := Block.codeBlock (.ofClasses ["include"]) "a.md"
    let citation := Citation.mk "k" [.note [directive]] [] .normal 0 0
    let d : Document := ⟨[1, 17], [], [.para [.cite [citation] [.str "k"]]]⟩
    let converter : Converter (StateM Unit) := fun _ => pure (.ok ⟨[1, 17], [], [.null]⟩)
    StateT.run (d.expand {} converter.recording "").run ((), []) = (.ok d, ((), [])) ∧
      directive ∈ Block.occurring true d.blocks := by
  intro directive citation d converter
  refine ⟨by cbv, ?_⟩
  simp [d, citation, Block.occurring, Block.inside, Inline.occurring, Inline.inside,
    Citation.occurring]

end Expansion

end Transclude
