import Transclude.Document.Basic
import Transclude.Text.Split

/-!
# Prose

Plain text as running inlines: words with single spaces between them.

Main results:

- Definition {lit}`Prose.words`: the maximal runs of characters other than the space.
- Definition {lit}`Inline.ofProse`: the words of a text as inlines.
- Theorem {lit}`Prose.space_not_mem_word`: no word holds a space.
-/

namespace Transclude

namespace Prose

/-- The maximal runs of characters other than the space. -/
def words (s : List Char) : List (List Char) :=
  (Text.pieces ' ' s).filter fun piece => !piece.isEmpty

/-- No word holds a space. -/
theorem space_not_mem_word {s word : List Char} (h : word ∈ words s) : ' ' ∉ word :=
  Text.not_mem_piece (List.mem_filter.1 h).1

/-- No word is empty. -/
theorem word_ne_nil {s word : List Char} (h : word ∈ words s) : word ≠ [] := by
  have := (List.mem_filter.1 h).2
  simp_all

end Prose

/-- The words of a text, with single spaces between them. -/
def Inline.ofProse (text : String) : List Inline :=
  ((Prose.words text.toList).map fun word => Inline.str (String.ofList word)).intersperse .space

end Transclude
