/-!
# Splitting texts

Main results:

- Definition {lit}`Text.pieces`: a text cut at every occurrence of a character.
- Theorem {lit}`Text.not_mem_piece`: no piece holds that character.
- Theorem {lit}`Text.joined_pieces`: the pieces with the character between them are the text.
- Theorem {lit}`Text.pieces_intercalate`: parts without the character are the pieces of the text
  that they are put together to.
-/

namespace Transclude.Text

/-- Cut a text at every occurrence of a character; the pieces may be empty. -/
def pieces (separator : Char) : List Char → List (List Char)
  | [] => [[]]
  | c :: rest =>
    if c = separator then [] :: pieces separator rest
    else
      match pieces separator rest with
      | [] => [[c]]
      | piece :: more => (c :: piece) :: more

/-- There is always a piece. -/
theorem pieces_ne_nil (separator : Char) (s : List Char) : pieces separator s ≠ [] := by
  cases s with
  | nil => simp [pieces]
  | cons c rest =>
    rw [pieces]
    split
    · simp
    · split <;> simp

/-- No piece holds the separator. -/
theorem not_mem_piece {separator : Char} {s piece : List Char} (h : piece ∈ pieces separator s) :
    separator ∉ piece := by
  induction s generalizing piece with
  | nil => simp_all [pieces]
  | cons c rest ih =>
    rw [pieces] at h
    split at h
    · rcases List.mem_cons.1 h with rfl | h
      · simp
      · exact ih h
    · next hc =>
      split at h
      · simp only [List.mem_singleton] at h
        subst h
        simpa using Ne.symm hc
      · next first more hfirst =>
        rcases List.mem_cons.1 h with rfl | h
        · have hnot : separator ∉ first := ih (by simp [hfirst])
          simp [Ne.symm hc, hnot]
        · exact ih (by simp [hfirst, h])

/-- The pieces with the separator between them are the text. -/
theorem joined_pieces (separator : Char) (s : List Char) :
    [separator].intercalate (pieces separator s) = s := by
  induction s with
  | nil => rfl
  | cons c rest ih =>
    rw [pieces]
    split
    · next hc =>
      subst hc
      cases h : pieces c rest with
      | nil => exact absurd h (pieces_ne_nil c rest)
      | cons first more =>
        rw [h] at ih
        simp [List.intercalate, List.intersperse, ← ih]
    · cases h : pieces separator rest with
      | nil => exact absurd h (pieces_ne_nil separator rest)
      | cons first more =>
        rw [h] at ih
        cases more with
        | nil => simpa [List.intercalate, List.intersperse] using ih
        | cons second more => simpa [List.intercalate, List.intersperse] using ih

/-- Texts with a separator between them fall into the pieces of the one and of the other. -/
theorem pieces_append (separator : Char) (a b : List Char) :
    pieces separator (a ++ separator :: b) = pieces separator a ++ pieces separator b := by
  induction a with
  | nil => simp [pieces]
  | cons c a ih =>
    rw [List.cons_append, pieces, pieces, ih]
    split
    · rfl
    · cases h : pieces separator a with
      | nil => exact absurd h (pieces_ne_nil separator a)
      | cons piece more => rfl

/-- A text without the separator is one piece. -/
theorem pieces_of_not_mem {separator : Char} {s : List Char} (h : separator ∉ s) :
    pieces separator s = [s] := by
  induction s with
  | nil => rfl
  | cons c rest ih =>
    rw [List.mem_cons, not_or] at h
    rw [pieces, if_neg (Ne.symm h.1), ih h.2]

/-- Parts without the separator are the pieces of what they are put together to. -/
theorem pieces_intercalate {separator : Char} {parts : List (List Char)} (hne : parts ≠ [])
    (h : ∀ part ∈ parts, separator ∉ part) :
    pieces separator ([separator].intercalate parts) = parts := by
  induction parts with
  | nil => exact absurd rfl hne
  | cons part parts ih =>
    rw [List.forall_mem_cons] at h
    cases parts with
    | nil => rw [List.intercalate_singleton, pieces_of_not_mem h.1]
    | cons second more =>
      rw [List.intercalate_cons_cons, List.append_assoc, List.singleton_append, pieces_append,
        pieces_of_not_mem h.1, ih (List.cons_ne_nil _ _) h.2, List.singleton_append]

end Transclude.Text
