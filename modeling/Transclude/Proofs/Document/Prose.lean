import Mathlib.Data.List.DropRight
import Transclude.Document.Prose

/-!
# Prose as inlines

The inlines of a text are words with single spaces between them.  Written out again they are the
text without the spaces at its ends and with one space for each run of spaces inside it, so that
nothing is lost but how many spaces there were.

Main results:

- Definition {lit}`Prose.Alternating`: words with single spaces between them.
- Definition {lit}`Prose.rendered`: words and spaces written out.
- Definition {lit}`Prose.squeezed`: a text without surplus spaces.
- Theorem {lit}`Prose.ofProse_rendered`: words and spaces that are written out are found again.
- Theorem {lit}`Prose.rendered_ofProse`: the inlines of a text are written out as the text without
  surplus spaces.
- Theorem {lit}`Prose.ofProse_tokenizes`: what the inlines of a text are, and of two texts with a
  space between them.
-/

namespace Transclude

namespace Prose

/-! ## Words -/

/-- The words of texts with a space between them are those of the one and of the other. -/
theorem words_append (s t : List Char) : words (s ++ ' ' :: t) = words s ++ words t := by
  rw [words, Text.pieces_append, List.filter_append, words, words]

/-- A space in front belongs to no word. -/
theorem words_cons_space (s : List Char) : words (' ' :: s) = words s :=
  words_append [] s

/-- A space at the end belongs to no word. -/
theorem words_concat_space (s : List Char) : words (s ++ [' ']) = words s := by
  rw [words_append]
  exact List.append_nil _

/-- Text without spaces is one word. -/
theorem words_of_not_mem {s : List Char} (hne : s ≠ []) (h : ' ' ∉ s) : words s = [s] := by
  rw [words, Text.pieces_of_not_mem h]
  simp [hne]

/-- Words with spaces between them are the words of what they are put together to. -/
theorem words_intercalate {ws : List (List Char)} (h : ∀ word ∈ ws, word ≠ [] ∧ ' ' ∉ word) :
    words ([' '].intercalate ws) = ws := by
  by_cases hws : ws = []
  · rw [hws]
    rfl
  · rw [words, Text.pieces_intercalate hws fun word hword => (h word hword).2,
      List.filter_eq_self]
    intro word hword
    simp [(h word hword).1]

/-- The characters in the pieces of a text are all but the separators. -/
theorem flatten_pieces (separator : Char) (s : List Char) :
    (Text.pieces separator s).flatten = s.filter (· != separator) := by
  induction s with
  | nil => rfl
  | cons c rest ih =>
    rw [Text.pieces]
    split
    · next hc => simpa [hc] using ih
    · next hc =>
      cases hpieces : Text.pieces separator rest with
      | nil => exact absurd hpieces (Text.pieces_ne_nil separator rest)
      | cons piece more =>
        rw [hpieces] at ih
        simpa [hc] using ih

/-- The characters in the words of a text are all but the spaces. -/
theorem flatten_words (s : List Char) : (words s).flatten = s.filter (· != ' ') := by
  rw [words, List.flatten_filter_not_isEmpty, flatten_pieces]

/-- A text has a character that is no space. -/
def HasWord (s : List Char) : Prop :=
  ∃ c ∈ s, c ≠ ' '

instance (s : List Char) : Decidable (HasWord s) :=
  List.decidableBEx (fun c => c ≠ ' ') s

/-- Exactly the texts of spaces have no words. -/
theorem words_eq_nil_iff {s : List Char} : words s = [] ↔ ¬ HasWord s := by
  have hflatten : words s = [] ↔ (words s).flatten = [] := by
    refine ⟨fun h => by rw [h]; rfl, fun h => List.eq_nil_iff_forall_not_mem.2 fun word hword => ?_⟩
    exact word_ne_nil hword (List.flatten_eq_nil_iff.1 h word hword)
  rw [hflatten, flatten_words, List.filter_eq_nil_iff]
  simp [HasWord]

/-! ## Words and spaces as inlines -/

/-- A text that is one word: it is not empty and holds no space. -/
structure IsWord (word : String) : Prop where
  ne_empty : word ≠ ""
  space_not_mem : ' ' ∉ word.toList

/-- Words with single spaces between them.  The first of such inlines and the last one are
words. -/
inductive Alternating : List Inline → Prop
  | nil : Alternating []
  | single {word : String} (h : IsWord word) : Alternating [.str word]
  | cons {word : String} {x : Inline} {xs : List Inline} (h : IsWord word)
    (hrest : Alternating (x :: xs)) : Alternating (.str word :: .space :: x :: xs)

/-- The characters of a word or of a space. -/
def characters : Inline → List Char
  | .str text => text.toList
  | .space => [' ']
  | _ => []

/-- Words and spaces written out. -/
def rendered (xs : List Inline) : String :=
  String.ofList (xs.flatMap characters)

/-- Words as inlines, with single spaces between them. -/
def spaced (ws : List (List Char)) : List Inline :=
  (ws.map fun word => Inline.str (String.ofList word)).intersperse .space

theorem ofProse_eq (text : String) : Inline.ofProse text = spaced (words text.toList) :=
  rfl

theorem spaced_cons_cons (word next : List Char) (ws : List (List Char)) :
    spaced (word :: next :: ws) =
      .str (String.ofList word) :: .space :: spaced (next :: ws) := by
  simp [spaced, List.intersperse_cons_cons]

/-- Words with spaces between them begin with the first word. -/
theorem exists_spaced_cons (word : List Char) (ws : List (List Char)) :
    ∃ xs, spaced (word :: ws) = .str (String.ofList word) :: xs := by
  cases ws with
  | nil => exact ⟨[], rfl⟩
  | cons next ws => exact ⟨_, spaced_cons_cons word next ws⟩

/-- Words on both sides of a space are words with spaces between them. -/
theorem spaced_append {ws vs : List (List Char)} (hws : ws ≠ []) (hvs : vs ≠ []) :
    spaced (ws ++ vs) = spaced ws ++ [.space] ++ spaced vs := by
  induction ws with
  | nil => exact absurd rfl hws
  | cons word ws ih =>
    cases ws with
    | nil =>
      obtain ⟨next, vs, rfl⟩ := List.exists_cons_of_ne_nil hvs
      exact spaced_cons_cons word next vs
    | cons next ws =>
      rw [List.cons_append, List.cons_append, spaced_cons_cons, spaced_cons_cons,
        ← List.cons_append, ih (List.cons_ne_nil _ _)]
      simp

/-- The inlines of words alternate between words and spaces. -/
theorem alternating_spaced {ws : List (List Char)} (h : ∀ word ∈ ws, word ≠ [] ∧ ' ' ∉ word) :
    Alternating (spaced ws) := by
  induction ws with
  | nil => exact .nil
  | cons word ws ih =>
    obtain ⟨⟨hne, hspace⟩, hws⟩ := List.forall_mem_cons.1 h
    have hword : IsWord (String.ofList word) := ⟨by simpa using hne, by simpa using hspace⟩
    cases ws with
    | nil => exact .single hword
    | cons next ws =>
      obtain ⟨xs, hxs⟩ := exists_spaced_cons next ws
      rw [spaced_cons_cons, hxs]
      exact .cons hword (hxs ▸ ih hws)

/-- The inlines of a text alternate between words and spaces. -/
theorem alternating_ofProse (text : String) : Alternating (Inline.ofProse text) :=
  alternating_spaced fun _ hword => ⟨word_ne_nil hword, space_not_mem_word hword⟩

/-- The inlines of two texts with a space between them: the space is an inline if there are words
on both sides of it. -/
theorem ofProse_append (a b : String) :
    Inline.ofProse (a ++ " " ++ b) =
      if HasWord a.toList ∧ HasWord b.toList then
        Inline.ofProse a ++ [.space] ++ Inline.ofProse b
      else Inline.ofProse a ++ Inline.ofProse b := by
  have hchars : (a ++ " " ++ b).toList = a.toList ++ ' ' :: b.toList := by simp
  rw [ofProse_eq, hchars, words_append, ofProse_eq, ofProse_eq]
  split
  · next h =>
    exact spaced_append (mt words_eq_nil_iff.1 (not_not.2 h.1))
      (mt words_eq_nil_iff.1 (not_not.2 h.2))
  · next h =>
    rcases not_and_or.1 h with ha | hb
    · rw [words_eq_nil_iff.2 ha]
      rfl
    · rw [words_eq_nil_iff.2 hb, List.append_nil]
      exact (List.append_nil _).symm

/-- A word is the only inline of its text. -/
theorem IsWord.ofProse_eq {word : String} (h : IsWord word) :
    Inline.ofProse word = [.str word] := by
  rw [Prose.ofProse_eq, words_of_not_mem (by simpa using h.ne_empty) h.space_not_mem]
  simp [spaced]

/-- A word is a text with a word in it. -/
theorem IsWord.hasWord {word : String} (h : IsWord word) : HasWord word.toList := by
  obtain ⟨c, hc⟩ := List.exists_mem_of_ne_nil word.toList (by simpa using h.ne_empty)
  exact ⟨c, hc, fun hspace => h.space_not_mem (hspace ▸ hc)⟩

/-- Alternating words and spaces that are written out are found again. -/
theorem ofProse_rendered {xs : List Inline} (h : Alternating xs) :
    Inline.ofProse (rendered xs) = xs := by
  induction h with
  | nil => rfl
  | single hword =>
    simpa [rendered, characters] using hword.ofProse_eq
  | @cons word x xs hword hrest ih =>
    have hrendered : rendered (.str word :: .space :: x :: xs) =
        word ++ " " ++ rendered (x :: xs) := by
      simp [rendered, characters, ← String.toList_inj]
    -- What is written out after the space begins with a word.
    have hnext : HasWord (rendered (x :: xs)).toList := by
      cases hrest with
      | single hnext | cons hnext _ =>
        obtain ⟨c, hc, hne⟩ := hnext.hasWord
        exact ⟨c, by simp [rendered, characters, hc], hne⟩
    rw [hrendered, ofProse_append, if_pos ⟨hword.hasWord, hnext⟩, hword.ofProse_eq, ih]
    rfl

/-! ## Surplus spaces -/

/-- A text with one space for each run of spaces. -/
def collapsed : List Char → List Char
  | [] => []
  | c :: rest => if c = ' ' ∧ rest.head? = some ' ' then collapsed rest else c :: collapsed rest

/-- A text without the spaces at its ends, and with one space for each run of spaces inside. -/
def squeezed (s : List Char) : List Char :=
  collapsed ((s.rdropWhile (· == ' ')).dropWhile (· == ' '))

/-- A word is not touched when runs of spaces are collapsed. -/
theorem collapsed_append {word : List Char} (h : ' ' ∉ word) (s : List Char) :
    collapsed (word ++ s) = word ++ collapsed s := by
  induction word with
  | nil => rfl
  | cons c word ih =>
    rw [List.mem_cons, not_or] at h
    rw [List.cons_append, collapsed, if_neg fun hc => h.1 hc.1.symm, ih h.2, List.cons_append]

/-- A run of spaces becomes one space. -/
theorem collapsed_cons_space (s : List Char) :
    collapsed (' ' :: s) = ' ' :: collapsed (s.dropWhile (· == ' ')) := by
  induction s with
  | nil => rfl
  | cons c s ih =>
    by_cases hc : c = ' '
    · subst hc
      rw [collapsed, if_pos ⟨rfl, rfl⟩, ih]
      rfl
    · rw [collapsed, if_neg (by simp [hc]), List.dropWhile_cons_of_neg (by simpa using hc)]

/-- The spaces at the end of a text belong to no word. -/
theorem words_rdropWhile (s : List Char) : words (s.rdropWhile (· == ' ')) = words s := by
  induction s using List.reverseRecOn with
  | nil => rfl
  | append_singleton s c ih =>
    by_cases hc : c = ' '
    · rw [hc, List.rdropWhile_concat_pos _ _ _ (by simp), ih, words_concat_space]
    · rw [List.rdropWhile_concat_neg _ _ _ (by simpa using hc)]

/-- No space is removed in front of a word. -/
theorem dropWhile_append_of_not_mem {word : List Char} (hne : word ≠ []) (h : ' ' ∉ word)
    (s : List Char) : (word ++ s).dropWhile (· == ' ') = word ++ s := by
  cases word with
  | nil => exact absurd rfl hne
  | cons c word =>
    rw [List.mem_cons, not_or] at h
    exact List.dropWhile_cons_of_neg (by simpa using Ne.symm h.1)

/-- The words of a text that does not end in a space, with single spaces between them. -/
theorem intercalate_words (s : List Char) (hs : s.getLast? ≠ some ' ') :
    [' '].intercalate (words s) = collapsed (s.dropWhile (· == ' ')) := by
  by_cases hmem : ' ' ∈ s
  · obtain ⟨word, rest, rfl, hword⟩ := List.eq_append_cons_of_mem hmem
    have hne : rest ≠ [] := by
      rintro rfl
      simp at hs
    have hrest : rest.getLast? ≠ some ' ' := by
      rwa [List.getLast?_append_of_ne_nil _ (List.cons_ne_nil _ _),
        List.getLast?_cons_of_ne_nil hne] at hs
    have ih := intercalate_words rest hrest
    by_cases hfront : word = []
    · rw [hfront, List.nil_append, words_cons_space, ih]
      rfl
    · -- The rest has a word, because it does not end in a space.
      have hwords : words rest ≠ [] := by
        refine mt words_eq_nil_iff.1 (not_not.2 ⟨rest.getLast hne, List.getLast_mem hne, ?_⟩)
        rintro hlast
        exact hrest (hlast ▸ List.getLast?_eq_some_getLast hne)
      obtain ⟨next, more, hnext⟩ := List.exists_cons_of_ne_nil hwords
      rw [words_append, words_of_not_mem hfront hword, dropWhile_append_of_not_mem hfront hword,
        collapsed_append hword, collapsed_cons_space, ← ih, hnext, List.singleton_append,
        List.intercalate_cons_cons, List.append_assoc, List.singleton_append]
  · by_cases hempty : s = []
    · rw [hempty]
      rfl
    · have hwhole := dropWhile_append_of_not_mem hempty hmem []
      have hcollapsed := collapsed_append hmem []
      rw [List.append_nil] at hwhole hcollapsed
      rw [words_of_not_mem hempty hmem, List.intercalate_singleton, hwhole, hcollapsed]
      exact (List.append_nil s).symm
termination_by s.length

/-- Words as inlines are written out with single spaces between them. -/
theorem toList_rendered_spaced (ws : List (List Char)) :
    (rendered (spaced ws)).toList = [' '].intercalate ws := by
  rw [rendered, String.toList_ofList]
  induction ws with
  | nil => rfl
  | cons word ws ih =>
    cases ws with
    | nil => simp [spaced, characters]
    | cons next ws =>
      rw [spaced_cons_cons, List.intercalate_cons_cons, ← ih]
      simp [characters]

/-- The inlines of a text are written out as the text without surplus spaces. -/
theorem rendered_ofProse (text : String) :
    (rendered (Inline.ofProse text)).toList = squeezed text.toList := by
  have hlast : (text.toList.rdropWhile (· == ' ')).getLast? ≠ some ' ' := by
    intro h
    have hne : text.toList.rdropWhile (· == ' ') ≠ [] := by
      intro hnil
      simp [hnil] at h
    rw [List.getLast?_eq_some_getLast hne, Option.some.injEq] at h
    exact List.rdropWhile_last_not _ _ hne (by simp [h])
  rw [ofProse_eq, toList_rendered_spaced, ← words_rdropWhile, intercalate_words _ hlast, squeezed]

/-- What is written out holds all characters of the text but the spaces, in order. -/
theorem filter_rendered_ofProse (text : String) :
    (rendered (Inline.ofProse text)).toList.filter (· != ' ') =
      text.toList.filter (· != ' ') := by
  rw [ofProse_eq, toList_rendered_spaced, ← flatten_words, ← flatten_words text.toList,
    words_intercalate fun _ hword => ⟨word_ne_nil hword, space_not_mem_word hword⟩]

/-! ## Tokenising -/

/-- What the inlines of a text are.  They alternate between words and spaces, and begin and end
with a word if there are any.  Written out they are the text without surplus spaces, so that they
hold all its other characters in order, and the inlines of what is written out are the same again.
Of two texts with a space between them, the inlines are those of both, with that space between
them if there are words on both sides of it. -/
theorem ofProse_tokenizes (text a b : String) :
    Alternating (Inline.ofProse text) ∧
    (rendered (Inline.ofProse text)).toList = squeezed text.toList ∧
    (rendered (Inline.ofProse text)).toList.filter (· != ' ') =
      text.toList.filter (· != ' ') ∧
    Inline.ofProse (rendered (Inline.ofProse text)) = Inline.ofProse text ∧
    Inline.ofProse (a ++ " " ++ b) =
      if HasWord a.toList ∧ HasWord b.toList then
        Inline.ofProse a ++ [.space] ++ Inline.ofProse b
      else Inline.ofProse a ++ Inline.ofProse b := by
  have hagain := ofProse_rendered (alternating_ofProse text)
  exact ⟨alternating_ofProse text, rendered_ofProse text, filter_rendered_ofProse text, hagain,
    ofProse_append a b⟩

example : Inline.ofProse "  a\tb   c " = [.str "a\tb", .space, .str "c"] := by cbv

end Prose

end Transclude
