import Mathlib.Data.List.Basic
import Mathlib.Data.List.Forall2
import Transclude.Text.Blank
import Transclude.Text.Split

/-!
# Lines and the blanks around them

A text without the blanks at its ends is the only part of it that has no blanks at its own ends and
only blanks around it.  The lines of a text are the pieces between its line feeds, but for the
carriage returns that belong to the ends of lines and for the empty piece after the last line; none
of this matters once the blanks around each line are gone.

Main results:

- Definition {lit}`Text.IsTrimmed`: texts without blanks at their ends.
- Theorem {lit}`Text.trim_eq_iff`: what is left of a text without the blanks at its ends.
- Definition {lit}`Text.lines`: the lines of a text.
- Theorem {lit}`Text.filter_trim_pieces`: the filled lines of a text are among its pieces.
-/

namespace Transclude.Text

/-! ## Blanks -/

/-- Nothing but blanks. -/
def AllBlank (s : List Char) : Prop :=
  ∀ c ∈ s, isBlank c = true

instance (s : List Char) : Decidable (AllBlank s) :=
  inferInstanceAs (Decidable (∀ c ∈ s, isBlank c = true))

/-- No blank stands at either end of a text. -/
structure IsTrimmed (s : List Char) : Prop where
  front : ∀ c ∈ s.head?, isBlank c = false
  back : ∀ c ∈ s.getLast?, isBlank c = false

theorem allBlank_nil : AllBlank [] :=
  List.forall_mem_nil _

/-- Blank texts are blank together. -/
theorem AllBlank.append {a b : List Char} (ha : AllBlank a) (hb : AllBlank b) :
    AllBlank (a ++ b) :=
  List.forall_mem_append.2 ⟨ha, hb⟩

theorem AllBlank.reverse {s : List Char} (h : AllBlank s) : AllBlank s.reverse :=
  fun c hc => h c (List.mem_reverse.1 hc)

/-! ## Trimming -/

/-- Blanks in front of a text that starts with none are what is removed in front. -/
theorem trimLeft_append {before s : List Char} (hbefore : AllBlank before)
    (hs : ∀ c ∈ s.head?, isBlank c = false) : trimLeft (before ++ s) = s := by
  rw [trimLeft, List.dropWhile_append_of_pos hbefore]
  cases s with
  | nil => rfl
  | cons c rest =>
    have hc : isBlank c = false := hs c rfl
    rw [List.dropWhile_cons_of_neg (by simp [hc])]

/-- Blanks after a text that ends with none are what is removed at the end. -/
theorem trimRight_append {s after : List Char} (hafter : AllBlank after)
    (hs : ∀ c ∈ s.getLast?, isBlank c = false) : trimRight (s ++ after) = s := by
  have hreversed := trimLeft_append hafter.reverse (s := s.reverse) (by simpa using hs)
  rw [trimRight, List.reverse_append]
  rw [trimLeft] at hreversed
  rw [hreversed, List.reverse_reverse]

/-- What is removed in front of a text are blanks, and what is left starts with none. -/
theorem exists_trimLeft (s : List Char) :
    ∃ before, AllBlank before ∧ s = before ++ trimLeft s ∧
      ∀ c ∈ (trimLeft s).head?, isBlank c = false := by
  refine ⟨s.takeWhile isBlank, fun c hc => List.all_eq_true.1 List.all_takeWhile c hc,
    List.takeWhile_append_dropWhile.symm, ?_⟩
  intro c hc
  have hhead := List.head?_dropWhile_not isBlank s
  rw [trimLeft] at hc
  rw [hc] at hhead
  simpa using hhead

/-- What is removed at the end of a text are blanks, and what is left ends with none. -/
theorem exists_trimRight (s : List Char) :
    ∃ after, AllBlank after ∧ s = trimRight s ++ after ∧
      ∀ c ∈ (trimRight s).getLast?, isBlank c = false := by
  obtain ⟨before, hblank, hs, hfront⟩ := exists_trimLeft s.reverse
  refine ⟨before.reverse, hblank.reverse, ?_, ?_⟩
  · have hreversed := congrArg List.reverse hs
    rwa [List.reverse_reverse, List.reverse_append] at hreversed
  · rw [trimRight, List.getLast?_reverse]
    exact hfront

/-- A text is what is left of it with blanks around. -/
theorem exists_trim (s : List Char) :
    ∃ before after, AllBlank before ∧ AllBlank after ∧ s = before ++ trim s ++ after ∧
      IsTrimmed (trim s) := by
  obtain ⟨before, hbefore, hs, hfront⟩ := exists_trimLeft s
  obtain ⟨after, hafter, hleft, hback⟩ := exists_trimRight (trimLeft s)
  refine ⟨before, after, hbefore, hafter, ?_, ?_, hback⟩
  · rw [List.append_assoc, trim, ← hleft]
    exact hs
  · -- A first character of what is left is the first one of the text without blanks in front.
    intro c hc
    apply hfront
    change (trimRight (trimLeft s)).head? = some c at hc
    rw [hleft, List.head?_append, hc]
    rfl

/-- Without the blanks at its ends a text has none there. -/
theorem isTrimmed_trim (s : List Char) : IsTrimmed (trim s) := by
  obtain ⟨_, _, _, _, _, h⟩ := exists_trim s
  exact h

/-- What is left of a text is the part of it without blanks at its ends that has blanks around. -/
theorem trim_eq_iff {s t : List Char} :
    trim s = t ↔ IsTrimmed t ∧ ∃ before after, AllBlank before ∧ AllBlank after ∧
      s = before ++ t ++ after := by
  constructor
  · rintro rfl
    obtain ⟨before, after, hbefore, hafter, hs, htrimmed⟩ := exists_trim s
    exact ⟨htrimmed, before, after, hbefore, hafter, hs⟩
  · rintro ⟨htrimmed, before, after, hbefore, hafter, rfl⟩
    rw [trim, List.append_assoc]
    cases t with
    | nil =>
      have hall : trimLeft (before ++ after) = [] := by
        have happend := trimLeft_append (hbefore.append hafter) (s := []) (by simp)
        rwa [List.append_nil] at happend
      rw [List.nil_append, hall]
      rfl
    | cons c rest =>
      rw [trimLeft_append hbefore (by simpa using htrimmed.front c rfl),
        trimRight_append hafter htrimmed.back]

/-- A text of which nothing is left is blank. -/
theorem trim_eq_nil_iff {s : List Char} : trim s = [] ↔ AllBlank s := by
  rw [trim_eq_iff]
  constructor
  · rintro ⟨_, before, after, hbefore, hafter, rfl⟩
    rw [List.append_nil]
    exact hbefore.append hafter
  · intro h
    exact ⟨⟨by simp, by simp⟩, s, [], h, allBlank_nil, by simp⟩

/-- Blanks around a text do not matter. -/
theorem trim_padded {before after : List Char} (hbefore : AllBlank before)
    (hafter : AllBlank after) (s : List Char) : trim (before ++ s ++ after) = trim s := by
  obtain ⟨front, back, hfront, hback, hs, htrimmed⟩ := exists_trim s
  refine trim_eq_iff.2 ⟨htrimmed, before ++ front, back ++ after, hbefore.append hfront,
    hback.append hafter, ?_⟩
  calc before ++ s ++ after = before ++ (front ++ trim s ++ back) ++ after := by rw [← hs]
    _ = before ++ front ++ trim s ++ (back ++ after) := by simp only [List.append_assoc]

/-- What no blank is in is not touched between what is in front of it and what follows it. -/
theorem trim_append_cons {separator : Char} (h : isBlank separator = false) (s t : List Char) :
    trim (s ++ separator :: t) = trimLeft s ++ separator :: trimRight t := by
  obtain ⟨before, hbefore, hs, hfront⟩ := exists_trimLeft s
  obtain ⟨after, hafter, ht, hback⟩ := exists_trimRight t
  refine trim_eq_iff.2 ⟨⟨?_, ?_⟩, before, after, hbefore, hafter, ?_⟩
  · intro c hc
    cases hleft : trimLeft s with
    | nil =>
      rw [hleft] at hc
      cases hc
      exact h
    | cons first rest =>
      rw [hleft] at hc hfront
      exact hfront c hc
  · intro c hc
    rcases List.eq_nil_or_concat' (trimRight t) with hright | ⟨rest, last, hright⟩
    · rw [hright] at hc
      simp only [List.getLast?_append, List.getLast?_singleton, Option.some_or,
        Option.mem_some_iff] at hc
      rw [← hc]
      exact h
    · apply hback
      have hlast : trimLeft s ++ separator :: (rest ++ [last]) =
          (trimLeft s ++ separator :: rest) ++ [last] := by simp
      rw [hright, hlast, List.getLast?_concat] at hc
      rw [hright, List.getLast?_concat]
      exact hc
  · calc s ++ separator :: t
        = (before ++ trimLeft s) ++ separator :: (trimRight t ++ after) := by rw [← hs, ← ht]
      _ = before ++ (trimLeft s ++ separator :: trimRight t) ++ after := by simp

/-- After the blanks in front the blanks at both ends are removed as before. -/
theorem trim_trimLeft (s : List Char) : trim (trimLeft s) = trim s := by
  obtain ⟨before, hbefore, hs, _⟩ := exists_trimLeft s
  have hpadded := trim_padded hbefore allBlank_nil (trimLeft s)
  rw [List.append_nil, ← hs] at hpadded
  exact hpadded.symm

/-- After the blanks at the end the blanks at both ends are removed as before. -/
theorem trim_trimRight (s : List Char) : trim (trimRight s) = trim s := by
  obtain ⟨after, hafter, hs, _⟩ := exists_trimRight s
  have hpadded := trim_padded allBlank_nil hafter (trimRight s)
  rw [List.nil_append, ← hs] at hpadded
  exact hpadded.symm

/-- Only blanks are removed, so what is left of a text was in it. -/
theorem mem_of_mem_trim {c : Char} {s : List Char} (h : c ∈ trim s) : c ∈ s := by
  obtain ⟨before, after, _, _, hs, _⟩ := exists_trim s
  rw [hs]
  simp [h]

/-! ## Lines -/

/-- The lines of a text.  A line ends at a line feed or at a carriage return with a line feed
after it, or at the end of the text, after which there is no further line. -/
def lines : List Char → List (List Char)
  | [] => []
  | '\n' :: rest => [] :: lines rest
  | '\r' :: '\n' :: rest => [] :: lines rest
  | c :: rest =>
    match lines rest with
    | [] => [[c]]
    | line :: more => (c :: line) :: more

/-- Exactly the empty text has no lines. -/
theorem lines_eq_nil_iff {s : List Char} : lines s = [] ↔ s = [] := by
  constructor
  · intro h
    fun_cases lines s with
    | case1 => rfl
    | case2 => simp [lines] at h
    | case3 => simp [lines] at h
    | case4 => simp_all [lines]
    | case5 => simp_all [lines]
  · rintro rfl
    rfl

/-- No line holds a line feed. -/
theorem not_mem_of_mem_lines {s line : List Char} (h : line ∈ lines s) : '\n' ∉ line := by
  fun_induction lines s generalizing line with
  | case1 => simp at h
  | case2 rest ih | case3 rest ih =>
    rcases List.mem_cons.1 h with rfl | h
    · exact List.not_mem_nil
    · exact ih h
  | case4 c rest hfeed hreturn hlines ih =>
    rw [List.mem_singleton.1 h, List.mem_singleton]
    exact fun hc => hfeed hc.symm
  | case5 c rest hfeed hreturn first more hlines ih =>
    rcases List.mem_cons.1 h with rfl | h
    · have hfirst : '\n' ∉ first := ih (by simp [hlines])
      rw [List.mem_cons, not_or]
      exact ⟨fun hc => hfeed hc.symm, hfirst⟩
    · exact ih (by simp [hlines, h])

/-- The pieces of a text between its line feeds are its lines, some with a carriage return at their
end, and perhaps nothing after the last line. -/
theorem forall₂_pieces_lines (s : List Char) :
    ∃ more, (more = [] ∨ more = [[]]) ∧
      List.Forall₂ (fun piece line => piece = line ∨ piece = line ++ ['\r']) (pieces '\n' s)
        (lines s ++ more) := by
  fun_induction lines s with
  | case1 => exact ⟨[[]], Or.inr rfl, .cons (Or.inl rfl) .nil⟩
  | case2 rest ih =>
    obtain ⟨more, hmore, h⟩ := ih
    exact ⟨more, hmore, .cons (Or.inl rfl) h⟩
  | case3 rest ih =>
    obtain ⟨more, hmore, h⟩ := ih
    exact ⟨more, hmore, .cons (Or.inr rfl) h⟩
  | case4 c rest hfeed hreturn hlines ih =>
    have hc : c ≠ '\n' := fun hc => hfeed hc
    rw [lines_eq_nil_iff.1 hlines, pieces, if_neg hc]
    exact ⟨[], Or.inl rfl, .cons (Or.inl rfl) .nil⟩
  | case5 c rest hfeed hreturn line more hlines ih =>
    have hc : c ≠ '\n' := fun hc => hfeed hc
    obtain ⟨end', hend, h⟩ := ih
    rw [hlines] at h
    rw [pieces, if_neg hc]
    cases hpieces : pieces '\n' rest with
    | nil => exact absurd hpieces (pieces_ne_nil '\n' rest)
    | cons piece pieces =>
      rw [hpieces] at h
      cases h with
      | cons hfirst hrest =>
        refine ⟨end', hend, .cons ?_ hrest⟩
        rcases hfirst with rfl | rfl
        · exact Or.inl rfl
        · exact Or.inr rfl

/-- The pieces of a text that are not blank are its lines that are not blank, without the blanks
around them. -/
theorem filter_trim_pieces (s : List Char) :
    ((pieces '\n' s).map trim).filter (fun line => !line.isEmpty) =
      ((lines s).filter fun line => !decide (AllBlank line)).map trim := by
  obtain ⟨more, hmore, h⟩ := forall₂_pieces_lines s
  have htrimmed : (pieces '\n' s).map trim = (lines s ++ more).map trim := by
    rw [← List.forall₂_eq_eq_eq, List.forall₂_map_left_iff, List.forall₂_map_right_iff]
    refine h.imp fun piece line hpiece => ?_
    rcases hpiece with rfl | rfl
    · rfl
    · exact trim_padded allBlank_nil (List.forall_mem_singleton.2 (by decide)) line
  have hfilled : (fun line : List Char => !line.isEmpty) ∘ trim =
      fun line => !decide (AllBlank line) := by
    funext line
    have hempty : (trim line).isEmpty = decide (AllBlank line) := by
      rw [Bool.eq_iff_iff, List.isEmpty_iff, decide_eq_true_iff, trim_eq_nil_iff]
    exact congrArg not hempty
  have hnothing : (more.map trim).filter (fun line => !line.isEmpty) = [] := by
    rcases hmore with rfl | rfl <;> rfl
  rw [htrimmed, List.map_append, List.filter_append, hnothing, List.append_nil, List.filter_map,
    hfilled]

end Transclude.Text
