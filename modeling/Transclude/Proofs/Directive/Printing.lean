import Mathlib.Data.List.TakeWhile
import Transclude.Include.Directive
import Transclude.Proofs.Text.Lines

/-!
# How directives are written

A directive may be written in many ways: with blanks around the path and around the dialect, with
blank lines anywhere, with either kind of line end, and without the dialect where the default one
is meant.  Reading takes all of these back to the references, and takes every text for one of them.

Main results:

- Definition {lit}`Options.LineSpells`: a line that refers to a file, or to none.
- Definition {lit}`Options.Spells`: a text whose lines refer to files, in their order.
- Theorem {lit}`Options.lineSpells_iff`, {lit}`Options.spells_iff`: lines and texts spell exactly
  the references that are read from them.
- Theorem {lit}`Options.parseDirective_iff_spells`: directives are read as they are written.
-/

namespace Transclude

open Text

namespace Options

/-! ## Written lines -/

/-- Blanks without a line feed. -/
def IsPadding (s : List Char) : Prop :=
  AllBlank s ∧ '\n' ∉ s

/-- A part of a line, without blanks at its ends and without a line feed. -/
structure IsPart (s : List Char) : Prop where
  trimmed : IsTrimmed s
  oneLine : '\n' ∉ s

/-- A part of a line with blanks around it. -/
def Padded (part s : List Char) : Prop :=
  ∃ before after, IsPadding before ∧ IsPadding after ∧ s = before ++ part ++ after

variable (options : Options)

/-- A line that refers to a file, or a blank line.  The path comes first and holds no separator;
it is followed by a separator and the dialect.  Where the default dialect is meant, nothing needs
to stand after the separator, and behind a path the separator is not needed either. -/
inductive LineSpells : List Reference → List Char → Prop
  | blank {s : List Char} (hs : IsPadding s) : LineSpells [] s
  | full {path dialect s t : List Char} (hpath : IsPart path) (hfree : options.separator ∉ path)
    (hdialect : IsPart dialect) (hne : dialect ≠ []) (hs : Padded path s)
    (ht : Padded dialect t) :
    LineSpells [⟨String.ofList path, String.ofList dialect⟩] (s ++ options.separator :: t)
  | unnamed {path s t : List Char} (hpath : IsPart path) (hfree : options.separator ∉ path)
    (hs : Padded path s) (ht : IsPadding t) :
    LineSpells [⟨String.ofList path, options.defaultDialect⟩] (s ++ options.separator :: t)
  | alone {path s : List Char} (hpath : IsPart path) (hfree : options.separator ∉ path)
    (hne : path ≠ []) (hs : Padded path s) :
    LineSpells [⟨String.ofList path, options.defaultDialect⟩] s

/-- A text whose lines refer to files.  Lines end in a line feed, or in a carriage return and a
line feed; the last line ends with the text. -/
inductive Spells : List Reference → List Char → Prop
  | last {refs : List Reference} {line : List Char} (h : LineSpells options refs line) :
    Spells refs line
  | more {refs refs' : List Reference} {line lineEnd rest : List Char}
    (h : LineSpells options refs line) (hend : lineEnd = ['\n'] ∨ lineEnd = ['\r', '\n'])
    (hrest : Spells refs' rest) : Spells (refs ++ refs') (line ++ lineEnd ++ rest)

/-- A reference that can be written: its parts have no blanks at their ends and no line feeds, the
path holds no separator, and there is a dialect. -/
structure IsPrintable (ref : Reference) : Prop where
  path : IsPart ref.path.toList
  free : options.separator ∉ ref.path.toList
  dialect : IsPart ref.dialect.toList
  named : ref.dialect ≠ ""

/-- A reference in the form in which references are read: there are no blanks at the ends of its
parts and no separator in the path, and the dialect is the default one unless another is named. -/
structure IsTidy (ref : Reference) : Prop where
  path : IsTrimmed ref.path.toList
  free : options.separator ∉ ref.path.toList
  dialect : ref.dialect = options.defaultDialect ∨
    IsTrimmed ref.dialect.toList ∧ ref.dialect ≠ ""

/-- References, one in a line. -/
def printed (refs : List Reference) : String :=
  "\n".intercalate
    (refs.map fun ref => ref.path ++ String.singleton options.separator ++ ref.dialect)

/-! ## Padding -/

theorem isPadding_nil : IsPadding [] :=
  ⟨allBlank_nil, List.not_mem_nil⟩

/-- A part stands between blanks that are none. -/
theorem padded_self (part : List Char) : Padded part part :=
  ⟨[], [], isPadding_nil, isPadding_nil, by simp⟩

/-- What is left of a line without the blanks at its ends is a part of it. -/
theorem isPart_trim {s : List Char} (h : '\n' ∉ s) : IsPart (trim s) :=
  ⟨isTrimmed_trim s, fun hmem => h (mem_of_mem_trim hmem)⟩

/-- A line is what is left of it with blanks around. -/
theorem padded_trim {s : List Char} (h : '\n' ∉ s) : Padded (trim s) s := by
  obtain ⟨before, after, hbefore, hafter, hs, _⟩ := exists_trim s
  rw [hs, List.mem_append, List.mem_append, not_or, not_or] at h
  exact ⟨before, after, ⟨hbefore, h.1.1⟩, ⟨hafter, h.2⟩, hs⟩

/-- The part is what is left without the blanks around it. -/
theorem Padded.trim_eq {part s : List Char} (h : Padded part s) (hpart : IsPart part) :
    trim s = part := by
  obtain ⟨before, after, hbefore, hafter, hs⟩ := h
  exact trim_eq_iff.2 ⟨hpart.trimmed, before, after, hbefore.1, hafter.1, hs⟩

theorem Padded.oneLine {part s : List Char} (h : Padded part s) (hpart : IsPart part) :
    '\n' ∉ s := by
  obtain ⟨before, after, hbefore, hafter, rfl⟩ := h
  simp [hbefore.2, hafter.2, hpart.oneLine]

/-- A separator that is no blank is not among the blanks around a part. -/
theorem Padded.free {options : Options} (hsep : isBlank options.separator = false)
    {part s : List Char} (h : Padded part s) (hfree : options.separator ∉ part) :
    options.separator ∉ s := by
  obtain ⟨before, after, hbefore, hafter, rfl⟩ := h
  have hblank : ∀ {t}, IsPadding t → options.separator ∉ t := by
    intro t ht hmem
    rw [ht.1 _ hmem] at hsep
    contradiction
  simp [hblank hbefore, hblank hafter, hfree]

/-! ## One line -/

/-- A line has one reference unless it is blank. -/
theorem references_line {s : List Char} (h : '\n' ∉ s) :
    options.references (String.ofList s) =
      if AllBlank s then [] else [options.reference (trim s)] := by
  rw [references, filledLines, String.toList_ofList, pieces_of_not_mem h, List.map_singleton]
  by_cases hblank : AllBlank s
  · rw [if_pos hblank, trim_eq_nil_iff.2 hblank]
    rfl
  · have hfilled : (trim s).isEmpty = false :=
      List.isEmpty_eq_false_iff.2 fun hnil => hblank (trim_eq_nil_iff.1 hnil)
    rw [if_neg hblank, List.filter_singleton, hfilled]
    rfl

/-- A line without a separator is a path. -/
theorem reference_trim_of_free {s : List Char} (h : options.separator ∉ s) :
    options.reference (trim s) = ⟨String.ofList (trim s), options.defaultDialect⟩ := by
  have hpassed : ∀ c ∈ trim s, (c != options.separator) = true := by
    intro c hc
    rw [bne_iff_ne]
    rintro rfl
    exact h (mem_of_mem_trim hc)
  have hpath : (trim s).takeWhile (· != options.separator) = trim s :=
    List.takeWhile_eq_self_iff.2 hpassed
  have hdialect : (trim s).dropWhile (· != options.separator) = [] :=
    List.dropWhile_eq_nil_iff.2 hpassed
  have htwice : trim (trim s) = trim s :=
    trim_eq_iff.2 ⟨isTrimmed_trim s, [], [], allBlank_nil, allBlank_nil, by simp⟩
  rw [reference, hpath, hdialect, htwice]
  rfl

variable {options}

/-- The first separator of a line divides the path from the dialect. -/
theorem reference_trim_append (hsep : isBlank options.separator = false) {s : List Char}
    (h : options.separator ∉ s) (t : List Char) :
    options.reference (trim (s ++ options.separator :: t)) =
      ⟨String.ofList (trim s),
        if (trim t).isEmpty then options.defaultDialect else String.ofList (trim t)⟩ := by
  have hpassed : ∀ c ∈ trimLeft s, (c != options.separator) = true := by
    intro c hc
    obtain ⟨before, _, hs, _⟩ := exists_trimLeft s
    rw [bne_iff_ne]
    rintro rfl
    rw [hs] at h
    exact h (List.mem_append_right before hc)
  have hpath : (trimLeft s ++ options.separator :: trimRight t).takeWhile
      (· != options.separator) = trimLeft s := by
    rw [List.takeWhile_append_of_pos hpassed, List.takeWhile_cons_of_neg (by simp),
      List.append_nil]
  have hdialect : (trimLeft s ++ options.separator :: trimRight t).dropWhile
      (· != options.separator) = options.separator :: trimRight t := by
    rw [List.dropWhile_append_of_pos hpassed, List.dropWhile_cons_of_neg (by simp)]
  rw [trim_append_cons hsep, reference, hpath, hdialect, List.drop_one, List.tail_cons,
    trim_trimLeft, trim_trimRight]

/-- A text that holds a character is not blank if the character is not. -/
theorem not_allBlank_append {separator : Char} (hsep : isBlank separator = false)
    (s t : List Char) : ¬AllBlank (s ++ separator :: t) := by
  intro hblank
  have hseparator := hblank separator (by simp)
  rw [hsep] at hseparator
  contradiction

/-- A separator that is no blank does not end a line. -/
theorem newline_not_mem_append {separator : Char} (hsep : isBlank separator = false)
    {s t : List Char} (hs : '\n' ∉ s) (ht : '\n' ∉ t) : '\n' ∉ s ++ separator :: t := by
  have hne : '\n' ≠ separator := by
    rintro rfl
    revert hsep
    decide
  simp [hs, ht, hne]

/-- A line spells exactly the reference that is read from it. -/
theorem lineSpells_iff (hsep : isBlank options.separator = false) {refs : List Reference}
    {s : List Char} :
    options.LineSpells refs s ↔ '\n' ∉ s ∧ options.references (String.ofList s) = refs := by
  constructor
  · intro h
    cases h with
    | blank hs =>
      rw [references_line options hs.2, if_pos hs.1]
      exact ⟨hs.2, rfl⟩
    | full hpath hfree hdialect hne hs ht =>
      have hline := newline_not_mem_append hsep (hs.oneLine hpath) (ht.oneLine hdialect)
      refine ⟨hline, ?_⟩
      rw [references_line options hline, if_neg (not_allBlank_append hsep _ _),
        reference_trim_append hsep (hs.free hsep hfree), hs.trim_eq hpath, ht.trim_eq hdialect,
        if_neg (by simpa using hne)]
    | unnamed hpath hfree hs ht =>
      have hline := newline_not_mem_append hsep (hs.oneLine hpath) ht.2
      refine ⟨hline, ?_⟩
      rw [references_line options hline, if_neg (not_allBlank_append hsep _ _),
        reference_trim_append hsep (hs.free hsep hfree), hs.trim_eq hpath,
        trim_eq_nil_iff.2 ht.1]
      rfl
    | alone hpath hfree hne hs =>
      have hline := hs.oneLine hpath
      have hfilled : ¬AllBlank s := fun hblank =>
        hne ((hs.trim_eq hpath).symm.trans (trim_eq_nil_iff.2 hblank))
      refine ⟨hline, ?_⟩
      rw [references_line options hline, if_neg hfilled,
        reference_trim_of_free options (hs.free hsep hfree), hs.trim_eq hpath]
  · rintro ⟨hline, rfl⟩
    rw [references_line options hline]
    split
    · next hblank => exact .blank ⟨hblank, hline⟩
    · next hfilled =>
      by_cases hmem : options.separator ∈ s
      · obtain ⟨s, t, rfl, hfree⟩ := List.eq_append_cons_of_mem hmem
        simp only [List.mem_append, List.mem_cons, not_or] at hline
        have hpath : options.separator ∉ trim s := fun hc => hfree (mem_of_mem_trim hc)
        rw [reference_trim_append hsep hfree]
        split
        · next hempty =>
          have hblank : AllBlank t := trim_eq_nil_iff.1 (List.isEmpty_iff.1 hempty)
          exact .unnamed (isPart_trim hline.1) hpath (padded_trim hline.1) ⟨hblank, hline.2.2⟩
        · next hnamed =>
          exact .full (isPart_trim hline.1) hpath (isPart_trim hline.2.2)
            (fun hnil => hnamed (List.isEmpty_iff.2 hnil)) (padded_trim hline.1)
            (padded_trim hline.2.2)
      · rw [reference_trim_of_free options hmem]
        exact .alone (isPart_trim hline) (fun hc => hmem (mem_of_mem_trim hc))
          (fun hnil => hfilled (trim_eq_nil_iff.1 hnil)) (padded_trim hline)

/-- What a line refers to is in the form in which references are read. -/
theorem LineSpells.isTidy {ref : Reference} {line : List Char}
    (h : options.LineSpells [ref] line) : options.IsTidy ref := by
  cases h with
  | full hpath hfree hdialect hne =>
    refine ⟨?_, ?_, Or.inr ⟨?_, ?_⟩⟩
    · simpa using hpath.trimmed
    · simpa using hfree
    · simpa using hdialect.trimmed
    · simpa using hne
  | unnamed hpath hfree | alone hpath hfree =>
    exact ⟨by simpa using hpath.trimmed, by simpa using hfree, Or.inl rfl⟩

/-! ## Texts -/

/-- A text has the references of its first line and then those of what follows the line end. -/
theorem references_cons {line lineEnd rest : List Char}
    (hend : lineEnd = ['\n'] ∨ lineEnd = ['\r', '\n']) (hline : '\n' ∉ line) :
    options.references (String.ofList (line ++ lineEnd ++ rest)) =
      options.references (String.ofList line) ++ options.references (String.ofList rest) := by
  rcases hend with rfl | rfl
  · rw [← references_append]
    congr 1
    rw [← String.toList_inj]
    simp
  · -- The carriage return is one more blank at the end of the line.
    have hreturn : options.references (String.ofList (line ++ ['\r'])) =
        options.references (String.ofList line) := by
      have htrim : trim (line ++ ['\r']) = trim line :=
        trim_padded allBlank_nil (List.forall_mem_singleton.2 (by decide)) line
      have hblank : AllBlank (line ++ ['\r']) ↔ AllBlank line := by
        rw [← trim_eq_nil_iff, htrim, trim_eq_nil_iff]
      rw [references_line options (by simp [hline]), references_line options hline, htrim]
      simp only [hblank]
    rw [← hreturn, ← references_append]
    congr 1
    rw [← String.toList_inj]
    simp

/-- Every text spells the references that are read from it. -/
theorem spells_references (hsep : isBlank options.separator = false) (s : List Char) :
    options.Spells (options.references (String.ofList s)) s := by
  by_cases hmem : '\n' ∈ s
  · obtain ⟨line, rest, hs, hline⟩ := List.eq_append_cons_of_mem hmem
    have hcut : s = line ++ ['\n'] ++ rest := by rw [hs]; simp
    have hshorter : rest.length < s.length := by
      rw [hs, List.length_append, List.length_cons]
      omega
    rw [hcut, references_cons (Or.inl rfl) hline]
    exact .more ((lineSpells_iff hsep).2 ⟨hline, rfl⟩) (Or.inl rfl) (spells_references hsep rest)
  · exact .last ((lineSpells_iff hsep).2 ⟨hmem, rfl⟩)
termination_by s.length

/-- A text spells exactly the references that are read from it. -/
theorem spells_iff (hsep : isBlank options.separator = false) {refs : List Reference}
    {s : List Char} :
    options.Spells refs s ↔ options.references (String.ofList s) = refs := by
  constructor
  · intro h
    induction h with
    | last h => exact ((lineSpells_iff hsep).1 h).2
    | more h hend hrest ih =>
      obtain ⟨hline, hrefs⟩ := (lineSpells_iff hsep).1 h
      rw [references_cons hend hline, hrefs, ih]
  · rintro rfl
    exact spells_references hsep s

/-- A reference that can be written is spelled by its path, a separator and its dialect. -/
theorem IsPrintable.lineSpells {ref : Reference} (h : options.IsPrintable ref) :
    options.LineSpells [ref]
      (ref.path ++ String.singleton options.separator ++ ref.dialect).toList := by
  have hline : (ref.path ++ String.singleton options.separator ++ ref.dialect).toList =
      ref.path.toList ++ options.separator :: ref.dialect.toList := by
    simp
  have href : ref = ⟨String.ofList ref.path.toList, String.ofList ref.dialect.toList⟩ := by
    rw [String.ofList_toList, String.ofList_toList]
  have hnamed : ref.dialect.toList ≠ [] := fun hnil => h.named (String.toList_eq_nil_iff.1 hnil)
  rw [hline]
  have hfull : options.LineSpells
      [⟨String.ofList ref.path.toList, String.ofList ref.dialect.toList⟩]
      (ref.path.toList ++ options.separator :: ref.dialect.toList) :=
    .full h.path h.free h.dialect hnamed (padded_self _) (padded_self _)
  rwa [← href] at hfull

/-- References that can be written are spelled one in a line. -/
theorem spells_printed {refs : List Reference} (hne : refs ≠ [])
    (h : ∀ ref ∈ refs, options.IsPrintable ref) :
    options.Spells refs (options.printed refs).toList := by
  rw [printed, String.toList_intercalate, List.map_map]
  induction refs with
  | nil => exact absurd rfl hne
  | cons ref refs ih =>
    obtain ⟨hfirst, hrest⟩ := List.forall_mem_cons.1 h
    cases refs with
    | nil =>
      rw [List.map_singleton, List.intercalate_singleton]
      exact .last hfirst.lineSpells
    | cons next refs =>
      rw [List.map_cons, List.map_cons, List.intercalate_cons_cons, ← List.map_cons]
      exact .more hfirst.lineSpells (Or.inl rfl) (ih (List.cons_ne_nil _ _) hrest)

/-- The references of a text are those of its lines that are not blank, one of each. -/
theorem forall₂_lines_references (hsep : isBlank options.separator = false) (text : String) :
    List.Forall₂ (fun line ref => options.LineSpells [ref] line ∧ options.IsTidy ref)
      ((lines text.toList).filter fun line => !decide (AllBlank line))
      (options.references text) := by
  rw [references, filledLines, filter_trim_pieces, List.map_map, List.forall₂_map_right_iff,
    List.forall₂_same]
  intro line hmem
  obtain ⟨hmem, hfilled⟩ := List.mem_filter.1 hmem
  have hline : '\n' ∉ line := not_mem_of_mem_lines hmem
  have hspells : options.LineSpells [options.reference (trim line)] line := by
    rw [lineSpells_iff hsep, references_line options hline, if_neg (by simpa using hfilled)]
    exact ⟨hline, rfl⟩
  exact ⟨hspells, hspells.isTidy⟩

/-- Exactly the texts of blank lines have no references. -/
theorem references_eq_nil_iff (options : Options) (text : String) :
    options.references text = [] ↔ ∀ line ∈ lines text.toList, AllBlank line := by
  rw [references, filledLines, filter_trim_pieces, List.map_map, List.map_eq_nil_iff,
    List.filter_eq_nil_iff]
  simp

/-- Directives are read as they are written, if the separator is no blank.  Exactly the texts that
spell some references are read as these; among them are the references themselves, one in a line.
Reading fails only where all lines are blank.  Otherwise there is one reference for each line that
is not: the line spells it, there are no blanks at the ends of its parts and no separator in its
path, and where it names no dialect it has the default one. -/
theorem parseDirective_iff_spells (options : Options)
    (hsep : isBlank options.separator = false) (baseDir : String) :
    (∀ text refs, options.parseDirective baseDir text = .ok refs ↔
      refs ≠ [] ∧ options.Spells refs text.toList) ∧
    (∀ refs, refs ≠ [] → (∀ ref ∈ refs, options.IsPrintable ref) →
      options.parseDirective baseDir (options.printed refs) = .ok refs) ∧
    (∀ text e, options.parseDirective baseDir text = .error e ↔
      (∀ line ∈ lines text.toList, AllBlank line) ∧ e = .emptyDirective baseDir) ∧
    (∀ text, (∃ line ∈ lines text.toList, ¬AllBlank line) →
      ∃ refs, options.parseDirective baseDir text = .ok refs ∧
        List.Forall₂ (fun line ref => options.LineSpells [ref] line ∧ options.IsTidy ref)
          ((lines text.toList).filter fun line => !decide (AllBlank line)) refs) := by
  have hspells : ∀ text refs, options.parseDirective baseDir text = .ok refs ↔
      refs ≠ [] ∧ options.Spells refs text.toList := by
    intro text refs
    rw [parseDirective_eq_ok_iff, spells_iff hsep, String.ofList_toList, and_comm]
  refine ⟨hspells, ?_, ?_, ?_⟩
  · intro refs hne hprintable
    exact (hspells _ refs).2 ⟨hne, spells_printed hne hprintable⟩
  · intro text e
    rw [parseDirective_eq_error_iff, ← references_eq_nil_iff options, references,
      List.map_eq_nil_iff]
  · rintro text ⟨line, hmem, hfilled⟩
    refine ⟨options.references text, ?_, forall₂_lines_references hsep text⟩
    rw [parseDirective_eq_ok_iff]
    exact ⟨rfl, fun hnil => hfilled ((references_eq_nil_iff options text).1 hnil line hmem)⟩

/-- Two references between blank lines: one with blanks of many kinds and with another separator
in its dialect, and a path alone. -/
theorem parseDirective_iff_spells_blanks :
    isBlank '!' = false ∧
      ({} : Options).Spells [⟨"a b.rst", "rst!x"⟩, ⟨"ä.md", "markdown"⟩]
        "\t\r\n a b.rst\u00a0!\u3000rst!x \r\n\n\u2003ä.md".toList := by
  have hsep : isBlank '!' = false := by decide
  have hread : ({} : Options).parseDirective ""
      "\t\r\n a b.rst\u00a0!\u3000rst!x \r\n\n\u2003ä.md" =
        .ok [⟨"a b.rst", "rst!x"⟩, ⟨"ä.md", "markdown"⟩] := by cbv
  exact ⟨hsep, (((parseDirective_iff_spells {} hsep "").1 _ _).1 hread).2⟩

end Options

end Transclude
