import Transclude.Document.Attr
import Transclude.Include.Error
import Transclude.Include.Options
import Transclude.Text.Blank
import Transclude.Text.Split

/-!
# Directives

A directive is a block of code whose first class is the marker.  Each line of its text that is
not blank refers to a file: a path, and after a separator the dialect it is written in.

Main results:

- Definition {lit}`Options.isDirective`: whether a block of code is a directive.
- Definition {lit}`Options.parseDirective`: the references of a directive.
- Theorem {lit}`Options.references_append`: the references of two texts, one below the other.
- Theorem {lit}`Options.parseDirective_eq_error_iff`: exactly blank texts name no files.
- Theorem {lit}`Options.parseDirective_eq_ok_iff`: the references of any other text are read.
-/

namespace Transclude

/-- A file that a directive refers to, as it is written there, and its dialect. -/
structure Reference where
  path : String
  dialect : String
  deriving DecidableEq, Repr, Inhabited

namespace Options

/-- Whether a block of code with this attribute is a directive. -/
def isDirective (options : Options) (attr : Attr) : Bool :=
  attr.firstClass? == some options.markerClass

/-- The lines of a text without the blanks around them, blank lines left out. -/
def filledLines (text : String) : List (List Char) :=
  ((Text.pieces '\n' text.toList).map Text.trim).filter fun line => !line.isEmpty

/-- The reference of a line: what stands before and after the first separator.  Where no dialect
is named, the default one is meant. -/
def reference (options : Options) (line : List Char) : Reference :=
  let path := Text.trim (line.takeWhile (· != options.separator))
  let dialect := Text.trim ((line.dropWhile (· != options.separator)).drop 1)
  ⟨String.ofList path,
    if dialect.isEmpty then options.defaultDialect else String.ofList dialect⟩

/-- The references of a text, in the order of its lines. -/
def references (options : Options) (text : String) : List Reference :=
  (filledLines text).map options.reference

/-- The references of a directive, of which there has to be one. -/
def parseDirective (options : Options) (baseDir text : String) :
    Except IncludeError (List Reference) :=
  match options.references text with
  | [] => .error (.emptyDirective baseDir)
  | refs => .ok refs

/-- Texts one below the other have the lines of both. -/
theorem filledLines_append (text₁ text₂ : String) :
    filledLines (text₁ ++ "\n" ++ text₂) = filledLines text₁ ++ filledLines text₂ := by
  have hchars : (text₁ ++ "\n" ++ text₂).toList = text₁.toList ++ '\n' :: text₂.toList := by
    simp
  rw [filledLines, hchars, Text.pieces_append, List.map_append, List.filter_append, filledLines,
    filledLines]

/-- Texts one below the other have the references of both. -/
theorem references_append (options : Options) (text₁ text₂ : String) :
    options.references (text₁ ++ "\n" ++ text₂) =
      options.references text₁ ++ options.references text₂ := by
  rw [references, filledLines_append, List.map_append, references, references]

/-- Exactly the texts of blank lines name no files. -/
theorem parseDirective_eq_error_iff (options : Options) (baseDir text : String)
    (e : IncludeError) :
    options.parseDirective baseDir text = .error e ↔
      filledLines text = [] ∧ e = .emptyDirective baseDir := by
  unfold parseDirective references
  cases h : filledLines text with
  | nil => simp [eq_comm]
  | cons line rest => simp

/-- The references of a directive are those of its text, if there are any. -/
theorem parseDirective_eq_ok_iff (options : Options) (baseDir text : String)
    (refs : List Reference) :
    options.parseDirective baseDir text = .ok refs ↔
      options.references text = refs ∧ refs ≠ [] := by
  unfold parseDirective
  cases options.references text with
  | nil => simp +contextual [eq_comm]
  | cons ref rest => simp +contextual [eq_comm]

end Options

end Transclude
