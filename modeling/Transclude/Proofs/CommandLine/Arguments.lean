import Mathlib.Data.List.Basic
import Transclude.CommandLine.Arguments

/-!
# The same run with and without an output file

An option for the output may be given in front of arguments that have none, and it may be taken out
wherever it stands.  Everything else that the arguments ask for stays the same.

Main results:

- Definition {lit}`Arguments.withoutOutput`: arguments without the option for the output.
- Theorem {lit}`Invocation.ofArguments_withOutput`: an output in front.
- Theorem {lit}`Invocation.ofArguments_withoutOutput`: an output taken out.
-/

namespace Transclude

namespace Arguments

/-- Arguments without the option for the output. -/
def withoutOutput : List String → List String
  | [] => []
  | text :: rest =>
    match Word.ofText text with
    | .option key (some _) =>
      if key = .output then withoutOutput rest else text :: withoutOutput rest
    | .option key none =>
      match rest with
      | [] => [text]
      | value :: rest =>
        if key = .output then withoutOutput rest else text :: value :: withoutOutput rest
    | .endOfOptions => text :: rest
    | _ => text :: withoutOutput rest

/-- The option for an output sets the output and nothing else. -/
theorem set?_output {a b : Arguments} {value : String} (h : a.set? .output value = some b) :
    b = { a with output := some value } := by
  simp only [set?] at h
  split at h
  · cases h
  · exact (Option.some.inj h).symm

/-- Other options do the same whatever the output is. -/
theorem set?_of_ne {a b : Arguments} {key : Key} {value : String} (hkey : key ≠ .output)
    (h : a.set? key value = some b) (output : Option String) :
    b.output = a.output ∧ { a with output }.set? key value = some { b with output } := by
  cases key with
  | output => exact absurd rfl hkey
  | input | baseDir | program | defaultDialect =>
    simp only [set?] at h ⊢
    split at h
    · cases h
    · cases h
      exact ⟨rfl, if_neg ‹_›⟩
  | maxDepth =>
    simp only [set?] at h ⊢
    split at h
    · cases h
    · obtain ⟨n, hn, rfl⟩ := Option.map_eq_some_iff.1 h
      exact ⟨rfl, by rw [if_neg ‹_›, hn]; rfl⟩

/-- So does the argument that belongs to no option. -/
theorem setPositional?_eq {a b : Arguments} {value : String}
    (h : a.setPositional? value = some b) (output : Option String) :
    b.output = a.output ∧ { a with output }.setPositional? value = some { b with output } := by
  simp only [setPositional?] at h ⊢
  split at h
  · cases h
  · cases h
    exact ⟨rfl, if_neg ‹_›⟩

/-- And all arguments after the end of options. -/
theorem readPositionals_eq {a b : Arguments} {args : List String}
    (h : readPositionals a args = .run b) (output : Option String) :
    b.output = a.output ∧ readPositionals { a with output } args = .run { b with output } := by
  induction args generalizing a with
  | nil =>
    cases h
    exact ⟨rfl, rfl⟩
  | cons value args ih =>
    rw [readPositionals] at h ⊢
    split at h
    · next next hnext =>
      obtain ⟨hsame, hset⟩ := setPositional?_eq hnext output
      rw [hset]
      exact hsame ▸ ih h
    · cases h

/-! ## Arguments that ask for a run -/

/-- Arguments that ask for a run: each is an option with its value or the argument that belongs to
no option, and can be given, up to the end of all options. -/
inductive Reads : Arguments → List String → Arguments → Prop
  | done (a : Arguments) : Reads a [] a
  | joined {a next b : Arguments} {text value : String} {key : Key} {rest : List String}
    (hword : Word.ofText text = .option key (some value)) (hset : a.set? key value = some next)
    (hrest : Reads next rest b) : Reads a (text :: rest) b
  | apart {a next b : Arguments} {text value : String} {key : Key} {rest : List String}
    (hword : Word.ofText text = .option key none) (hvalue : isValue value = true)
    (hset : a.set? key value = some next) (hrest : Reads next rest b) :
    Reads a (text :: value :: rest) b
  | positional {a next b : Arguments} {text value : String} {rest : List String}
    (hword : Word.ofText text = .positional value) (hset : a.setPositional? value = some next)
    (hrest : Reads next rest b) : Reads a (text :: rest) b
  | ended {a b : Arguments} {text : String} {rest : List String}
    (hword : Word.ofText text = .endOfOptions) (hrest : readPositionals a rest = .run b) :
    Reads a (text :: rest) b

/-- Reading arguments comes to a run exactly if they ask for it. -/
theorem read_eq_run_iff {a b : Arguments} {args : List String} :
    read a args = .run b ↔ Reads a args b := by
  constructor
  · intro h
    fun_induction read a args with
    | case1 =>
      cases h
      exact .done _
    | case2 _ _ _ _ _ hword next hset ih => exact .joined hword hset (ih h)
    | case5 _ _ _ hword _ _ hvalue next hset ih => exact .apart hword hvalue hset (ih h)
    | case8 _ _ _ _ hword next hset ih => exact .positional hword hset (ih h)
    | case10 _ _ _ hword => exact .ended hword h
    | _ => cases h
  · intro h
    induction h with
    | done a => rfl
    | joined hword hset _ ih => simp only [read, hword, hset, ih]
    | apart hword hvalue hset _ ih => simp only [read, hword, hvalue, hset, ih, if_true]
    | positional hword hset _ ih => simp only [read, hword, hset, ih]
    | ended hword hrest => simp only [read, hword, hrest]

/-- Arguments that set no output ask for the same with any output that is set before. -/
theorem Reads.output {a b : Arguments} {args : List String} (h : Reads a args b)
    (hnone : b.output = none) (output : Option String) :
    a.output = none ∧ Reads { a with output } args { b with output } := by
  induction h with
  | done a => exact ⟨hnone, .done _⟩
  | @joined a next b text value key rest hword hset _ ih =>
    obtain ⟨hnext, hrest⟩ := ih hnone
    by_cases hkey : key = .output
    · subst hkey
      obtain rfl := set?_output hset
      cases hnext
    · obtain ⟨hsame, hset⟩ := set?_of_ne hkey hset output
      exact ⟨hsame ▸ hnext, .joined hword hset hrest⟩
  | @apart a next b text value key rest hword hvalue hset _ ih =>
    obtain ⟨hnext, hrest⟩ := ih hnone
    by_cases hkey : key = .output
    · subst hkey
      obtain rfl := set?_output hset
      cases hnext
    · obtain ⟨hsame, hset⟩ := set?_of_ne hkey hset output
      exact ⟨hsame ▸ hnext, .apart hword hvalue hset hrest⟩
  | positional hword hset _ ih =>
    obtain ⟨hnext, hrest⟩ := ih hnone
    obtain ⟨hsame, hset⟩ := setPositional?_eq hset output
    exact ⟨hsame ▸ hnext, .positional hword hset hrest⟩
  | ended hword hrest =>
    obtain ⟨hsame, hrest⟩ := readPositionals_eq hrest output
    exact ⟨hsame ▸ hnone, .ended hword hrest⟩

/-- Arguments without the option for the output ask for the same without an output. -/
theorem Reads.withoutOutput {a b : Arguments} {args : List String} (h : Reads a args b) :
    Reads { a with output := none } (withoutOutput args) { b with output := none } := by
  induction h with
  | done a => exact .done _
  | @joined a next b text value key rest hword hset _ ih =>
    rw [Arguments.withoutOutput, hword]
    by_cases hkey : key = .output
    · subst hkey
      obtain rfl := set?_output hset
      exact ih
    · simp only [if_neg hkey]
      exact .joined hword (set?_of_ne hkey hset none).2 ih
  | @apart a next b text value key rest hword hvalue hset _ ih =>
    rw [Arguments.withoutOutput, hword]
    by_cases hkey : key = .output
    · subst hkey
      obtain rfl := set?_output hset
      exact ih
    · simp only [if_neg hkey]
      exact .apart hword hvalue (set?_of_ne hkey hset none).2 ih
  | positional hword hset _ ih =>
    rw [Arguments.withoutOutput, hword]
    exact .positional hword (setPositional?_eq hset none).2 ih
  | ended hword hrest =>
    rw [Arguments.withoutOutput, hword]
    exact .ended hword (readPositionals_eq hrest none).2

/-- What an option for the output is by itself that is followed by its value. -/
theorem ofText_output (file : String) :
    Word.ofText ("--output=" ++ file) = .option .output (some file) := by
  have hchars : ("--output=" ++ file).toList = '-' :: '-' :: ("output=".toList ++ file.toList) := by
    simp
  simp [Word.ofText, hchars, Word.ofLong, Key.ofLongName?]

end Arguments

namespace Invocation

variable {plain filed : List String} {a : Arguments}

/-- Arguments without an output, and an output in front of them. -/
theorem ofArguments_withOutput (h : ofArguments plain = .run a) (hnone : a.output = none)
    {file : String} (hfile : file ≠ "") :
    ofArguments (("--output=" ++ file) :: plain) = .run { a with output := some file } := by
  have hrest := ((Arguments.read_eq_run_iff.1 h).output hnone (some file)).2
  refine Arguments.read_eq_run_iff.2 (.joined (Arguments.ofText_output file) ?_ hrest)
  simp [Arguments.set?, hfile]

/-- Arguments from which the output is taken out. -/
theorem ofArguments_withoutOutput (h : ofArguments filed = .run a) :
    ofArguments (Arguments.withoutOutput filed) = .run { a with output := none } :=
  Arguments.read_eq_run_iff.2 (Arguments.read_eq_run_iff.1 h).withoutOutput

end Invocation

end Transclude
