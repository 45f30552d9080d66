import Transclude.Include.Expansion

/-!
# Chains of references

The directives among some blocks refer to files, found from the directory of the blocks.  A file
converts to blocks in its turn, whose files are found from the directory that it lies in.  A
chain follows such references from file to file.

Main results:

- Definition {lit}`Expansion.Occurs`: the references among some blocks, resolved.
- Definition {lit}`Expansion.Chain`: references each of which occurs in the file before it.
- Theorem {lit}`Expansion.Chain.forall_iff`: all chains, by the reference that they start with.
-/

namespace Transclude

namespace Expansion

/-! ## References -/

/-- A reference after it is resolved: the file that it leads to and the dialect that the file is
read in. -/
structure Resolved where
  path : Path
  dialect : String
  deriving DecidableEq, Repr

namespace Resolved

/-- What a written reference resolves to from a base directory. -/
def ofReference (baseDir : String) (ref : Reference) : Resolved :=
  ⟨Path.resolve baseDir ref.path, ref.dialect⟩

/-- The directory from which the references in a file are resolved. -/
def directory (r : Resolved) : String :=
  r.path.parent.toText

end Resolved

/-- A resolved reference occurs in a directive among some blocks or below them, which stand in
some directory. -/
def Occurs (options : Options) (baseDir : String) (bs : List Block) (r : Resolved) : Prop :=
  ∃ text ∈ directives options bs, ∃ ref ∈ options.references text,
    Resolved.ofReference baseDir ref = r

/-- Every directive among some blocks or below them names at least one file. -/
def NamesFiles (options : Options) (bs : List Block) : Prop :=
  ∀ text ∈ directives options bs, options.references text ≠ []

/-! ## Chains -/

section Chains

variable (options : Options) (source : Path → String → Except ConverterError Document)

/-- References that lead from some blocks, which stand in some directory, to a file, from there
to the next one, and so on. -/
inductive Chain : (baseDir : String) → List Block → List Resolved → Prop
  | single {baseDir : String} {bs : List Block} {r : Resolved} (h : Occurs options baseDir bs r) :
    Chain baseDir bs [r]
  | cons {baseDir : String} {bs : List Block} {r : Resolved} {document : Document}
    {rest : List Resolved} (h : Occurs options baseDir bs r)
    (hsource : source r.path r.dialect = .ok document)
    (hrest : Chain r.directory document.blocks rest) : Chain baseDir bs (r :: rest)

/-- A chain reaches a document if its last file converts to it. -/
def Reaches (chain : List Resolved) (document : Document) : Prop :=
  ∃ r, chain.getLast? = some r ∧ source r.path r.dialect = .ok document

/-- A chain reaches a document all of whose directives name files. -/
def Arrives (chain : List Resolved) : Prop :=
  ∃ document, Reaches source chain document ∧ NamesFiles options document.blocks

variable {options source}

theorem Chain.ne_nil {baseDir : String} {bs : List Block} {chain : List Resolved}
    (h : Chain options source baseDir bs chain) : chain ≠ [] := by
  cases h <;> simp

/-- What holds of all chains holds of each reference alone, and of it and the chains that go on
from its file. -/
theorem Chain.forall_iff {baseDir : String} {bs : List Block} {Q : List Resolved → Prop} :
    (∀ chain, Chain options source baseDir bs chain → Q chain) ↔
      ∀ r, Occurs options baseDir bs r → Q [r] ∧
        ∀ document, source r.path r.dialect = .ok document →
          ∀ rest, Chain options source r.directory document.blocks rest → Q (r :: rest) := by
  constructor
  · intro h r hr
    exact ⟨h [r] (.single hr), fun document hsource rest hrest =>
      h (r :: rest) (.cons hr hsource hrest)⟩
  · intro h chain hchain
    cases hchain with
    | single hr => exact (h _ hr).1
    | cons hr hsource hrest => exact (h _ hr).2 _ hsource _ hrest

theorem reaches_singleton_iff {r : Resolved} {document : Document} :
    Reaches source [r] document ↔ source r.path r.dialect = .ok document := by
  simp [Reaches]

/-- A chain reaches what the rest of it reaches. -/
theorem reaches_cons_iff {r : Resolved} {rest : List Resolved} (h : rest ≠ [])
    {document : Document} : Reaches source (r :: rest) document ↔ Reaches source rest document := by
  obtain ⟨r', rest, rfl⟩ := List.exists_cons_of_ne_nil h
  simp [Reaches]

/-- A chain reaches one document at most. -/
theorem Reaches.unique {chain : List Resolved} {document document' : Document}
    (h : Reaches source chain document) (h' : Reaches source chain document') :
    document = document' := by
  obtain ⟨r, hlast, hsource⟩ := h
  obtain ⟨r', hlast', hsource'⟩ := h'
  have hr : r = r' := Option.some.inj (hlast.symm.trans hlast')
  subst hr
  exact Except.ok.inj (hsource.symm.trans hsource')

end Chains

end Expansion

end Transclude
