import Transclude.Proofs.Expansion.Chains
import Transclude.Proofs.Path.Canonical

/-!
# References in referenced files

A reference in a file is seen from the directory of the file, which is itself a resolved path.
Putting paths in normal form level by level loses nothing: the last file of a chain is the one that
the base directory, the references and a step up after each of them but the last lead to when they
are joined first and put in normal form at the end.

Main results:

- Definition {lit}`Path.visited`: the files that references lead to, each from the one before.
- Definition {lit}`Path.joinedInTurn`: all references as one text, with steps up between them.
- Theorem {lit}`Path.getLast?_visited`: the last file is where the joined text leads.
- Definition {lit}`Expansion.WrittenAs`: a chain with the references as they are written.
- Theorem {lit}`Expansion.nested_references_compose`: files in files are found as by joining.
-/

namespace Transclude

namespace Path

/-! ## Chains of paths -/

/-- The files that references lead to: the first from a base directory, every other one from the
directory of the file before. -/
def visited (base : String) : List String → List Path
  | [] => []
  | reference :: references =>
    let file := resolve base reference
    file :: visited file.parent.toText references

/-- A base directory joined in turn with references and a step up between any two of them. -/
def joinedInTurn (base : String) (references : List String) : String :=
  (references.intersperse "..").foldl join base

/-- The place that a reference leads to from a place. -/
def enter (p : Path) (reference : String) : Path :=
  (if isRooted reference then root else p).follow (components reference)

/-- A reference is resolved from the place of its base directory. -/
theorem resolve_eq_enter (base reference : String) :
    resolve base reference = (ofText base).enter reference := rfl

/-- What is joined in turn is followed in turn, from the place of the base directory. -/
theorem ofText_foldl_join (base : String) (references : List String) :
    ofText (references.foldl join base) = references.foldl enter (ofText base) := by
  induction references generalizing base with
  | nil => rfl
  | cons reference references ih =>
    rw [List.foldl_cons, ih, ← resolve_eq_ofText_join, resolve_eq_enter]
    rfl

/-- From a place that ends in a name a step up leads to the directory of the file. -/
theorem enter_parent {p : Path} (h : p.names ≠ []) : p.enter ".." = p.parent := by
  rcases p.eq_root_or_above_or_down with rfl | ⟨levels, rfl⟩ | ⟨q, name, rfl⟩
  · exact absurd rfl h
  · exact absurd rfl h
  · have hup : (q.down name).enter ".." = (q.down name).up := rfl
    have hparent : (q.down name).parent = q := by
      obtain ⟨origin, names⟩ := q
      cases names with
      | nil => rfl
      | cons first names =>
        simp only [parent, down, List.cons_append]
        rw [← List.cons_append, List.dropLast_concat]
    rw [hup, up_down, hparent]

/-- The directory of a place of ordinary names has ordinary names. -/
theorem IsCanonical.parent {p : Path} (h : p.IsCanonical) : p.parent.IsCanonical := by
  unfold Path.parent
  split
  · exact List.forall_mem_nil _
  · exact List.forall_mem_nil _
  · exact fun name hname => h name (List.dropLast_subset _ hname)

/-- If every file but the last ends in a name, the last file is where the joined text leads. -/
theorem getLast?_visited (base : String) {references : List String} (hne : references ≠ [])
    (hnames : ∀ file ∈ (visited base references).dropLast, file.names ≠ []) :
    (visited base references).getLast? = some (ofText (joinedInTurn base references)) := by
  induction references generalizing base with
  | nil => exact absurd rfl hne
  | cons reference references ih =>
    cases references with
    | nil => rw [joinedInTurn, ofText_foldl_join]; rfl
    | cons next references =>
      -- The directory of the first file is where its reference and a step up lead.
      have hfile : (resolve base reference).names ≠ [] := by
        apply hnames
        simp [visited]
      have hdirectory : ofText (resolve base reference).parent.toText =
          ((ofText base).enter reference).enter ".." := by
        rw [ofText_toText (isCanonical_resolve base reference).parent, ← enter_parent hfile,
          resolve_eq_enter]
      have hrest : ∀ file ∈ (visited (resolve base reference).parent.toText
          (next :: references)).dropLast, file.names ≠ [] := by
        intro file hmem
        apply hnames
        rw [visited, List.dropLast_cons_of_ne_nil (by simp [visited])]
        exact List.mem_cons_of_mem _ hmem
      calc (visited base (reference :: next :: references)).getLast?
          = (visited (resolve base reference).parent.toText (next :: references)).getLast? := by
            simp [visited]
        _ = some (ofText (joinedInTurn (resolve base reference).parent.toText
              (next :: references))) := ih _ (List.cons_ne_nil _ _) hrest
        _ = some (ofText (joinedInTurn base (reference :: next :: references))) := by
            rw [joinedInTurn, ofText_foldl_join, hdirectory, joinedInTurn, ofText_foldl_join,
              List.intersperse_cons_cons, List.foldl_cons, List.foldl_cons]

end Path

namespace Expansion

/-! ## Chains of references -/

section Chains

variable (options : Options) (source : Path → String → Except ConverterError Document)

/-- A chain that leads from some blocks, which stand in some directory, with its references as
they are written in the directives that they occur in. -/
inductive WrittenAs : (baseDir : String) → List Block → List Reference → List Resolved → Prop
  | single {baseDir text : String} {bs : List Block} {ref : Reference}
    (htext : text ∈ directives options bs) (href : ref ∈ options.references text) :
    WrittenAs baseDir bs [ref] [.ofReference baseDir ref]
  | cons {baseDir text : String} {bs : List Block} {ref : Reference} {document : Document}
    {refs : List Reference} {rest : List Resolved}
    (htext : text ∈ directives options bs) (href : ref ∈ options.references text)
    (hsource : source (Resolved.ofReference baseDir ref).path ref.dialect = .ok document)
    (hrest : WrittenAs (Resolved.ofReference baseDir ref).directory document.blocks refs rest) :
    WrittenAs baseDir bs (ref :: refs) (.ofReference baseDir ref :: rest)

variable {options source}

/-- Chains are made of references that are written in directives. -/
theorem chain_iff_exists_writtenAs {baseDir : String} {bs : List Block}
    {chain : List Resolved} :
    Chain options source baseDir bs chain ↔
      ∃ refs, WrittenAs options source baseDir bs refs chain := by
  constructor
  · intro h
    induction h with
    | single hoccurs =>
      obtain ⟨text, htext, ref, href, rfl⟩ := hoccurs
      exact ⟨[ref], .single htext href⟩
    | cons hoccurs hsource _ ih =>
      obtain ⟨text, htext, ref, href, rfl⟩ := hoccurs
      obtain ⟨refs, hrefs⟩ := ih
      exact ⟨ref :: refs, .cons htext href hsource hrefs⟩
  · rintro ⟨refs, h⟩
    induction h with
    | single htext href => exact .single ⟨_, htext, _, href, rfl⟩
    | cons htext href hsource _ ih => exact .cons ⟨_, htext, _, href, rfl⟩ hsource ih

/-- The files of a chain are those that its references lead to, each from the one before. -/
theorem WrittenAs.paths_eq_visited {baseDir : String} {bs : List Block} {refs : List Reference}
    {chain : List Resolved} (h : WrittenAs options source baseDir bs refs chain) :
    refs ≠ [] ∧ chain.map Resolved.path = Path.visited baseDir (refs.map Reference.path) := by
  induction h with
  | single => exact ⟨List.cons_ne_nil _ _, rfl⟩
  | cons _ _ _ _ ih =>
    refine ⟨List.cons_ne_nil _ _, ?_⟩
    rw [List.map_cons, ih.2]
    rfl

end Chains

/-- Resolution composes along references in referenced files.  The first file is found from a base
directory and every other one from the directory of the file before.  If all files but the last end
in a name, the last one is what the base directory names when it is joined in turn with the
references, and with a step up between any two of them.  The files of every chain that an expansion
follows are found in this way. -/
theorem nested_references_compose (baseDir : String) :
    (∀ references, references ≠ [] →
      (∀ file ∈ (Path.visited baseDir references).dropLast, file.names ≠ []) →
      (Path.visited baseDir references).getLast? =
        some (Path.ofText (Path.joinedInTurn baseDir references))) ∧
    (∀ options source bs chain, Chain options source baseDir bs chain ↔
      ∃ refs, WrittenAs options source baseDir bs refs chain) ∧
    (∀ options source bs refs chain, WrittenAs options source baseDir bs refs chain →
      (∀ r ∈ chain.dropLast, r.path.names ≠ []) →
      (chain.map Resolved.path).getLast? =
        some (Path.ofText (Path.joinedInTurn baseDir (refs.map Reference.path)))) := by
  refine ⟨fun references => Path.getLast?_visited baseDir, fun options source bs chain =>
    chain_iff_exists_writtenAs, fun options source bs refs chain hwritten hnames => ?_⟩
  obtain ⟨hne, hpaths⟩ := hwritten.paths_eq_visited
  rw [hpaths]
  refine Path.getLast?_visited baseDir (by simpa using hne) ?_
  rw [← hpaths, ← List.map_dropLast]
  exact List.forall_mem_map.2 hnames

/-- Three files, the last of which lies above the current directory. -/
theorem nested_references_compose_above :
    let references := ["ch/../../a.md", "b//c.md", "../../../d.md"]
    references ≠ [] ∧
      (∀ file ∈ (Path.visited "doc" references).dropLast, file.names ≠ []) ∧
      (Path.visited "doc" references).getLast? = some ⟨.above 2, ["d.md"]⟩ := by
  intro references
  have hne : references ≠ [] := List.cons_ne_nil _ _
  have hnames : ∀ file ∈ (Path.visited "doc" references).dropLast, file.names ≠ [] := by
    decide +kernel
  have hjoined : Path.ofText (Path.joinedInTurn "doc" references) = ⟨.above 2, ["d.md"]⟩ := by
    decide +kernel
  refine ⟨hne, hnames, ?_⟩
  rw [(nested_references_compose "doc").1 references hne hnames, hjoined]

end Expansion

end Transclude
