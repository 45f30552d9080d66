import Mathlib.Data.List.Nodup
import Transclude.Proofs.Expansion.Chains
import Transclude.Proofs.Expansion.TwoPhases

/-!
# When expansion succeeds

With a converter that is a function of path and dialect, expansion succeeds exactly if every
chain of references ends well: no file comes twice in it, it is not too long, and it arrives at a
file that is converted and has no empty directive.  Each chain answers for itself, so that it does
no harm when many of them lead to one file.

Main results:

- Definition {lit}`Succeeds`: an effect ends in a result.
- Theorem {lit}`OnePass.succeeds_blocks_iff`: a pass succeeds if all insertions of it do.
- Theorem {lit}`Expansion.succeeds_fragment_iff`: a fragment inside open files, by its chains.
- Theorem {lit}`Expansion.expand_succeeds_iff`: a whole document, by its chains.
-/

namespace Transclude

/-! ## Effects that end in a result -/

/-- An effect ends in a result. -/
def Succeeds {ε α : Type} (x : ExceptT ε Id α) : Prop :=
  ∃ a, Id.run x.run = .ok a

section Succeeds

variable {ε α β : Type}

theorem succeeds_pure (a : α) : Succeeds (pure a : ExceptT ε Id α) :=
  ⟨a, rfl⟩

theorem run_pure_eq_ok_iff {a b : α} :
    Id.run (pure a : ExceptT ε Id α).run = .ok b ↔ a = b :=
  Except.ok.injEq a b ▸ Iff.rfl

/-- What comes after an effect that does not fail is done with what it hands on. -/
theorem run_lift_bind_eq_ok_iff {a : α} {f : α → ExceptT ε Id β} {b : β} :
    Id.run (liftM (pure a : Id α) >>= f : ExceptT ε Id β).run = .ok b ↔
      Id.run (f a).run = .ok b :=
  Iff.rfl

/-- Two effects one after the other give what the second gives on the result of the first. -/
theorem run_bind_eq_ok_iff {x : ExceptT ε Id α} {f : α → ExceptT ε Id β} {b : β} :
    Id.run (x >>= f).run = .ok b ↔ ∃ a, Id.run x.run = .ok a ∧ Id.run (f a).run = .ok b := by
  have hbind : Id.run (x >>= f).run =
      match Id.run x.run with
      | .ok a => Id.run (f a).run
      | .error e => .error e := by
    simp only [bind, ExceptT.bind, ExceptT.run, ExceptT.mk, Id.run]
    cases (x : Except ε α) <;> rfl
  rw [hbind]
  cases Id.run x.run with
  | error e => simp
  | ok a => simp

/-- Two effects succeed one after the other if the second does on the result of the first. -/
theorem succeeds_bind_iff {x : ExceptT ε Id α} {f : α → ExceptT ε Id β} :
    Succeeds (x >>= f) ↔ ∃ a, Id.run x.run = .ok a ∧ Succeeds (f a) := by
  simp only [Succeeds, run_bind_eq_ok_iff]
  constructor
  · rintro ⟨b, a, ha, hb⟩
    exact ⟨a, ha, b, hb⟩
  · rintro ⟨a, ha, b, hb⟩
    exact ⟨b, a, ha, hb⟩

/-- An effect that does not succeed ends in an error. -/
theorem not_succeeds_iff {x : ExceptT ε Id α} :
    ¬ Succeeds x ↔ ∃ e, Id.run x.run = .error e := by
  unfold Succeeds
  cases Id.run x.run <;> simp

/-- Where what comes after does not depend on the result, both have to succeed. -/
theorem succeeds_bind_iff_and {x : ExceptT ε Id α} {f : α → ExceptT ε Id β} {p : Prop}
    (hf : ∀ a, Succeeds (f a) ↔ p) : Succeeds (x >>= f) ↔ Succeeds x ∧ p := by
  simp only [succeeds_bind_iff, hf, exists_and_right]
  rfl

/-- To make something of the result does no harm. -/
theorem succeeds_bind_pure_iff {x : ExceptT ε Id α} (k : α → β) :
    Succeeds (x >>= fun a => pure (k a)) ↔ Succeeds x := by
  rw [succeeds_bind_iff_and fun a => iff_true_intro (succeeds_pure (k a)), and_true]

/-- Effects for the members of a list succeed exactly if each of them does. -/
theorem succeeds_mapM_iff {f : α → ExceptT ε Id β} {as : List α} :
    Succeeds (as.mapM f) ↔ ∀ a ∈ as, Succeeds (f a) := by
  induction as with
  | nil => simp [succeeds_pure]
  | cons a as ih =>
    rw [List.mapM_cons, List.forall_mem_cons, ← ih]
    exact succeeds_bind_iff_and fun b => succeeds_bind_pure_iff (b :: ·)

end Succeeds

/-! ## Passes over blocks -/

/-- A pass over blocks succeeds exactly if the insertions at all its directives succeed. -/
theorem OnePass.succeeds_blocks_iff (options : Options)
    (insert : String → ExceptT IncludeError Id (List Block)) (bs : List Block) :
    Succeeds (OnePass.blocks options insert bs) ↔
      ∀ text ∈ Expansion.directives options bs, Succeeds (insert text) := by
  have hclosed : Splice.VisitClosed (m := ExceptT IncludeError Id) (n := Id)
      (fun _ us x _ =>
        Succeeds x ↔ ∀ text ∈ Expansion.textsOf options us, Succeeds (insert text))
      (OnePass.answer options insert) (fun _ => pure .keep) :=
    { pure := fun a => by simp [Expansion.textsOf, succeeds_pure]
      bind := by
        intro α β us vs x y f g hx hf
        rw [succeeds_bind_iff_and hf, hx, Expansion.textsOf_append, List.forall_mem_append]
      ask := by
        intro β b vs f g hfg
        rw [← List.singleton_append, Expansion.textsOf_append, List.forall_mem_append]
        rcases Expansion.answer_cases options b with
          ⟨attr, text, rfl, htexts, hanswer⟩ | ⟨htexts, hanswer⟩
        · rw [hanswer, htexts, List.forall_mem_singleton]
          exact succeeds_bind_iff_and fun new => hfg (.replace new) (.replace _ new rfl)
        · rw [hanswer, htexts]
          simpa using hfg .keep (.keep b) }
  rw [OnePass.blocks_eq, Expansion.directives_eq]
  exact Splice.blockContent_related pure pure hclosed true bs

/-! ## Expansion -/

/-- The converter that looks up what a function gives for a path and a dialect. -/
def Converter.ofFunction (source : Path → String → Except ConverterError Document) :
    Converter Id :=
  fun request => pure (source request.path request.dialect)

namespace Expansion

section Files

variable (options : Options) (source : Path → String → Except ConverterError Document)

/-- A directive is expanded if it names files and all of them can be included. -/
theorem succeeds_directive_iff (inclusion : Inclusion Id) (baseDir text : String) :
    Succeeds (directive options inclusion baseDir text) ↔
      options.references text ≠ [] ∧ ∀ ref ∈ options.references text,
        Succeeds (inclusion text (Path.resolve baseDir ref.path) ref.dialect) := by
  rw [directive, succeeds_bind_iff]
  simp only [succeeds_mapM_iff]
  constructor
  · rintro ⟨refs, hrefs, hall⟩
    obtain ⟨rfl, hne⟩ := (options.parseDirective_eq_ok_iff baseDir text refs).1 hrefs
    exact ⟨hne, hall⟩
  · rintro ⟨hne, hall⟩
    exact ⟨_, (options.parseDirective_eq_ok_iff baseDir text _).2 ⟨rfl, hne⟩, hall⟩

/-- A fragment is expanded if its directives name files and all of these can be included,
whatever the directive is called that names them. -/
theorem succeeds_fragment_iff_inclusions {inclusion : Inclusion Id} {p : Resolved → Prop}
    (hinclusion : ∀ text r, Succeeds (inclusion text r.path r.dialect) ↔ p r)
    (baseDir : String) (bs : List Block) :
    Succeeds (fragment options inclusion baseDir bs) ↔
      NamesFiles options bs ∧ ∀ r, Occurs options baseDir bs r → p r := by
  rw [fragment_eq_blocks, OnePass.succeeds_blocks_iff]
  simp only [succeeds_directive_iff, NamesFiles, Occurs]
  constructor
  · intro h
    refine ⟨fun text htext => (h text htext).1, ?_⟩
    rintro r ⟨text, htext, ref, href, rfl⟩
    exact (hinclusion text _).1 ((h text htext).2 ref href)
  · rintro ⟨hnames, hall⟩ text htext
    exact ⟨hnames text htext, fun ref href =>
      (hinclusion text (.ofReference baseDir ref)).2 (hall _ ⟨text, htext, ref, href, rfl⟩)⟩

/-- A file is included if it is not open, there is room, it is converted, and what it becomes is
expanded with the file open; the division holds the expansion. -/
theorem run_includeFile_eq_ok_iff (room : Nat) (openFiles : List Path) (text : String)
    (r : Resolved) (b : Block) :
    Id.run (includeFile options (.ofFunction source) room openFiles text r.path r.dialect).run =
        .ok b ↔
      r.path ∉ openFiles ∧ ∃ left, room = left + 1 ∧
        ∃ document, source r.path r.dialect = .ok document ∧
          ∃ bs, Id.run (fragment options
            (includeFile options (.ofFunction source) left (openFiles ++ [r.path])) r.directory
            document.blocks).run = .ok bs ∧ container options bs = b := by
  by_cases hopen : r.path ∈ openFiles
  · rw [includeFile_of_mem options _ text _ room hopen]
    simp [hopen]
  cases room with
  | zero =>
    rw [includeFile_zero options _ text _ hopen]
    simp
  | succ left =>
    rw [includeFile_succ options _ text _ left hopen, Converter.ofFunction]
    refine run_lift_bind_eq_ok_iff.trans ?_
    cases hsource : source r.path r.dialect with
    | error cause => simp
    | ok document =>
      simp only [run_bind_eq_ok_iff, run_pure_eq_ok_iff]
      simp [hopen, Resolved.directory]

/-- A file is included if it is not open, there is room, it is converted, and what it becomes is
expanded with the file open. -/
theorem succeeds_includeFile_iff (room : Nat) (openFiles : List Path) (text : String)
    (r : Resolved) :
    Succeeds (includeFile options (.ofFunction source) room openFiles text r.path r.dialect) ↔
      r.path ∉ openFiles ∧ ∃ left, room = left + 1 ∧
        ∃ document, source r.path r.dialect = .ok document ∧
          Succeeds (fragment options
            (includeFile options (.ofFunction source) left (openFiles ++ [r.path])) r.directory
            document.blocks) := by
  simp only [Succeeds, run_includeFile_eq_ok_iff]
  constructor
  · rintro ⟨b, hopen, left, hroom, document, hsource, bs, hbs, _⟩
    exact ⟨hopen, left, hroom, document, hsource, bs, hbs⟩
  · rintro ⟨hopen, left, hroom, document, hsource, bs, hbs⟩
    exact ⟨_, hopen, left, hroom, document, hsource, bs, hbs, rfl⟩

/-! ### By chains -/

/-- A chain inside open files ends well: no file comes twice in both together, it does not need
more room than there is, and it arrives. -/
structure EndsWell (openFiles : List Path) (room : Nat) (chain : List Resolved) : Prop where
  distinct : (openFiles ++ chain.map Resolved.path).Nodup
  fits : chain.length ≤ room
  arrives : Arrives options source chain

variable {options source}

/-- A chain of one reference ends well exactly if its file is not open, is converted and names
files in all its directives. -/
theorem endsWell_singleton_iff {openFiles : List Path} {left : Nat} {r : Resolved} :
    EndsWell options source openFiles (left + 1) [r] ↔
      (openFiles ++ [r.path]).Nodup ∧
        ∃ document, source r.path r.dialect = .ok document ∧
          NamesFiles options document.blocks := by
  constructor
  · rintro ⟨hdistinct, _, document, hreaches, hnames⟩
    exact ⟨hdistinct, document, reaches_singleton_iff.1 hreaches, hnames⟩
  · rintro ⟨hdistinct, document, hsource, hnames⟩
    exact ⟨hdistinct, by simp, document, reaches_singleton_iff.2 hsource, hnames⟩

/-- A chain of several files ends well if the rest of it does with its first file open. -/
theorem endsWell_cons_iff {openFiles : List Path} {left : Nat} {r : Resolved}
    {rest : List Resolved} (h : rest ≠ []) :
    EndsWell options source openFiles (left + 1) (r :: rest) ↔
      EndsWell options source (openFiles ++ [r.path]) left rest := by
  have hpaths : openFiles ++ (r :: rest).map Resolved.path =
      (openFiles ++ [r.path]) ++ rest.map Resolved.path := by
    simp
  have harrives : Arrives options source (r :: rest) ↔ Arrives options source rest :=
    exists_congr fun document => and_congr_left fun _ => reaches_cons_iff h
  constructor
  · rintro ⟨hdistinct, hfits, hends⟩
    exact ⟨hpaths ▸ hdistinct, Nat.le_of_succ_le_succ hfits, harrives.1 hends⟩
  · rintro ⟨hdistinct, hfits, hends⟩
    exact ⟨hpaths ▸ hdistinct, Nat.succ_le_succ hfits, harrives.2 hends⟩

/-- With no file open, a chain ends well for what it is alone. -/
theorem endsWell_nil_iff {room : Nat} {chain : List Resolved} :
    EndsWell options source [] room chain ↔
      (chain.map Resolved.path).Nodup ∧ chain.length ≤ room ∧
        ∃ document, Reaches source chain document ∧ NamesFiles options document.blocks := by
  constructor
  · rintro ⟨hdistinct, hfits, harrives⟩
    exact ⟨hdistinct, hfits, harrives⟩
  · rintro ⟨hdistinct, hfits, harrives⟩
    exact ⟨hdistinct, hfits, harrives⟩

/-- All chains end well if all files that are reached have no empty directive, and every chain is
distinct, fits and reaches a document. -/
theorem forall_endsWell_nil_iff {room : Nat} {baseDir : String} {bs : List Block} :
    (∀ chain, Chain options source baseDir bs chain → EndsWell options source [] room chain) ↔
      (∀ chain document, Chain options source baseDir bs chain →
        Reaches source chain document → NamesFiles options document.blocks) ∧
      (∀ chain, Chain options source baseDir bs chain →
        (chain.map Resolved.path).Nodup ∧ chain.length ≤ room ∧
          ∃ document, Reaches source chain document) := by
  simp only [endsWell_nil_iff]
  constructor
  · intro hwell
    refine ⟨fun chain document hchain hreaches => ?_, fun chain hchain => ?_⟩
    · obtain ⟨_, _, document', hreaches', hnames'⟩ := hwell chain hchain
      rwa [hreaches.unique hreaches']
    · obtain ⟨hdistinct, hfits, document, hreaches, _⟩ := hwell chain hchain
      exact ⟨hdistinct, hfits, document, hreaches⟩
  · rintro ⟨hreached, hwell⟩ chain hchain
    obtain ⟨hdistinct, hfits, document, hreaches⟩ := hwell chain hchain
    exact ⟨hdistinct, hfits, document, hreaches, hreached chain document hchain hreaches⟩

/-- A fragment inside open files is expanded exactly if its directives name files and all chains
from it end well. -/
theorem succeeds_fragment_iff (room : Nat) {openFiles : List Path} (hopen : openFiles.Nodup)
    (baseDir : String) (bs : List Block) :
    Succeeds (fragment options (includeFile options (.ofFunction source) room openFiles) baseDir
      bs) ↔
      NamesFiles options bs ∧ ∀ chain, Chain options source baseDir bs chain →
        EndsWell options source openFiles room chain := by
  rw [succeeds_fragment_iff_inclusions options
    (succeeds_includeFile_iff options source room openFiles), Chain.forall_iff]
  refine and_congr_right fun _ => forall₂_congr fun r _ => ?_
  cases room with
  | zero =>
    have hnone : ¬ EndsWell options source openFiles 0 [r] := fun h => by simpa using h.fits
    simp [hnone]
  | succ left =>
    have hdistinct : (openFiles ++ [r.path]).Nodup ↔ r.path ∉ openFiles := by
      rw [← List.concat_eq_append, List.nodup_concat, and_iff_left hopen]
    have hinside (document : Document) (hnew : r.path ∉ openFiles) :
        Succeeds (fragment options
            (includeFile options (.ofFunction source) left (openFiles ++ [r.path])) r.directory
            document.blocks) ↔
          NamesFiles options document.blocks ∧
            ∀ rest, Chain options source r.directory document.blocks rest →
              EndsWell options source openFiles (left + 1) (r :: rest) := by
      rw [succeeds_fragment_iff left (hdistinct.2 hnew)]
      exact and_congr_right fun _ => forall₂_congr fun rest hrest =>
        (endsWell_cons_iff hrest.ne_nil).symm
    rw [endsWell_singleton_iff, hdistinct]
    constructor
    · rintro ⟨hnew, left', hleft, document, hsource, hsucceeds⟩
      cases hleft
      obtain ⟨hnames, hchains⟩ := (hinside document hnew).1 hsucceeds
      refine ⟨⟨hnew, document, hsource, hnames⟩, fun document' hsource' => ?_⟩
      rw [hsource] at hsource'
      cases hsource'
      exact hchains
    · rintro ⟨⟨hnew, document, hsource, hnames⟩, hchains⟩
      exact ⟨hnew, left, rfl, document, hsource,
        (hinside document hnew).2 ⟨hnames, hchains document hsource⟩⟩

end Files

/-! ### Whole documents -/

variable {options : Options} {source : Path → String → Except ConverterError Document}
  {baseDir : String} {d : Document}

/-- A document is expanded exactly if its directives name files and all chains from it end
well. -/
theorem succeeds_expand_iff :
    Succeeds (d.expand options (.ofFunction source) baseDir) ↔
      NamesFiles options d.blocks ∧ ∀ chain, Chain options source baseDir d.blocks chain →
        EndsWell options source [] options.maxDepth chain := by
  rw [Document.expand, succeeds_bind_pure_iff, blocks]
  exact succeeds_fragment_iff options.maxDepth List.nodup_nil baseDir d.blocks

/-- With a converter that is a function of path and dialect, a document is expanded exactly if
every directive in it and in the files that chains reach names a file, and in every chain the
files are distinct, they are no more than may be open at once, and the last one is converted.

So a chain that comes back to a file, or is too long, makes the run fail wherever it is.  A run
that fails does so for a directive of the document, or for a chain that is at fault taken alone:
a file to which several chains lead does no harm by that. -/
theorem expand_succeeds_iff (options : Options)
    (source : Path → String → Except ConverterError Document) (baseDir : String) (d : Document) :
    let outcome := Id.run (d.expand options (.ofFunction source) baseDir).run
    ((∃ d', outcome = .ok d') ↔
      NamesFiles options d.blocks ∧
      (∀ chain document, Chain options source baseDir d.blocks chain →
        Reaches source chain document → NamesFiles options document.blocks) ∧
      (∀ chain, Chain options source baseDir d.blocks chain →
        (chain.map Resolved.path).Nodup ∧ chain.length ≤ options.maxDepth ∧
          ∃ document, Reaches source chain document)) ∧
    (∀ chain, Chain options source baseDir d.blocks chain →
      ¬ (chain.map Resolved.path).Nodup ∨ options.maxDepth < chain.length →
        ∃ e, outcome = .error e) ∧
    (∀ e, outcome = .error e → ¬ NamesFiles options d.blocks ∨
      ∃ chain, Chain options source baseDir d.blocks chain ∧
        ¬ ((chain.map Resolved.path).Nodup ∧ chain.length ≤ options.maxDepth ∧
          ∃ document, Reaches source chain document ∧ NamesFiles options document.blocks)) := by
  intro outcome
  have hsucceeds : (∃ d', outcome = .ok d') ↔ _ := succeeds_expand_iff
  have hfails : (∃ e, outcome = .error e) ↔ ¬ _ := not_succeeds_iff.symm.trans hsucceeds.not
  refine ⟨hsucceeds.trans (and_congr_right fun _ => forall_endsWell_nil_iff),
    fun chain hchain hbad => ?_, fun e he => ?_⟩
  · rw [hfails]
    rintro ⟨_, hwell⟩
    obtain ⟨hdistinct, hfits, _⟩ := endsWell_nil_iff.1 (hwell chain hchain)
    rcases hbad with hrepeats | hlong
    · exact hrepeats hdistinct
    · exact Nat.not_lt.2 hfits hlong
  · have hfault := hfails.1 ⟨e, he⟩
    rw [not_and_or] at hfault
    rcases hfault with hnames | hchains
    · exact Or.inl hnames
    · simp only [not_forall] at hchains
      obtain ⟨chain, hchain, hill⟩ := hchains
      exact Or.inr ⟨chain, hchain, fun hwell => hill (endsWell_nil_iff.2 hwell)⟩

-- Two chains lead to one file, which is included twice.
example :
    let directive text := Block.codeBlock (.ofClasses ["include"]) text
    let source (path : Path) (_ : String) : Except ConverterError Document :=
      match path.names with
      | ["a"] | ["b"] => .ok ⟨[1, 22], [], [directive "shared"]⟩
      | ["shared"] => .ok ⟨[1, 22], [], [.null]⟩
      | _ => .error (.notFound path.toText)
    let included b := Block.div (.ofClasses ["included"]) [b]
    Id.run (blocks {} (.ofFunction source) "" [directive "a\nb"]).run =
      .ok [included (included .null), included (included .null)] := by
  cbv

end Expansion

end Transclude
