import Mathlib
import Transclude.Proofs.Expansion.Equivalence
import Transclude.Proofs.Expansion.Gaps
import Transclude.Proofs.Expansion.Results

/-!
# Directives of several lines

A directive that lists several files means the same as several directives, one after the other,
that list them between them.  The two ways to write it differ in one thing only: when a file is
not converted, the error quotes the directive that names it.

Main results:

- Definition {lit}`Expansion.Agree`: effects that differ in the quoted texts only.
- Theorem {lit}`Expansion.directive_agree`: a directive agrees with its two halves.
- Theorem {lit}`Expansion.expand_apart`: documents that have the one or the other in the same
  place are expanded alike.
-/

namespace Transclude

variable {σ : Type}

namespace Expansion

/-! ## Errors that quote another directive -/

/-- An outcome instead of another: the same one, or a failure to convert the same file for the
same cause that quotes another text. -/
inductive Requoted (text : String) (texts : List String) {α : Type} :
    Except IncludeError α → Except IncludeError α → Prop
  | same (outcome : Except IncludeError α) : Requoted text texts outcome outcome
  | convert {text' : String} (htext : text' ∈ texts) (path : Path) (cause : ConverterError) :
    Requoted text texts (.error (.convert path text cause)) (.error (.convert path text' cause))

/-- Effects that leave the same state and have the same outcome but for a quoted text. -/
def Agree (text : String) (texts : List String) {α : Type}
    (x y : ExceptT IncludeError (StateM σ) α) : Prop :=
  ∀ s, Requoted text texts (StateT.run x.run s).1 (StateT.run y.run s).1 ∧
    (StateT.run x.run s).2 = (StateT.run y.run s).2

variable {text : String} {texts : List String}

/-- Agreement goes along with what comes after. -/
theorem agree_congruent :
    Congruent (m := ExceptT IncludeError (StateM σ)) fun _ => Agree text texts where
  refl x s := ⟨.same _, rfl⟩
  bind := by
    intro α β x y f g hxy hfg s
    obtain ⟨houtcome, hstate⟩ := hxy s
    rw [run_bind, run_bind]
    generalize StateT.run x.run s = result at houtcome hstate
    generalize StateT.run y.run s = result' at houtcome hstate
    obtain ⟨outcome, s₁⟩ := result
    obtain ⟨outcome', s₂⟩ := result'
    cases hstate
    cases houtcome with
    | same =>
      cases outcome with
      | error e => exact ⟨.same _, rfl⟩
      | ok a => exact hfg a s₁
    | convert htext path cause => exact ⟨.convert htext path cause, rfl⟩

/-- Effects on a list agree if they do on each member. -/
theorem agree_mapM {α β : Type} {f g : α → ExceptT IncludeError (StateM σ) β}
    (h : ∀ a, Agree text texts (f a) (g a)) (as : List α) :
    Agree text texts (as.mapM f) (as.mapM g) := by
  induction as with
  | nil => exact agree_congruent.refl _
  | cons a as ih =>
    rw [List.mapM_cons, List.mapM_cons]
    exact agree_congruent.bind (h a) fun b => agree_congruent.first ih

variable (options : Options) (converter : Converter (StateM σ))

/-- A file is included alike whatever directive names it. -/
theorem includeFile_agree {text' : String} (htext : text' ∈ texts) (room : Nat)
    (openFiles : List Path) (path : Path) (dialect : String) :
    Agree text texts (includeFile options converter room openFiles text path dialect)
      (includeFile options converter room openFiles text' path dialect) := by
  by_cases hopen : path ∈ openFiles
  · rw [includeFile_of_mem _ _ _ _ _ hopen, includeFile_of_mem _ _ _ _ _ hopen]
    exact agree_congruent.refl _
  cases room with
  | zero =>
    rw [includeFile_zero _ _ _ _ hopen, includeFile_zero _ _ _ _ hopen]
    exact agree_congruent.refl _
  | succ room =>
    rw [includeFile_succ _ _ _ _ _ hopen, includeFile_succ _ _ _ _ _ hopen]
    apply agree_congruent.later
    intro answer
    cases answer with
    | error cause => exact fun s => ⟨.convert htext path cause, rfl⟩
    | ok document => exact agree_congruent.refl _

/-! ## Directives -/

/-- A directive that names files makes way for what they become, in listed order. -/
theorem directive_of_filled (inclusion : Inclusion (StateM σ)) (baseDir : String)
    (h : Options.filledLines text ≠ []) :
    directive options inclusion baseDir text =
      (options.references text).mapM fun ref =>
        inclusion text (Path.resolve baseDir ref.path) ref.dialect := by
  have hrefs : options.references text ≠ [] := by
    rwa [Options.references, ne_eq, List.map_eq_nil_iff]
  have hparse : options.parseDirective baseDir text = .ok (options.references text) :=
    (options.parseDirective_eq_ok_iff baseDir text _).2 ⟨rfl, hrefs⟩
  rw [directive, hparse]
  rfl

/-- A directive agrees with its two halves, each of which names files. -/
theorem directive_agree (room : Nat) (openFiles : List Path) (baseDir : String)
    {text₁ text₂ : String} (h₁ : Options.filledLines text₁ ≠ [])
    (h₂ : Options.filledLines text₂ ≠ []) :
    Agree (text₁ ++ "\n" ++ text₂) [text₁, text₂]
      (directive options (includeFile options converter room openFiles) baseDir
        (text₁ ++ "\n" ++ text₂))
      (do
        let new₁ ← directive options (includeFile options converter room openFiles) baseDir text₁
        let new₂ ← directive options (includeFile options converter room openFiles) baseDir text₂
        return new₁ ++ new₂) := by
  have hboth : Options.filledLines (text₁ ++ "\n" ++ text₂) ≠ [] := by
    rw [Options.filledLines_append]
    exact List.append_ne_nil_of_left_ne_nil h₁ _
  rw [directive_of_filled options _ baseDir hboth, directive_of_filled options _ baseDir h₁,
    directive_of_filled options _ baseDir h₂, Options.references_append, List.mapM_append]
  apply agree_congruent.bind
  · exact agree_mapM (fun ref => includeFile_agree options converter (by simp) _ _ _ _) _
  · intro new₁
    apply agree_congruent.first
    exact agree_mapM (fun ref => includeFile_agree options converter (by simp) _ _ _ _) _

variable {options}

/-- A pass over a directive alone inserts what is inserted for it. -/
theorem blocks_directive {m : Type → Type} [Monad m] [LawfulMonad m] {attr : Attr}
    (hattr : options.isDirective attr = true) (insert : String → m (List Block)) (text : String) :
    OnePass.blocks options insert [.codeBlock attr text] = insert text := by
  simp [OnePass.blocks, OnePass.block, hattr]

/-- A pass over two directives inserts what is inserted for one and then for the other. -/
theorem blocks_two_directives {m : Type → Type} [Monad m] [LawfulMonad m] {attr : Attr}
    (hattr : options.isDirective attr = true) (insert : String → m (List Block))
    (text₁ text₂ : String) :
    OnePass.blocks options insert [.codeBlock attr text₁, .codeBlock attr text₂] = (do
      let new₁ ← insert text₁
      return new₁ ++ (← insert text₂)) := by
  rw [← List.singleton_append, OnePass.blocks_append, blocks_directive hattr,
    blocks_directive hattr]

/-! ## Divisions -/

variable (options)

/-- A division that the inclusion of the file of a reference ends in. -/
def DivisionOf (baseDir : String) (ref : Reference) (b : Block) : Prop :=
  (∃ bs, b = container options bs) ∧
  ∃ text s s', StateT.run (includeFile options converter options.maxDepth [] text
    (Path.resolve baseDir ref.path) ref.dialect).run s = (.ok b, s')

/-- What a file is included as is a division. -/
theorem Included.isContainer {options : Options} {post : Nat → List Block → Prop} {room : Nat}
    {b : Block} (h : Included options post room b) : ∃ bs, b = container options bs := by
  cases h with
  | file => exact ⟨_, rfl⟩

/-- A directive makes way for one division for each reference, in listed order. -/
theorem givesOnly_divisions (baseDir : String) {text : String}
    (h : Options.filledLines text ≠ []) :
    GivesOnly (List.Forall₂ (DivisionOf options converter baseDir) (options.references text))
      (directive options (includeFile options converter options.maxDepth []) baseDir text) := by
  rw [directive_of_filled options _ baseDir h]
  induction options.references text with
  | nil => exact GivesOnly.asserts.pure .nil
  | cons ref refs ih =>
    rw [List.mapM_cons]
    have hdivision : GivesOnly (DivisionOf options converter baseDir ref)
        (includeFile options converter options.maxDepth [] text (Path.resolve baseDir ref.path)
          ref.dialect) := by
      intro s b s' hrun
      have hfile : Included options (fun _ _ => True) options.maxDepth b :=
        givesOnly_includeFile (fun _ _ _ _ _ => trivial)
          (fun _ _ _ (_ : Document) (_ : True) _ => .trivial _)
          options.maxDepth [] text (Path.resolve baseDir ref.path) ref.dialect s b s' hrun
      exact ⟨hfile.isContainer, text, s, s', hrun⟩
    exact GivesOnly.asserts.map₂ hdivision ih fun b bs hb hbs => .cons hb hbs

/-! ## Documents -/

/-- A directive of two texts, one below the other, means the same as two directives that stand
next to each other, in whatever place of a document: in a container, a list item, a table cell or
a note.  Both documents have the same outcome and lead to the same requests; only a failed
conversion quotes the text of the directive that is there.  In place of the directive, or of the
two, there is one division for each reference, in listed order. -/
theorem expand_apart (options : Options) (converter : Converter (StateM σ)) (baseDir : String)
    (d : Document) (gap : BlocksGap) {attr : Attr} (hattr : options.isDirective attr = true)
    {text₁ text₂ : String} (h₁ : Options.filledLines text₁ ≠ [])
    (h₂ : Options.filledLines text₂ ≠ []) (s : σ) :
    let joined : Document :=
      { d with blocks := gap.plug [.codeBlock attr (text₁ ++ "\n" ++ text₂)] }
    let apart : Document :=
      { d with blocks := gap.plug [.codeBlock attr text₁, .codeBlock attr text₂] }
    let result := StateT.run (joined.expand options converter.recording baseDir).run (s, [])
    let result' := StateT.run (apart.expand options converter.recording baseDir).run (s, [])
    Requoted (text₁ ++ "\n" ++ text₂) [text₁, text₂] result.1 result'.1 ∧
    result.2 = result'.2 ∧
    ∀ d', result.1 = .ok d' → result'.1 = .ok d' ∧ ∃ gap' divisions,
      d' = { d with blocks := BlocksGap.plug divisions gap' } ∧
      List.Forall₂ (DivisionOf options converter.recording baseDir)
        (options.references text₁ ++ options.references text₂) divisions := by
  intro joined apart result result'
  have hblocks : Agree (text₁ ++ "\n" ++ text₂) [text₁, text₂]
      (blocks options converter.recording baseDir joined.blocks)
      (blocks options converter.recording baseDir apart.blocks) := by
    rw [blocks, blocks, fragment_eq_blocks, fragment_eq_blocks]
    apply gap.blocks_related agree_congruent
    rw [blocks_directive hattr, blocks_two_directives hattr]
    exact directive_agree options converter.recording options.maxDepth [] baseDir h₁ h₂
  have hexpand : Agree (text₁ ++ "\n" ++ text₂) [text₁, text₂]
      (joined.expand options converter.recording baseDir)
      (apart.expand options converter.recording baseDir) :=
    agree_congruent.first hblocks
  have hplugged : GivesOnly (fun d' : Document => ∃ gap' divisions,
      d' = { d with blocks := BlocksGap.plug divisions gap' } ∧
      List.Forall₂ (DivisionOf options converter.recording baseDir)
        (options.references text₁ ++ options.references text₂) divisions)
      (joined.expand options converter.recording baseDir) := by
    have hboth : Options.filledLines (text₁ ++ "\n" ++ text₂) ≠ [] := by
      rw [Options.filledLines_append]
      exact List.append_ne_nil_of_left_ne_nil h₁ _
    have hslot := givesOnly_divisions options converter.recording baseDir hboth
    rw [Options.references_append, ← blocks_directive hattr (directive options
      (includeFile options converter.recording options.maxDepth []) baseDir)] at hslot
    have hout := gap.blocks_plugged GivesOnly.asserts GivesOnly.trivial hslot
    rw [← fragment_eq_blocks] at hout
    refine GivesOnly.asserts.map hout ?_
    rintro _ ⟨gap', divisions, rfl, hdivisions⟩
    exact ⟨gap', divisions, rfl, hdivisions⟩
  obtain ⟨houtcome, hstate⟩ := hexpand (s, [])
  refine ⟨houtcome, hstate, fun d' hd' => ⟨?_, hplugged (s, []) d' result.2 (Prod.ext hd' rfl)⟩⟩
  change Requoted _ _ result.1 result'.1 at houtcome
  generalize result'.1 = outcome' at houtcome ⊢
  rw [hd'] at houtcome
  cases houtcome
  rfl

/-- Two files in a note, listed by one directive whose first line ends in a carriage return, or by
two directives. -/
theorem expand_apart_note :
    let attr := Attr.ofClasses ["include"]
    let note directives : Document :=
      ⟨[1, 17], [], [.horizontalRule, .plain [.note (directives ++ [.null])]]⟩
    let converter : Converter (StateM Nat) := fun request n =>
      (.ok ⟨[1, 17], [], [.codeBlock .empty request.dialect]⟩, n + 1)
    let division text := Block.div (.ofClasses ["included"]) [.codeBlock .empty text]
    let joined := note [.codeBlock attr ("a\r" ++ "\n" ++ "\nb!org")]
    let apart := note [.codeBlock attr "a\r", .codeBlock attr "\nb!org"]
    let d' := note [division "markdown", division "org"]
    let requests : List Request :=
      [⟨⟨.above 0, ["a"]⟩, "markdown", []⟩, ⟨⟨.above 0, ["b"]⟩, "org", []⟩]
    StateT.run (joined.expand {} converter.recording "").run (0, []) = (.ok d', 2, requests) ∧
      StateT.run (apart.expand {} converter.recording "").run (0, []) = (.ok d', 2, requests) := by
  intro attr note converter division joined apart d' requests
  have hjoined : StateT.run (joined.expand {} converter.recording "").run (0, []) =
      (.ok d', 2, requests) := by cbv
  have hattr : Options.isDirective {} attr = true := by cbv
  have hfirst : (Options.filledLines "a\r").isEmpty = false := by cbv
  have hsecond : (Options.filledLines "\nb!org").isEmpty = false := by cbv
  obtain ⟨_, hstate, hok⟩ := expand_apart {} converter "" ⟨[1, 17], [], []⟩
    (.later .horizontalRule (.first (.plain (.first (.note (.here [.null])) [])) []))
    hattr (List.isEmpty_eq_false_iff.1 hfirst) (List.isEmpty_eq_false_iff.1 hsecond) 0
  have hdocument := (hok d' (congrArg Prod.fst hjoined)).1
  exact ⟨hjoined, Prod.ext hdocument (hstate.symm.trans (congrArg Prod.snd hjoined))⟩

end Expansion

end Transclude
