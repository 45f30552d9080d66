import Mathlib
import Transclude.Proofs.Expansion.Bound
import Transclude.Proofs.Expansion.Success

/-!
# What stands in the place of a reference

With a converter that is a function of path and dialect, what a reference is replaced by depends
only on the path and the dialect that it resolves to.  The bound on open files, and which files
are open where the reference stands, can make its inclusion fail; they have no other effect.

Main results:

- Definition {lit}`Expansion.substituted`: blocks in which each reference is replaced by a
  division, whose content is a function of what the reference resolves to.
- Definition {lit}`Expansion.contentOf`: what a file expands to on its own.
- Theorem {lit}`Expansion.preserved_includeFile`: inclusion with more room and fewer open files.
- Theorem {lit}`Expansion.expand_independent`: what the bound and the place of a reference have
  to do with the expansion of a document.
-/

namespace Transclude

namespace Expansion

/-! ## The same result -/

/-- Whatever the first effect gives as a result, the second gives too. -/
def Preserved {α : Type} (x y : ExceptT IncludeError Id α) : Prop :=
  ∀ a, Id.run x.run = .ok a → Id.run y.run = .ok a

namespace Preserved

variable {α β : Type}

theorem refl (x : ExceptT IncludeError Id α) : Preserved x x :=
  fun _ hrun => hrun

/-- Nothing is asked of the second effect where the first fails. -/
theorem throw (e : IncludeError) (y : ExceptT IncludeError Id α) : Preserved (throw e) y := by
  intro a hrun
  cases hrun

theorem bind {x y : ExceptT IncludeError Id α} {f g : α → ExceptT IncludeError Id β}
    (hxy : Preserved x y) (hfg : ∀ a, Preserved (f a) (g a)) :
    Preserved (x >>= f) (y >>= g) := by
  intro b hrun
  obtain ⟨a, ha, hb⟩ := run_bind_eq_ok_iff.1 hrun
  exact run_bind_eq_ok_iff.2 ⟨a, hxy a ha, hfg a b hb⟩

end Preserved

/-- Effects on the members of a list that give a function of each member, one after the other. -/
theorem run_mapM_eq_map {α β : Type} {f : α → ExceptT IncludeError Id β} {g : α → β}
    (h : ∀ a b, Id.run (f a).run = .ok b → b = g a) {as : List α} {bs : List β}
    (hrun : Id.run (as.mapM f).run = .ok bs) : bs = as.map g := by
  induction as generalizing bs with
  | nil => exact (run_pure_eq_ok_iff.1 hrun).symm
  | cons a as ih =>
    rw [List.mapM_cons] at hrun
    obtain ⟨b, hb, hrun⟩ := run_bind_eq_ok_iff.1 hrun
    obtain ⟨rest, hrest, hrun⟩ := run_bind_eq_ok_iff.1 hrun
    rw [← run_pure_eq_ok_iff.1 hrun, List.map_cons, ih hrest, h a b hb]

section Place

variable (options : Options) (source : Path → String → Except ConverterError Document)

/-! ## Inclusion in two places -/

/-- A file that is included with some files open is included as well, and becomes the same, with
more room and only some of those files open.  What the directive is called has no effect. -/
theorem preserved_includeFile {room room' : Nat} (hroom : room ≤ room')
    {openFiles openFiles' : List Path} (hopen : openFiles' ⊆ openFiles)
    (text text' : String) (path : Path) (dialect : String) :
    Preserved (includeFile options (.ofFunction source) room openFiles text path dialect)
      (includeFile options (.ofFunction source) room' openFiles' text' path dialect) := by
  induction room generalizing room' openFiles openFiles' text text' path dialect with
  | zero =>
    by_cases hmem : path ∈ openFiles
    · rw [includeFile_of_mem _ _ _ _ _ hmem]
      exact .throw _ _
    · rw [includeFile_zero _ _ _ _ hmem]
      exact .throw _ _
  | succ room ih =>
    obtain ⟨left, rfl⟩ : ∃ left, room' = left + 1 := Nat.exists_eq_add_one.2 (by omega)
    by_cases hmem : path ∈ openFiles
    · rw [includeFile_of_mem _ _ _ _ _ hmem]
      exact .throw _ _
    · have hmem' : path ∉ openFiles' := fun h => hmem (hopen h)
      rw [includeFile_succ _ _ _ _ _ hmem, includeFile_succ _ _ _ _ _ hmem']
      refine Preserved.bind (.refl (liftM (pure (source path dialect) : Id _))) fun answer => ?_
      cases answer with
      | error cause => exact .throw _ _
      | ok document =>
        refine Preserved.bind ?_ fun bs => .refl _
        exact fragment_related options (fun _ => .refl _) Preserved.bind
          (fun text path dialect => ih (by omega) (List.append_subset.2
            ⟨List.subset_append_of_subset_left _ hopen, List.subset_append_right _ _⟩) text text
            path dialect) _ _

/-- Two inclusions of a file, wherever they are made, become the same if both succeed. -/
theorem includeFile_unique {room room' : Nat} {openFiles openFiles' : List Path}
    {text text' dialect : String} {path : Path} {b b' : Block}
    (h : Id.run (includeFile options (.ofFunction source) room openFiles text path dialect).run =
      .ok b)
    (h' : Id.run (includeFile options (.ofFunction source) room' openFiles' text' path
      dialect).run = .ok b') : b = b' := by
  -- Both are what the file becomes with no file open and room for either.
  have hfree := preserved_includeFile options source (Nat.le_max_left room room')
    (List.nil_subset openFiles) text text path dialect b h
  have hfree' := preserved_includeFile options source (Nat.le_max_right room room')
    (List.nil_subset openFiles') text' text path dialect b' h'
  exact Except.ok.inj (hfree.symm.trans hfree')

/-! ## Substitution -/

/-- Blocks in which every directive makes way for divisions, one for each reference, whose
content is given by what the reference resolves to. -/
def substituted (content : Resolved → List Block) (baseDir : String) (bs : List Block) :
    List Block :=
  Id.run (OnePass.blocks options
    (fun text => pure ((options.references text).map fun ref =>
      container options (content (.ofReference baseDir ref)))) bs)

/-- A fragment is expanded by substitution if the inclusions of files are given by what the
references resolve to. -/
theorem fragment_eq_substituted {inclusion : Inclusion Id} {content : Resolved → List Block}
    (hinclusion : ∀ text r b, Id.run (inclusion text r.path r.dialect).run = .ok b →
      b = container options (content r))
    {baseDir : String} {bs out : List Block}
    (hrun : Id.run (fragment options inclusion baseDir bs).run = .ok out) :
    out = substituted options content baseDir bs := by
  rw [fragment_eq_blocks] at hrun
  refine blocks_related options (m := ExceptT IncludeError Id) (n := Id)
    (R := fun _ x y => ∀ a, Id.run x.run = .ok a → a = Id.run y) _ _ ?_ ?_ (fun text _ => ?_) out
    hrun
  · intro α a a' h
    exact (run_pure_eq_ok_iff.1 h).symm
  · intro α β x y f g hxy hfg b hb
    obtain ⟨a, ha, hb⟩ := run_bind_eq_ok_iff.1 hb
    rw [hxy a ha] at hb
    exact hfg _ b hb
  · intro slot hslot
    obtain ⟨refs, hrefs, hslot⟩ := run_bind_eq_ok_iff.1 hslot
    obtain ⟨rfl, _⟩ := (options.parseDirective_eq_ok_iff baseDir text refs).1 hrefs
    exact run_mapM_eq_map (fun ref b => hinclusion text (.ofReference baseDir ref) b) hslot

/-- What a file expands to on its own, with no file open: nothing if that fails. -/
def contentOf (r : Resolved) : List Block :=
  match source r.path r.dialect with
  | .error _ => []
  | .ok document =>
    match Id.run (blocks options (.ofFunction source) r.directory document.blocks).run with
    | .error _ => []
    | .ok bs => bs

/-- What a file that is open expands to, and what it expands to on its own. -/
theorem contentOf_eq {left : Nat} (hleft : left ≤ options.maxDepth) {openFiles : List Path}
    {r : Resolved} {document : Document} {bs : List Block}
    (hsource : source r.path r.dialect = .ok document)
    (hrun : Id.run (fragment options (includeFile options (.ofFunction source) left openFiles)
      r.directory document.blocks).run = .ok bs) :
    Id.run (blocks options (.ofFunction source) r.directory document.blocks).run = .ok bs ∧
      contentOf options source r = bs := by
  have hblocks : Id.run (blocks options (.ofFunction source) r.directory
      document.blocks).run = .ok bs :=
    fragment_related options (fun _ => .refl _) Preserved.bind
      (fun text path dialect => preserved_includeFile options source hleft
        (List.nil_subset openFiles) text text path dialect) _ _ bs hrun
  exact ⟨hblocks, by simp only [contentOf, hsource, hblocks]⟩

/-- A file becomes the division of its content, within the bound. -/
theorem includeFile_eq_container {room : Nat} (hroom : room ≤ options.maxDepth)
    {openFiles : List Path} {text : String} {r : Resolved} {b : Block}
    (hrun : Id.run (includeFile options (.ofFunction source) room openFiles text r.path
      r.dialect).run = .ok b) : b = container options (contentOf options source r) := by
  obtain ⟨_, left, rfl, document, hsource, bs, hbs, rfl⟩ :=
    (run_includeFile_eq_ok_iff options source room openFiles text r b).1 hrun
  rw [(contentOf_eq options source (by omega) hsource hbs).2]

/-- An expansion within the bound is a substitution. -/
theorem blocks_eq_substituted {baseDir : String} {bs out : List Block}
    (hrun : Id.run (blocks options (.ofFunction source) baseDir bs).run = .ok out) :
    out = substituted options (contentOf options source) baseDir bs :=
  fragment_eq_substituted options
    (fun _ _ _ => includeFile_eq_container options source (Nat.le_refl _)) hrun

/-! ## References at every level -/

variable {options source}

/-- Where a fragment is expanded, so is every file that a chain from it leads to, with no more
room than there is for the fragment. -/
theorem succeeds_of_chain {baseDir : String} {bs : List Block} {chain : List Resolved}
    (hchain : Chain options source baseDir bs chain) {room : Nat} {openFiles : List Path}
    (hsucceeds : Succeeds (fragment options
      (includeFile options (.ofFunction source) room openFiles) baseDir bs))
    {r : Resolved} (hlast : chain.getLast? = some r) :
    ∃ document, source r.path r.dialect = .ok document ∧
      ∃ left ≤ room, ∃ openFiles', Succeeds (fragment options
        (includeFile options (.ofFunction source) left openFiles') r.directory
        document.blocks) := by
  induction hchain generalizing room openFiles with
  | single hr =>
    obtain rfl : _ = r := Option.some.inj hlast
    obtain ⟨_, hincluded⟩ := (succeeds_fragment_iff_inclusions options
      (succeeds_includeFile_iff options source room openFiles) _ _).1 hsucceeds
    obtain ⟨_, left, rfl, document, hsource, hinside⟩ := hincluded _ hr
    exact ⟨document, hsource, left, by omega, _, hinside⟩
  | cons hr hsource hrest ih =>
    obtain ⟨_, hincluded⟩ := (succeeds_fragment_iff_inclusions options
      (succeeds_includeFile_iff options source room openFiles) _ _).1 hsucceeds
    obtain ⟨_, left, rfl, document, hsource', hinside⟩ := hincluded _ hr
    cases hsource.symm.trans hsource'
    obtain ⟨document, hsource, left', hleft, openFiles', hfinal⟩ := ih hinside (by
      rwa [List.getLast?_cons_of_ne_nil hrest.ne_nil] at hlast)
    exact ⟨document, hsource, left', by omega, openFiles', hfinal⟩

end Place

/-- The bound and the place of a reference have a say in whether a run fails, and in nothing
else.

A run that ends in a document, or in an error other than the lack of room, ends in the same with
a greater bound, and asks the converter for the same files in the same order.  If the converter is
a function of path and dialect, each reference in a document that is expanded, and in the files
that chains of references lead to, is replaced by a division whose content is a function of what
the reference resolves to: what the file expands to on its own.  So any two inclusions of a file
become the same division, with whatever room and inside whatever open files. -/
theorem expand_independent {σ : Type} (options : Options) (baseDir : String) (d : Document) :
    (∀ (converter : Converter (StateM σ)) (depth : Nat), options.maxDepth ≤ depth →
      ∀ s outcome after,
        StateT.run (d.expand options converter.recording baseDir).run (s, []) = (outcome, after) →
        (∀ bound path, outcome ≠ .error (.depthExceeded bound path)) →
        StateT.run (d.expand (options.allowing depth) converter.recording baseDir).run (s, []) =
          (outcome, after)) ∧
    (∀ source d', Id.run (d.expand options (.ofFunction source) baseDir).run = .ok d' →
      d' = { d with
        blocks := substituted options (contentOf options source) baseDir d.blocks } ∧
      ∀ chain r, Chain options source baseDir d.blocks chain → chain.getLast? = some r →
        ∃ document, source r.path r.dialect = .ok document ∧
          contentOf options source r =
            substituted options (contentOf options source) r.directory document.blocks ∧
          Id.run (document.expand options (.ofFunction source) r.directory).run =
            .ok { document with blocks := contentOf options source r }) ∧
    (∀ source room room' openFiles openFiles' text text' path dialect b b',
      Id.run (includeFile options (.ofFunction source) room openFiles text path dialect).run =
        .ok b →
      Id.run (includeFile options (.ofFunction source) room' openFiles' text' path dialect).run =
        .ok b' →
      b = b') := by
  refine ⟨?_, ?_, ?_⟩
  · intro converter depth hdepth s outcome after hrun hout
    refine coveredBy_expand options converter.recording depth hdepth baseDir d _ _ _ hrun ?_
    rintro ⟨bound, path, houtcome⟩
    exact hout bound path houtcome
  · intro source d' hrun
    obtain ⟨out, hout, hd'⟩ := run_bind_eq_ok_iff.1 hrun
    rw [run_pure_eq_ok_iff] at hd'
    refine ⟨?_, fun chain r hchain hlast => ?_⟩
    · rw [← hd', blocks_eq_substituted options source hout]
    · obtain ⟨document, hsource, left, hleft, openFiles, bs, hbs⟩ :=
        succeeds_of_chain hchain ⟨out, hout⟩ hlast
      obtain ⟨hblocks, hcontent⟩ := contentOf_eq options source hleft hsource hbs
      refine ⟨document, hsource, ?_, ?_⟩
      · rw [hcontent]
        exact blocks_eq_substituted options source hblocks
      · rw [hcontent]
        exact run_bind_eq_ok_iff.2 ⟨bs, hblocks, rfl⟩
  · intro source room room' openFiles openFiles' text text' path dialect b b'
    exact includeFile_unique options source

/-- Two files that both include a third one, where at most two files may be open at once.  With
room for five the run is the same; the third file becomes the same division inside either file. -/
theorem expand_independent_shared :
    let directive text := Block.codeBlock (.ofClasses ["include"]) text
    let included bs := Block.div (.ofClasses ["included"]) bs
    let source (path : Path) (_ : String) : Except ConverterError Document :=
      match path.names with
      | ["a"] | ["b"] => .ok ⟨[1, 22], [], [directive "shared"]⟩
      | ["shared"] => .ok ⟨[1, 22], [], [.null]⟩
      | _ => .error (.notFound path.toText)
    let options : Options := { maxDepth := 2 }
    let d : Document := ⟨[1, 22], [], [.para [.note [directive "a"]], directive "b"]⟩
    let d' : Document :=
      ⟨[1, 22], [], [.para [.note [included [included [.null]]]], included [included [.null]]]⟩
    let converter : Converter (StateM Unit) := fun r => pure (source r.path r.dialect)
    let file name : Path := ⟨.above 0, [name]⟩
    StateT.run (d.expand (options.allowing 5) converter.recording "").run ((), []) =
      (.ok d', (), [⟨file "a", "markdown", []⟩, ⟨file "shared", "markdown", [file "a"]⟩,
        ⟨file "b", "markdown", []⟩, ⟨file "shared", "markdown", [file "b"]⟩]) ∧
    d'.blocks = substituted options (contentOf options source) "" d.blocks ∧
    contentOf options source ⟨file "a", "markdown"⟩ =
      substituted options (contentOf options source) "" [directive "shared"] ∧
    (∀ b b', Id.run (includeFile options (.ofFunction source) 1 [file "a"] "shared" (file "shared")
        "markdown").run = .ok b →
      Id.run (includeFile options (.ofFunction source) 1 [file "b"] "shared" (file "shared")
        "markdown").run = .ok b' → b = b') := by
  intro directive included source options d d' converter file
  obtain ⟨hbound, hplace, hunique⟩ := expand_independent (σ := Unit) options "" d
  obtain ⟨hblocks, hfiles⟩ := hplace source d' (by cbv)
  refine ⟨?_, ?_, ?_, ?_⟩
  · exact hbound converter 5 (by decide) () _ _ (by cbv) (by simp)
  · exact congrArg Document.blocks hblocks
  · have hoccurs : Occurs options "" d.blocks ⟨file "a", "markdown"⟩ :=
      ⟨"a", by cbv; exact .head _, ⟨"a", "markdown"⟩, by cbv; exact .head _, by cbv⟩
    obtain ⟨document, hsource, hcontent, _⟩ := hfiles _ _ (.single hoccurs) rfl
    cases hsource
    exact hcontent
  · exact fun b b' => hunique source 1 1 [file "a"] [file "b"] "shared" "shared" _ _ b b'

end Expansion

end Transclude
