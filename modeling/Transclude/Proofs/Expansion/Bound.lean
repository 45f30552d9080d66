import Transclude.Proofs.Expansion.Equivalence

/-!
# A greater bound on open files

Expansion with a bound is compared with expansion that allows more files to be open at once.  As
long as the first does not run out of room, the second does the same step by step: it ends in the
same result or error, and leaves the same state.

Main results:

- Definition {lit}`Options.allowing`: the same options with another bound.
- Definition {lit}`Expansion.CoveredBy`: an effect ends as another one does, unless that one runs
  out of room.
- Theorem {lit}`Expansion.coveredBy_includeFile`: inclusion of a file with more room.
- Theorem {lit}`Expansion.coveredBy_expand`: expansion of a document with a greater bound.
-/

namespace Transclude

/-- The same options with another bound on the files that may be open at once. -/
def Options.allowing (options : Options) (depth : Nat) : Options :=
  { options with maxDepth := depth }

namespace Expansion

variable {σ : Type}

/-! ## Effects that do not run out of room -/

/-- An outcome is the lack of room. -/
def RanOut {α : Type} (outcome : Except IncludeError α) : Prop :=
  ∃ bound path, outcome = .error (.depthExceeded bound path)

/-- Whatever the first effect ends in, unless it runs out of room, the second ends in it too, and
leaves the same state. -/
def CoveredBy {α : Type} (x y : ExceptT IncludeError (StateM σ) α) : Prop :=
  ∀ s outcome s', StateT.run x.run s = (outcome, s') → ¬ RanOut outcome →
    StateT.run y.run s = (outcome, s')

namespace CoveredBy

variable {α β : Type}

theorem refl (x : ExceptT IncludeError (StateM σ) α) : CoveredBy x x :=
  fun _ _ _ hrun _ => hrun

/-- Nothing is asked of the second effect where the first lacks room. -/
theorem depthExceeded (bound : Nat) (path : Path) (y : ExceptT IncludeError (StateM σ) α) :
    CoveredBy (throw (.depthExceeded bound path)) y := by
  intro s outcome s' hrun hout
  cases hrun
  exact absurd ⟨bound, path, rfl⟩ hout

theorem bind {x y : ExceptT IncludeError (StateM σ) α}
    {f g : α → ExceptT IncludeError (StateM σ) β} (hxy : CoveredBy x y)
    (hfg : ∀ a, CoveredBy (f a) (g a)) : CoveredBy (x >>= f) (y >>= g) := by
  intro s outcome s' hrun hout
  rw [run_bind] at hrun ⊢
  rcases hx : StateT.run x.run s with ⟨e | a, next⟩
  · rw [hx] at hrun
    cases hrun
    have hkept : ¬ RanOut (.error e : Except IncludeError α) := by
      rintro ⟨bound, path, he⟩
      cases he
      exact hout ⟨bound, path, rfl⟩
    rw [hxy s _ _ hx hkept]
  · rw [hx] at hrun
    have hkept : ¬ RanOut (.ok a : Except IncludeError α) := by
      rintro ⟨bound, path, he⟩
      cases he
    rw [hxy s _ _ hx hkept]
    exact hfg a next outcome s' hrun hout

end CoveredBy

/-! ## Inclusion -/

variable (options : Options) (converter : Converter (StateM σ)) (depth : Nat)

/-- The bound plays no part in how a fragment is expanded, given a way to include files. -/
theorem fragment_allowing {m : Type → Type} [Monad m] (inclusion : Inclusion m)
    (baseDir : String) (bs : List Block) :
    fragment (options.allowing depth) inclusion baseDir bs =
      fragment options inclusion baseDir bs :=
  rfl

/-- A fragment is covered if the inclusions of its files are. -/
theorem coveredBy_fragment {inclusion inclusion' : Inclusion (StateM σ)}
    (hinclusion : ∀ text path dialect,
      CoveredBy (inclusion text path dialect) (inclusion' text path dialect))
    (baseDir : String) (bs : List Block) :
    CoveredBy (fragment options inclusion baseDir bs)
      (fragment (options.allowing depth) inclusion' baseDir bs) := by
  rw [fragment_allowing]
  exact fragment_related options (fun r => .refl _) CoveredBy.bind hinclusion baseDir bs

/-- A file is included with more room as it is with less, unless the lesser room runs out.  The
files that are open are the same in both, so both meet the same cycles. -/
theorem coveredBy_includeFile {room room' : Nat} (hroom : room ≤ room') (openFiles : List Path)
    (text : String) (path : Path) (dialect : String) :
    CoveredBy (includeFile options converter room openFiles text path dialect)
      (includeFile (options.allowing depth) converter room' openFiles text path dialect) := by
  induction room generalizing room' openFiles text path dialect with
  | zero =>
    by_cases hopen : path ∈ openFiles
    · rw [includeFile_of_mem _ _ _ _ _ hopen, includeFile_of_mem _ _ _ _ _ hopen]
      exact .refl _
    · rw [includeFile_zero _ _ _ _ hopen]
      exact .depthExceeded _ _ _
  | succ room ih =>
    obtain ⟨left, rfl⟩ : ∃ left, room' = left + 1 := Nat.exists_eq_add_one.2 (by omega)
    by_cases hopen : path ∈ openFiles
    · rw [includeFile_of_mem _ _ _ _ _ hopen, includeFile_of_mem _ _ _ _ _ hopen]
      exact .refl _
    · rw [includeFile_succ _ _ _ _ _ hopen, includeFile_succ _ _ _ _ _ hopen]
      refine CoveredBy.bind (.refl _) fun answer => ?_
      cases answer with
      | error cause => exact .refl _
      | ok document =>
        refine CoveredBy.bind ?_ fun bs => .refl _
        exact coveredBy_fragment options depth
          (fun text path dialect => ih (by omega) _ text path dialect) _ _

/-- A document is expanded with a greater bound as it is with a lesser one, unless that does not
suffice. -/
theorem coveredBy_expand (hdepth : options.maxDepth ≤ depth) (baseDir : String) (d : Document) :
    CoveredBy (d.expand options converter baseDir)
      (d.expand (options.allowing depth) converter baseDir) := by
  refine CoveredBy.bind ?_ fun bs => .refl _
  exact coveredBy_fragment options depth
    (fun text path dialect => coveredBy_includeFile options converter depth hdepth [] text path
      dialect) baseDir d.blocks

end Expansion

end Transclude
