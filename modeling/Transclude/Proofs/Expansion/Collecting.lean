import Transclude.Proofs.Expansion.Failure

/-!
# The documents in a document

Expansion with a converter that collects the documents it gives.  A run that succeeds does not
change if the converter refuses all documents but those that the run has collected, so what is
known of these may be assumed of every document that the converter gives.

Main results:

- Definition {lit}`Converter.collecting`: a converter that collects the documents it gives.
- Definition {lit}`Converter.admitting`: a converter that refuses some documents.
- Theorem {lit}`Expansion.admitted_expand`: expansion with the one converter and with the other.
-/

namespace Transclude

variable {σ : Type}

namespace Converter

/-- The converter that also collects the documents that it gives. -/
def collecting (converter : Converter (StateM σ)) : Converter (StateM (σ × List Document)) :=
  fun request (s, given) =>
    let (answer, s') := StateT.run (converter request) s
    (answer, s', given ++ answer.toOption.toList)

section Admitting

variable (accept : Document → Prop) [DecidablePred accept]

/-- An answer in which a document that is not acceptable is refused, as if there were no file. -/
def screened : Except ConverterError Document → Except ConverterError Document
  | .ok document => if accept document then .ok document else .error (.notFound "")
  | .error cause => .error cause

/-- The converter that refuses the documents which are not acceptable. -/
def admitting (converter : Converter (StateM σ)) : Converter (StateM σ) :=
  fun request s =>
    let (answer, s') := StateT.run (converter request) s
    (screened accept answer, s')

/-- A document that is given after all is acceptable. -/
theorem accept_of_screened {answer : Except ConverterError Document} {document : Document}
    (h : screened accept answer = .ok document) : accept document := by
  unfold screened at h
  split at h
  · split at h
    · next haccept =>
      cases h
      exact haccept
    · cases h
  · cases h

/-- An acceptable answer stays. -/
theorem screened_eq_self {answer : Except ConverterError Document}
    (h : ∀ document ∈ answer.toOption, accept document) : screened accept answer = answer := by
  cases answer with
  | error cause => rfl
  | ok document => exact if_pos (h document rfl)

/-- A converter that admits only acceptable documents answers with such. -/
theorem accept_of_admitting {converter : Converter (StateM σ)} {request : Request} {s s' : σ}
    {document : Document}
    (h : StateT.run (converter.admitting accept request) s = (.ok document, s')) :
    accept document :=
  accept_of_screened accept (congrArg Prod.fst h)

end Admitting

/-- A converter that refuses no document is the converter itself. -/
theorem admitting_true (converter : Converter (StateM σ)) :
    converter.admitting (fun _ => True) = converter := by
  funext request s
  exact Prod.ext (screened_eq_self _ fun _ _ => trivial) rfl

end Converter

namespace Expansion

/-! ## Runs that collect acceptable documents -/

variable (accept : Document → Prop)

/-- If all documents are acceptable that have been collected when the first effect ends in a
result, then so are those collected before, and the second effect ends in the same result. -/
def Admitted {α : Type} (x : ExceptT IncludeError (StateM (σ × List Document)) α)
    (y : ExceptT IncludeError (StateM σ) α) : Prop :=
  ∀ s given a s' given', StateT.run x.run (s, given) = (.ok a, s', given') →
    (∀ document ∈ given', accept document) →
    (∀ document ∈ given, accept document) ∧ StateT.run y.run s = (.ok a, s')

namespace Admitted

variable {accept} {α β : Type}

/-- A finished outcome collects nothing. -/
theorem done (r : Except IncludeError α) :
    Admitted (σ := σ) accept (ExceptT.mk (pure r)) (ExceptT.mk (pure r)) := by
  intro s given a s' given' hrun hgiven
  cases hrun
  exact ⟨hgiven, rfl⟩

/-- Effects one after the other admit if each of them does. -/
theorem bind {x : ExceptT IncludeError (StateM (σ × List Document)) α}
    {y : ExceptT IncludeError (StateM σ) α}
    {f : α → ExceptT IncludeError (StateM (σ × List Document)) β}
    {g : α → ExceptT IncludeError (StateM σ) β} (hxy : Admitted accept x y)
    (hfg : ∀ a, Admitted accept (f a) (g a)) : Admitted accept (x >>= f) (y >>= g) := by
  intro s given b s' given' hrun hgiven
  rw [run_bind] at hrun ⊢
  rcases hx : StateT.run x.run (s, given) with ⟨e | a, next, between⟩
  · rw [hx] at hrun
    cases hrun
  · rw [hx] at hrun
    obtain ⟨hbetween, hg⟩ := hfg a next between b s' given' hrun hgiven
    obtain ⟨hbefore, hy⟩ := hxy s given a next between hx hbetween
    rw [hy]
    exact ⟨hbefore, hg⟩

end Admitted

variable [DecidablePred accept] (options : Options) (converter : Converter (StateM σ))

/-- A document that has been collected and is acceptable is not refused. -/
theorem admitted_converter (request : Request) :
    Admitted accept
      (liftM (converter.collecting request) :
        ExceptT IncludeError (StateM (σ × List Document)) (Except ConverterError Document))
      (liftM (converter.admitting accept request)) := by
  intro s given answer s' given' hrun hgiven
  have hanswer : (StateT.run (converter request) s).1 = answer :=
    Except.ok.inj (congrArg Prod.fst hrun)
  have hstate : (StateT.run (converter request) s).2 = s' :=
    congrArg (fun r => r.2.1) hrun
  have hcollected : given ++ answer.toOption.toList = given' := by
    rw [← hanswer]
    exact congrArg (fun r => r.2.2) hrun
  rw [← hcollected, List.forall_mem_append] at hgiven
  have hscreened : Converter.screened accept answer = answer :=
    Converter.screened_eq_self accept fun document hdocument =>
      hgiven.2 document (Option.mem_toList.2 hdocument)
  refine ⟨hgiven.1, Prod.ext (congrArg Except.ok ?_) hstate⟩
  rw [← hanswer] at hscreened ⊢
  exact hscreened

/-- A run that collects acceptable documents only is the same with a converter that refuses all
others. -/
theorem admitted_expand (baseDir : String) (d : Document) :
    Admitted accept (d.expand options converter.collecting baseDir)
      (d.expand options (converter.admitting accept) baseDir) :=
  expand_related options Admitted.done Admitted.bind (admitted_converter accept converter) baseDir d

end Expansion

end Transclude
