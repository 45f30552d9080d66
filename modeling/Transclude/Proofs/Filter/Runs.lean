import Transclude.Proofs.Expansion.Failure
import Transclude.Proofs.Filter.Sinks

/-!
# Runs of a filter

A run of a filter reads, changes and writes.  It succeeds if its input is read as a document, the
change gives a document, and the sink takes the bytes of that.

Main results:

- Theorem {lit}`Filter.run_of_unlimited`: a run into a sink that takes everything.
- Theorem {lit}`Filter.run_eq`: a run from its three stages.
- Theorem {lit}`Filter.transformed_eq_ok_iff`: the inputs that are read and changed.
- Theorem {lit}`Filter.run_eq_ok_iff`: the runs that succeed.
-/

namespace Transclude

namespace Filter

/-- A run into a sink without a limit: the sink receives all bytes of the document, or is left alone
if there is none. -/
theorem run_of_unlimited {m : Type → Type} [Monad m] [LawfulMonad m]
    (change : Document → ExceptT IncludeError m Document) (input : List UInt8) {sink : Sink}
    (hlimit : sink.limit = none) :
    run change input sink = (do
      match ← transformed change input with
      | .error e => return (.error e, sink)
      | .ok d => return (.ok (), (sink.writeAll d.toBytes).1)) := by
  unfold run
  apply bind_congr
  intro outcome
  cases outcome with
  | error e => rfl
  | ok d =>
    dsimp only
    rw [Sink.writeAll_unlimited hlimit]

variable {σ : Type} {change : Document → ExceptT IncludeError (StateM σ) Document}
  {input : List UInt8} {sink after : Sink} {s s' : σ}

/-! ## Reading and changing -/

/-- What reading and changing comes to: nothing is changed of what is no document. -/
theorem transformed_eq :
    StateT.run (transformed change input) s =
      match Document.ofBytes input with
      | .error e => (.error (.read e), s)
      | .ok d =>
        match StateT.run (change d).run s with
        | (.error e, changed) => (.error (.transform e), changed)
        | (.ok d', changed) => (.ok d', changed) := by
  unfold transformed
  cases Document.ofBytes input with
  | error e => rfl
  | ok d =>
    dsimp only
    rw [StateT.run_bind]
    rcases StateT.run (change d).run s with ⟨e | d', changed⟩ <;> rfl

/-- Reading and changing succeeds exactly if the input is read as a document and the change gives
a document. -/
theorem transformed_eq_ok_iff {d' : Document} :
    StateT.run (transformed change input) s = (.ok d', s') ↔
      ∃ d, Document.ofBytes input = .ok d ∧ StateT.run (change d).run s = (.ok d', s') := by
  rw [transformed_eq]
  constructor
  · intro h
    cases hd : Document.ofBytes input with
    | error e =>
      rw [hd] at h
      cases h
    | ok d =>
      rw [hd] at h
      dsimp only at h
      refine ⟨d, rfl, ?_⟩
      rcases hchange : StateT.run (change d).run s with ⟨e | d', changed⟩
      · rw [hchange] at h
        cases h
      · rw [hchange] at h
        cases h
        rfl
  · rintro ⟨d, hd, hchange⟩
    rw [hd]
    dsimp only
    rw [hchange]

/-! ## Writing -/

/-- What a run comes to: nothing is written of what has not been read and changed. -/
theorem run_eq :
    StateT.run (run change input sink) s =
      match StateT.run (transformed change input) s with
      | (.error e, changed) => ((.error e, sink), changed)
      | (.ok d', changed) =>
        match sink.writeAll d'.toBytes with
        | (after, true) => ((.ok (), after), changed)
        | (after, false) => ((.error (.write .writerFull), after), changed) := by
  rw [run, StateT.run_bind]
  rcases StateT.run (transformed change input) s with ⟨e | d', changed⟩
  · rfl
  · dsimp only [bind]
    rcases sink.writeAll d'.toBytes with ⟨after, _ | _⟩ <;> rfl

/-- A run succeeds exactly if reading and changing does, and the sink takes all bytes. -/
theorem run_eq_ok_iff :
    StateT.run (run change input sink) s = ((.ok (), after), s') ↔
      ∃ d', StateT.run (transformed change input) s = (.ok d', s') ∧
        sink.writeAll d'.toBytes = (after, true) := by
  rw [run_eq]
  constructor
  · intro h
    rcases htransformed : StateT.run (transformed change input) s with ⟨e | d', next⟩
    · rw [htransformed] at h
      cases h
    · rw [htransformed] at h
      dsimp only at h
      rcases hwrite : sink.writeAll d'.toBytes with ⟨final, _ | _⟩
      · rw [hwrite] at h
        cases h
      · rw [hwrite] at h
        cases h
        exact ⟨d', rfl, hwrite⟩
  · rintro ⟨d', htransformed, hwrite⟩
    rw [htransformed]
    dsimp only
    rw [hwrite]

end Filter

end Transclude
