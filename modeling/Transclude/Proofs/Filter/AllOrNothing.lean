import Transclude.Proofs.Expansion.Success
import Transclude.Proofs.Filter.ReadBack

/-!
# A filter writes all or nothing

A run of a filter reads, changes and writes.  If the input is no document, nothing is changed and
nothing is written; if the change fails, nothing is written.  Otherwise the sink is offered the
whole output, and it receives as much of the front of it as it has room for.

Main results:

- Theorem {lit}`Filter.run_of_ill_chain`: a file that is not included, however deep, ends a run
  before anything is written.
- Theorem {lit}`Filter.run_all_or_nothing`: the outcome of a run, and what is written by it.
-/

namespace Transclude.Filter

variable {σ : Type}

/-- If a chain of references from the input does not end well, however long it is, the run fails
and the sink is left alone. -/
theorem run_of_ill_chain (options : Options)
    (source : Path → String → Except ConverterError Document) (baseDir : String)
    {input : List UInt8} (sink : Sink) {d : Document} (hd : Document.ofBytes input = .ok d)
    {chain : List Expansion.Resolved}
    (hchain : Expansion.Chain options source baseDir d.blocks chain)
    (hill : ¬ Expansion.EndsWell options source [] options.maxDepth chain) :
    ∃ e, Id.run (run (fun d => d.expand options (.ofFunction source) baseDir) input sink) =
      (.error (.transform e), sink) := by
  have hfails : ¬ Succeeds (d.expand options (.ofFunction source) baseDir) := by
    rw [Expansion.succeeds_expand_iff]
    rintro ⟨-, hwell⟩
    exact hill (hwell chain hchain)
  obtain ⟨e, he⟩ := not_succeeds_iff.1 hfails
  refine ⟨e, ?_⟩
  have htransformed : Id.run (transformed
      (fun d => d.expand options (.ofFunction source) baseDir) input) = .error (.transform e) := by
    unfold transformed
    rw [hd]
    dsimp only
    rw [Id.run_bind, he]
    rfl
  rw [run, Id.run_bind, htransformed]
  rfl

/-- A run whose input is no document fails for that, with nothing changed and nothing written.
One whose change fails, fails as the change does, with nothing written.  Of all others the sink
receives the front of the whole output: all of it if it has room for it, and otherwise as much as
it has room for, and then the run fails for that.

So if an inclusion fails, at whatever depth and whatever state the converter is in, nothing is
written. -/
theorem run_all_or_nothing (change : Document → ExceptT IncludeError (StateM σ) Document)
    (input : List UInt8) (sink : Sink) (s : σ) :
    (∃ outcome after s', StateT.run (run change input sink) s = ((outcome, after), s') ∧
      match Document.ofBytes input with
      | .error e => outcome = .error (.read e) ∧ after = sink ∧ s' = s
      | .ok d =>
        match StateT.run (change d).run s with
        | (.error e, changed) =>
          outcome = .error (.transform e) ∧ after = sink ∧ s' = changed
        | (.ok d', changed) =>
          s' = changed ∧
            match sink.room with
            | none => outcome = .ok () ∧ after.received = sink.received ++ d'.toBytes
            | some k =>
              outcome = (if d'.toBytes.length ≤ k then .ok () else .error (.write .writerFull)) ∧
              after.received = sink.received ++ d'.toBytes.take (min k d'.toBytes.length)) ∧
    (∀ (options : Options) (converter : Converter (StateM σ)) (baseDir : String) (d : Document)
        (e : IncludeError) (s' : σ), Document.ofBytes input = .ok d →
      StateT.run (d.expand options converter baseDir).run s = (.error e, s') →
      StateT.run (run (fun d => d.expand options converter baseDir) input sink) s =
        ((.error (.transform e), sink), s')) ∧
    (∀ (options : Options) (source : Path → String → Except ConverterError Document)
        (baseDir : String) (d : Document) (chain : List Expansion.Resolved),
        Document.ofBytes input = .ok d →
      Expansion.Chain options source baseDir d.blocks chain →
      ¬ Expansion.EndsWell options source [] options.maxDepth chain →
      ∃ e, Id.run (run (fun d => d.expand options (.ofFunction source) baseDir) input sink) =
        (.error (.transform e), sink)) := by
  refine ⟨?_, ?_, ?_⟩
  · rcases hrun : StateT.run (run change input sink) s with ⟨⟨outcome, after⟩, s'⟩
    refine ⟨outcome, after, s', rfl, ?_⟩
    rw [run_eq, transformed_eq] at hrun
    cases hd : Document.ofBytes input with
    | error e =>
      rw [hd] at hrun
      cases hrun
      exact ⟨rfl, rfl, rfl⟩
    | ok d =>
      rw [hd] at hrun
      dsimp only at hrun ⊢
      rcases hchange : StateT.run (change d).run s with ⟨e | d', changed⟩
      · rw [hchange] at hrun
        cases hrun
        exact ⟨rfl, rfl, rfl⟩
      · rw [hchange] at hrun
        dsimp only at hrun ⊢
        rcases hwrite : sink.writeAll d'.toBytes with ⟨final, all⟩
        rw [hwrite] at hrun
        obtain ⟨rfl, rfl, rfl⟩ : outcome = (if all then .ok () else .error (.write .writerFull)) ∧
            after = final ∧ s' = changed := by
          cases all <;> · cases hrun; exact ⟨rfl, rfl, rfl⟩
        have hwritten := Sink.writeAll_outcome hwrite
        refine ⟨rfl, ?_⟩
        cases hroom : sink.room with
        | none =>
          rw [hroom] at hwritten
          exact ⟨if_pos hwritten.1, hwritten.2⟩
        | some k =>
          rw [hroom] at hwritten
          exact ⟨by simp only [hwritten.1, decide_eq_true_eq], hwritten.2⟩
  · intro options converter baseDir d e s' hd he
    rw [run_eq, transformed_eq, hd]
    dsimp only
    rw [he]
  · intro options source baseDir d chain hd hchain hill
    exact run_of_ill_chain options source baseDir sink hd hchain hill

/-- A note with a directive that leads to a file, and in that file a directive that leads to one
which is not found.  The converter has been called twice when the run fails. -/
theorem run_all_or_nothing_nested :
    let directive text := Block.codeBlock (.ofClasses ["include"]) text
    let d : Document := ⟨[1, 17], [], [.null, .para [.note [directive "a"]]]⟩
    let source (path : Path) (_ : String) : Except ConverterError Document :=
      match path.names with
      | ["a"] => .ok ⟨[1, 17], [], [.horizontalRule, directive "b"]⟩
      | _ => .error (.notFound path.toText)
    let converter : Converter (StateM Nat) :=
      fun r calls => (source r.path r.dialect, calls + 1)
    let sink := Sink.upTo (some 9) 2
    let file name : Expansion.Resolved := ⟨⟨.above 0, [name]⟩, "markdown"⟩
    let e := IncludeError.convert (file "b").path "b" (.notFound "b")
    Document.ofBytes d.toBytes = .ok d ∧
      StateT.run (d.expand {} converter "").run 0 = (.error e, 2) ∧
      StateT.run (run (fun d => d.expand {} converter "") d.toBytes sink) 0 =
        ((.error (.transform e), sink), 2) ∧
      Expansion.Chain {} source "" d.blocks [file "a", file "b"] ∧
      ¬ Expansion.EndsWell {} source [] 64 [file "a", file "b"] ∧
      ∃ e, Id.run (run (fun d => d.expand {} (.ofFunction source) "") d.toBytes sink) =
        (.error (.transform e), sink) := by
  intro directive d source converter sink file e
  have hd : Document.ofBytes d.toBytes = .ok d :=
    Document.ofBytes_toBytes_of_shallow ⟨⟨[], rfl⟩, by decide, by decide⟩ (by decide) (by decide)
  have hexpand : StateT.run (d.expand {} converter "").run 0 = (.error e, 2) := by cbv
  have hchain : Expansion.Chain {} source "" d.blocks [file "a", file "b"] := by
    have hfirst : Expansion.Occurs {} "" d.blocks (file "a") :=
      ⟨"a", by cbv; exact .head _, ⟨"a", "markdown"⟩, by cbv; exact .head _, by cbv⟩
    have hsecond : Expansion.Occurs {} (file "a").directory [.horizontalRule, directive "b"]
        (file "b") :=
      ⟨"b", by cbv; exact .head _, ⟨"b", "markdown"⟩, by cbv; exact .head _, by cbv⟩
    exact .cons hfirst rfl (.single hsecond)
  have hill : ¬ Expansion.EndsWell {} source [] 64 [file "a", file "b"] := by
    rintro ⟨-, -, document, ⟨r, hr, hsource⟩, -⟩
    cases hr
    cases hsource
  obtain ⟨-, hstateful, hfunction⟩ :=
    run_all_or_nothing (fun d => d.expand {} converter "") d.toBytes sink 0
  exact ⟨hd, hexpand, hstateful {} converter "" d e 2 hd hexpand, hchain, hill,
    hfunction {} source "" d _ hd hchain hill⟩

end Transclude.Filter
