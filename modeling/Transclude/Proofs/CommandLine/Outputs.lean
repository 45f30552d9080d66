import Transclude.CommandLine.Run
import Transclude.Proofs.CommandLine.Arguments
import Transclude.Proofs.Filter.ReadBack
import Transclude.Proofs.Host.Files
import Transclude.Proofs.Host.Observation

/-!
# The two outputs of a command

A run looks at its world until it has all bytes of the expanded document, and writes them then: to a
file, or to the standard output.  So the same run does the same with both outputs, and a run that
fails leaves everything as it is, whatever the output file is.

Main results:

- Definition {lit}`CommandLine.bytesIn`: the bytes of the expanded document, from the files of a
  world.
- Theorem {lit}`CommandLine.observes_expanded`: a run only looks at its world before it writes.
- Theorem {lit}`CommandLine.succeeds_bytesIn_iff`: which runs have something to write.
- Theorem {lit}`CommandLine.run_eq_filtered`: a run is a run of the filter into a sink that takes
  everything, whose bytes are written then.
- Theorem {lit}`CommandLine.outputs_agree`: a run with an output file and the same run without it.
- Theorem {lit}`CommandLine.outputs_received`: both write what a sink of the filter receives.
-/

namespace Transclude

namespace CommandLine

/-! ## A run as a run of the filter -/

section Filtered

variable {m : Type → Type} [Monad m] [Host m]

/-- The filter on the input of a run and into a sink, once there is the directory of the
document. -/
def filteredFrom (a : Arguments) (sink : Sink) (baseDir : String) :
    m (Except CommandError Unit × Sink) := do
  let program ← Convert.chosen a.program
  match ← readSource a.input with
  | .error e => return (.error e, sink)
  | .ok bytes =>
    let (outcome, after) ← Filter.run
      (fun d => d.expand a.options (Convert.byProgram program) baseDir) bytes sink
    return (outcome.mapError .filter, after)

/-- The filter on the input of a run and into a sink. -/
def filtered (a : Arguments) (sink : Sink) : m (Except CommandError Unit × Sink) := do
  let baseDir ←
    match a.baseDir with
    | some dir => pure dir
    | none => Host.currentDir
  filteredFrom a sink baseDir

variable [LawfulMonad m] {sink : Sink}

/-- Once there is the directory, a sink without a limit receives what there is to write. -/
theorem filteredFrom_eq (a : Arguments) (hlimit : sink.limit = none) (baseDir : String) :
    filteredFrom (m := m) a sink baseDir = (do
      match ← expandedFrom a baseDir with
      | .error e => return (.error e, sink)
      | .ok bytes => return (.ok (), (sink.writeAll bytes).1)) := by
  unfold filteredFrom expandedFrom
  rw [bind_assoc]
  refine bind_congr fun program => ?_
  rw [bind_assoc]
  refine bind_congr fun source => ?_
  cases source with
  | error e => rw [pure_bind]
  | ok input =>
    dsimp only
    rw [Filter.run_of_unlimited _ _ hlimit, bind_assoc, bind_assoc]
    refine bind_congr fun outcome => ?_
    cases outcome with
    | error e =>
      rw [pure_bind, pure_bind]
      rfl
    | ok d =>
      rw [pure_bind, pure_bind]
      rfl

/-- A sink without a limit receives exactly the bytes that a run has to write.  If there are none,
the filter fails as the run does, and the sink is left alone. -/
theorem filtered_eq (a : Arguments) (hlimit : sink.limit = none) :
    filtered (m := m) a sink = (do
      match ← expanded a with
      | .error e => return (.error e, sink)
      | .ok bytes => return (.ok (), (sink.writeAll bytes).1)) := by
  unfold filtered expanded
  cases a.baseDir with
  | none =>
    dsimp only
    rw [bind_assoc]
    exact bind_congr (filteredFrom_eq a hlimit)
  | some dir =>
    dsimp only
    rw [bind_assoc]
    exact bind_congr (filteredFrom_eq a hlimit)

/-- A run is a run of the filter into a sink that is empty and takes everything; what the sink has
received is written then. -/
theorem run_eq_filtered (a : Arguments) (hlimit : sink.limit = none) (hempty : sink.received = []) :
    run (m := m) a = (do
      match ← filtered a sink with
      | (.error e, _) => return .error e
      | (.ok (), after) => writeTarget a.output after.received) := by
  rw [run, filtered_eq a hlimit, bind_assoc]
  refine bind_congr fun outcome => ?_
  cases outcome with
  | error e => rw [pure_bind]
  | ok bytes =>
    rw [pure_bind]
    dsimp only
    rw [Sink.received_writeAll_of_empty hlimit hempty]

end Filtered

/-! ## What a run has to write -/

variable {w : World} {a : Arguments}

/-- The directory from which the files of the document are found. -/
def baseDirIn (w : World) (a : Arguments) : String :=
  a.baseDir.getD (w.answer Host.currentDir)

/-- What the files of the world convert to by the program that a run is given or finds. -/
def sourceIn (w : World) (a : Arguments) : Path → String → Except ConverterError Document :=
  w.source (w.answer (Convert.chosen a.program))

/-- The expansion of a document by the files of the world. -/
def expandIn (w : World) (a : Arguments) (d : Document) : Except IncludeError Document :=
  Id.run (d.expand a.options (.ofFunction (sourceIn w a)) (baseDirIn w a)).run

/-- All directives of a document name files, and every chain of references from it ends well among
the files of the world. -/
def WellLinked (w : World) (a : Arguments) (d : Document) : Prop :=
  Expansion.NamesFiles a.options d.blocks ∧
    ∀ chain, Expansion.Chain a.options (sourceIn w a) (baseDirIn w a) d.blocks chain →
      Expansion.EndsWell a.options (sourceIn w a) [] a.options.maxDepth chain

/-- The bytes that a run has to write, or why there are none. -/
def bytesIn (w : World) (a : Arguments) : Except CommandError (List UInt8) :=
  match w.answer (readSource a.input) with
  | .error e => .error e
  | .ok bytes =>
    match Document.ofBytes bytes with
    | .error e => .error (.filter (.read e))
    | .ok d =>
      match expandIn w a d with
      | .error e => .error (.filter (.transform e))
      | .ok d' => .ok d'.toBytes

/-- With a document for the input, a run writes what it expands to or fails as the expansion
does. -/
theorem bytesIn_of_document {input : List UInt8} {d : Document}
    (hinput : w.answer (readSource a.input) = .ok input) (hd : Document.ofBytes input = .ok d) :
    bytesIn w a = ((expandIn w a d).mapError fun e => .filter (.transform e)).map
      Document.toBytes := by
  unfold bytesIn
  rw [hinput]
  dsimp only
  rw [hd]
  dsimp only
  cases expandIn w a d <;> rfl

/-- Reading the input only looks. -/
theorem looks_readSource (source : Option String) : w.Looks (readSource source) := by
  cases source with
  | none => exact World.Looks.bind ⟨_, World.observes_readInput⟩ fun bytes => .pure _
  | some file =>
    refine World.Looks.bind ⟨_, World.observes_readFile file⟩ fun outcome => ?_
    cases outcome with
    | ok bytes => exact .pure _
    | error fault => cases fault <;> exact .pure _

/-- From there on a run only looks at its world before it writes. -/
theorem observes_expandedFrom (w : World) (a : Arguments) :
    w.Observes (expandedFrom a (baseDirIn w a)) (bytesIn w a) := by
  refine (World.looks_chosen a.program).observes.bind ?_
  refine (looks_readSource a.input).observes.bind ?_
  unfold bytesIn
  cases w.answer (readSource a.input) with
  | error e => exact .pure _
  | ok bytes =>
    dsimp only
    unfold Filter.transformed
    cases Document.ofBytes bytes with
    | error e => exact .pure _
    | ok d =>
      have hexpand : w.Observes _ (expandIn w a d) :=
        World.observes_expand a.options (w.answer (Convert.chosen a.program)) (baseDirIn w a) d
      dsimp only
      refine World.Observes.bind (a := (expandIn w a d).mapError .transform)
        (World.Observes.bind hexpand ?_) ?_
      · cases expandIn w a d <;> exact .pure _
      · cases expandIn w a d <;> exact .pure _

/-- A run only looks at its world before it writes. -/
theorem observes_expanded (w : World) (a : Arguments) :
    w.Observes (expanded a) (bytesIn w a) := by
  have hrest := observes_expandedFrom w a
  unfold baseDirIn at hrest
  unfold expanded
  cases hdir : a.baseDir with
  | some dir =>
    rw [hdir] at hrest
    exact World.Observes.bind (.pure dir) hrest
  | none =>
    rw [hdir] at hrest
    exact World.looks_currentDir.observes.bind hrest

/-- A run has something to write exactly if its input can be read and is a document that is well
linked. -/
theorem succeeds_bytesIn_iff :
    (∃ bytes, bytesIn w a = .ok bytes) ↔
      ∃ input d, w.answer (readSource a.input) = .ok input ∧ Document.ofBytes input = .ok d ∧
        WellLinked w a d := by
  have hexpand : ∀ d, (∃ d', expandIn w a d = .ok d') ↔ WellLinked w a d :=
    fun _ => Expansion.succeeds_expand_iff
  simp only [← hexpand]
  unfold bytesIn
  cases w.answer (readSource a.input) with
  | error e => simp
  | ok input =>
    cases hd : Document.ofBytes input with
    | error e => simp [hd]
    | ok d => cases houtcome : expandIn w a d <;> simp [hd, houtcome]

/-! ## Commands -/

section Execute

variable {args : List String} {w' : World}

/-- A run that has nothing to write tells the user why. -/
theorem perform_execute_of_error (hargs : Invocation.ofArguments args = .run a) {e : CommandError}
    (hexpanded : w.perform (expanded a) = (.error e, w')) :
    w.perform (execute args) = (1, w'.tell (Utf8.encode e.report)) := by
  have hrun : w.perform (run a) = (.error e, w') := by
    rw [run, World.perform_bind, hexpanded]
    rfl
  unfold execute
  rw [hargs]
  dsimp only
  rw [World.perform_bind, hrun]
  rfl

/-- A run that can write what it has to write does so in the end. -/
theorem perform_execute_of_ok (hargs : Invocation.ofArguments args = .run a) {bytes : List UInt8}
    (hexpanded : w.perform (expanded a) = (.ok bytes, w')) {after : World}
    (hwrite : w'.perform (writeTarget a.output bytes) = (.ok (), after)) :
    w.perform (execute args) = (0, after) := by
  have hrun : w.perform (run a) = (.ok (), after) := by
    rw [run, World.perform_bind, hexpanded]
    exact hwrite
  unfold execute
  rw [hargs]
  dsimp only
  rw [World.perform_bind, hrun]
  rfl

end Execute

/-- Writing to the standard output. -/
theorem perform_writeTarget_none (bytes : List UInt8) :
    w.perform (writeTarget none bytes) = (.ok (), { w with output := w.output ++ bytes }) :=
  rfl

/-- Writing to a file. -/
theorem perform_writeTarget_some {file : String} {bytes : List UInt8} {files : FileSystem}
    (h : w.files.write file bytes = .ok files) :
    w.perform (writeTarget (some file) bytes) = (.ok (), { w with files }) := by
  have hfile : w.perform (Host.writeFile file bytes) = (.ok (), { w with files }) := by
    simp only [World.perform, Host.writeFile, StateT.run_bind, StateT.run_get, pure_bind, h]
    rfl
  rw [writeTarget, World.perform_bind, hfile]
  rfl

/-- A run that has nothing to write fails alike with an output file and without it. -/
theorem outputs_of_error {plain filed : List String} {file : String}
    (hplain : Invocation.ofArguments plain = .run a)
    (hfiled : Invocation.ofArguments filed = .run { a with output := some file })
    {e : CommandError} {told : List UInt8}
    (hexpanded : w.perform (expanded a) = (.error e, w.tell told)) :
    w.perform (execute plain) = (1, w.tell (told ++ Utf8.encode e.report)) ∧
      w.perform (execute filed) = (1, w.tell (told ++ Utf8.encode e.report)) := by
  rw [← World.tell_tell]
  exact ⟨perform_execute_of_error hplain hexpanded, perform_execute_of_error hfiled hexpanded⟩

/-- A run that has bytes to write adds them to the standard output, and with an output file gives
them to the file. -/
theorem outputs_of_ok {plain filed : List String} {file : String}
    (hplain : Invocation.ofArguments plain = .run a) (hnone : a.output = none)
    (hfiled : Invocation.ofArguments filed = .run { a with output := some file })
    (hfile : w.files.Writable file) {bytes told : List UInt8}
    (hexpanded : w.perform (expanded a) = (.ok bytes, w.tell told)) :
    ∃ files, w.files.write file bytes = .ok files ∧ files.read file = .ok bytes ∧
      w.perform (execute plain) =
        (0, ({ w with output := w.output ++ bytes } : World).tell told) ∧
      w.perform (execute filed) = (0, ({ w with files } : World).tell told) := by
  obtain ⟨files, hwrite, hread⟩ := hfile.write_then_read bytes
  refine ⟨files, hwrite, hread, ?_, ?_⟩
  · refine perform_execute_of_ok hplain hexpanded ?_
    rw [hnone]
    exact perform_writeTarget_none bytes
  · exact perform_execute_of_ok hfiled hexpanded (perform_writeTarget_some hwrite)

/-- A run with an output file and the same run without it do the same up to the writing.  Both look
at the world as it is before either of them, so they come to the same bytes, or fail alike.  With
bytes to write, the one run adds them to the standard output and the other gives them to the file.
If a run fails, its world stays as it is, but for what the user is told; and it fails unless the
input can be read and is a document that is well linked.  It does not matter what the output file
is: it may be the input, an included file or the converter program. -/
theorem outputs_agree (w : World) {plain filed : List String} {a : Arguments} {file : String}
    (hplain : Invocation.ofArguments plain = .run a) (hnone : a.output = none)
    (hfiled : Invocation.ofArguments filed = .run { a with output := some file })
    (hfile : w.files.Writable file) :
    (∃ told,
      match bytesIn w a with
      | .ok bytes => ∃ files,
        w.files.write file bytes = .ok files ∧ files.read file = .ok bytes ∧
          w.perform (execute plain) =
            (0, ({ w with output := w.output ++ bytes } : World).tell told) ∧
          w.perform (execute filed) = (0, ({ w with files } : World).tell told)
      | .error e =>
        w.perform (execute plain) = (1, w.tell (told ++ Utf8.encode e.report)) ∧
          w.perform (execute filed) = (1, w.tell (told ++ Utf8.encode e.report))) ∧
    ((∃ bytes, bytesIn w a = .ok bytes) ↔
      ∃ input d, w.answer (readSource a.input) = .ok input ∧ Document.ofBytes input = .ok d ∧
        WellLinked w a d) ∧
    Invocation.ofArguments (("--output=" ++ file) :: plain) =
      .run { a with output := some file } ∧
    Invocation.ofArguments (Arguments.withoutOutput filed) = .run a := by
  have hcleared : { a with output := none } = a := by rw [← hnone]
  have houtput := Invocation.ofArguments_withoutOutput hfiled
  rw [hcleared] at houtput
  refine ⟨?_, succeeds_bytesIn_iff,
    Invocation.ofArguments_withOutput hplain hnone hfile.ne_empty, houtput⟩
  obtain ⟨told, hexpanded⟩ := (observes_expanded w a).perform_eq
  refine ⟨told, ?_⟩
  cases hbytes : bytesIn w a with
  | error e =>
    rw [hbytes] at hexpanded
    exact outputs_of_error hplain hfiled hexpanded
  | ok bytes =>
    rw [hbytes] at hexpanded
    exact outputs_of_ok hplain hnone hfiled hfile hexpanded

/-- A world with one file, and programs that write nothing. -/
def oneFile (content : List UInt8) : World where
  files := ⟨[(["in.json"], .file content false)], []⟩
  environment := []
  input := []
  behaviour := fun _ _ _ _ => ⟨.code 0, [], []⟩

/-- A document with a directive in a note, for a file that is not there.  A run that is to put the
result in the place of the document fails as the one that is to print it, and the document is
still there. -/
theorem outputs_agree_in_place :
    let d : Document := ⟨[1, 17], [], [.para [.note [.codeBlock (.ofClasses ["include"]) "gone"]]]⟩
    let w := oneFile d.toBytes
    let plain := ["-iin.json", "--pandoc=convert"]
    let filed := ["-iin.json", "-o", "in.json", "--pandoc=convert"]
    let a : Arguments := { input := some "in.json", program := some "convert" }
    let e := CommandError.filter
      (.transform (.convert (Path.ofText "/gone") "gone" (.notFound "/gone")))
    Invocation.ofArguments plain = .run a ∧ a.output = none ∧
      Invocation.ofArguments filed = .run { a with output := some "in.json" } ∧
      w.files.Writable "in.json" ∧ w.files.read "in.json" = .ok d.toBytes ∧
      bytesIn w a = .error e ∧
      ∃ told, w.perform (execute plain) = (1, w.tell (told ++ Utf8.encode e.report)) ∧
        w.perform (execute filed) = (1, w.tell (told ++ Utf8.encode e.report)) := by
  intro d w plain filed a e
  have hplain : Invocation.ofArguments plain = .run a := by decide +kernel
  have hfiled : Invocation.ofArguments filed = .run { a with output := some "in.json" } := by
    decide +kernel
  -- What the file holds makes no difference to what is found where.
  have hfile : ∀ content, (oneFile content).files.Writable "in.json" := fun _ => ⟨_, rfl⟩
  have hread : ∀ content, (oneFile content).files.read "in.json" = .ok content := fun _ => rfl
  have hinput : ∀ content, (oneFile content).answer (readSource a.input) = .ok content :=
    fun _ => rfl
  have hd : Document.ofBytes d.toBytes = .ok d :=
    Document.ofBytes_toBytes_of_shallow ⟨⟨[], rfl⟩, by decide, by decide⟩ (by decide) (by decide)
  have hexpand : ∀ content, expandIn (oneFile content) a d =
      .error (.convert (Path.ofText "/gone") "gone" (.notFound "/gone")) := by
    intro content
    cbv
  have hbytes : bytesIn w a = .error e := by
    rw [bytesIn_of_document (hinput d.toBytes) hd, hexpand]
    rfl
  obtain ⟨⟨told, hruns⟩, -⟩ := outputs_agree w hplain rfl hfiled (hfile d.toBytes)
  rw [hbytes] at hruns
  exact ⟨hplain, rfl, hfiled, hfile d.toBytes, hread d.toBytes, hbytes, told, hruns⟩

/-- What a run with an output file and the same run without it write is what a sink of the filter
receives that is empty and takes everything.  If the filter fails, its sink stays empty and both
runs fail for the same reason. -/
theorem outputs_received (w : World) {plain filed : List String} {a : Arguments} {file : String}
    (hplain : Invocation.ofArguments plain = .run a) (hnone : a.output = none)
    (hfiled : Invocation.ofArguments filed = .run { a with output := some file })
    (hfile : w.files.Writable file) {sink : Sink} (hlimit : sink.limit = none)
    (hempty : sink.received = []) :
    ∃ told outcome after, w.perform (filtered a sink) = ((outcome, after), w.tell told) ∧
      match outcome with
      | .ok () => ∃ files,
        w.files.write file after.received = .ok files ∧
          files.read file = .ok after.received ∧
          w.perform (execute plain) =
            (0, ({ w with output := w.output ++ after.received } : World).tell told) ∧
          w.perform (execute filed) = (0, ({ w with files } : World).tell told)
      | .error e =>
        after = sink ∧
          w.perform (execute plain) = (1, w.tell (told ++ Utf8.encode e.report)) ∧
          w.perform (execute filed) = (1, w.tell (told ++ Utf8.encode e.report)) := by
  obtain ⟨told, hexpanded⟩ := (observes_expanded w a).perform_eq
  have hfiltered : w.perform (filtered a sink) = (match bytesIn w a with
      | .error e => ((.error e, sink), w.tell told)
      | .ok bytes => ((.ok (), (sink.writeAll bytes).1), w.tell told)) := by
    rw [filtered_eq a hlimit, World.perform_bind, hexpanded]
    cases bytesIn w a <;> rfl
  cases hbytes : bytesIn w a with
  | error e =>
    rw [hbytes] at hexpanded hfiltered
    exact ⟨told, .error e, sink, hfiltered, rfl, outputs_of_error hplain hfiled hexpanded⟩
  | ok bytes =>
    rw [hbytes] at hexpanded hfiltered
    refine ⟨told, .ok (), (sink.writeAll bytes).1, hfiltered, ?_⟩
    rw [Sink.received_writeAll_of_empty hlimit hempty]
    exact outputs_of_ok hplain hnone hfiled hfile hexpanded

end CommandLine

end Transclude
