import Mathlib.Logic.Function.Iterate
import Transclude.Proofs.Expansion.Equivalence

/-!
# Expansion step by step

Expansion as a machine that does one thing at a time: it begins with a directive, asks for a file
and begins with the blocks of that, puts the divisions of a directive in a queue, or fills the
queue in and goes back to the fragment around.  The files come from the converter, so nothing in
the machine tells how long it runs; it has no bound but the check of how many files are open.

Main results:

- Definition {lit}`Expansion.step`: what the machine does at a moment.
- Theorem {lit}`Expansion.leads_fragment`: where the expansion of a fragment leads the machine.
- Theorem {lit}`Expansion.bounded_iterate`: how many files are open at any moment.
- Theorem {lit}`Expansion.expand_terminates`: the machine comes to an end, which is the outcome of
  expansion.
-/

namespace Transclude

namespace Expansion

variable {σ : Type}

/-! ## Moments -/

/-- A directive whose files are being included: the references to those that are left, and the
divisions of those that have been included. -/
structure Current where
  text : String
  left : List Reference
  done : List Block

/-- A fragment under expansion: the directives that are left, the one whose files are being
included, and the expansions of those before it. -/
structure Fragment where
  baseDir : String
  blocks : List Block
  left : List String
  current? : Option Current
  queue : List (List Block)

namespace Fragment

/-- A fragment before its first directive. -/
def ofBlocks (options : Options) (baseDir : String) (bs : List Block) : Fragment :=
  ⟨baseDir, bs, directives options bs, none, []⟩

/-- A file has been included for the directive of a fragment. -/
def receive (fragment : Fragment) (b : Block) : Fragment :=
  { fragment with
    current? := fragment.current?.map fun current => { current with done := current.done ++ [b] } }

/-- The blocks of a fragment without directives, or with what they make way for. -/
def filled (options : Options) (fragment : Fragment) : Except IncludeError (List Block) :=
  if fragment.queue.isEmpty then .ok fragment.blocks
  else fill options fragment.queue fragment.blocks

end Fragment

/-- A moment of an expansion: the files that are open, the outermost first; the fragment that is
being expanded; those that wait for it, the innermost first; and the state of the converter. -/
structure Moment (σ : Type) where
  openFiles : List Path
  fragment : Fragment
  waiting : List Fragment
  world : σ

/-- All fragments under expansion at a moment. -/
def Moment.fragments (moment : Moment σ) : List Fragment :=
  moment.fragment :: moment.waiting

/-- The machine is at a moment of an expansion, or at its end. -/
inductive Progress (σ : Type) where
  | running (moment : Moment σ)
  | finished (outcome : Except IncludeError (List Block)) (world : σ)

namespace Progress

/-- The machine before it expands some blocks. -/
def start (options : Options) (baseDir : String) (bs : List Block) (world : σ) : Progress σ :=
  .running ⟨[], .ofBlocks options baseDir bs, [], world⟩

/-- The state of the converter. -/
def world : Progress σ → σ
  | .running moment => moment.world
  | .finished _ world => world

/-- A fragment has been expanded to blocks.  Its file is closed, and the fragment around gets the
division; without one around, the expansion is at its end. -/
def complete (options : Options) (openFiles : List Path) (waiting : List Fragment)
    (bs : List Block) (world : σ) : Progress σ :=
  match waiting with
  | [] => .finished (.ok bs) world
  | fragment :: waiting =>
    .running ⟨openFiles.dropLast, fragment.receive (container options bs), waiting, world⟩

end Progress

/-! ## Steps -/

/-- Include the next file of a directive: it is refused if it is open or if no more files may be
opened, and otherwise asked for; what it becomes is the fragment to go on with. -/
def openNext (options : Options) (converter : Converter (StateM σ)) (moment : Moment σ)
    (current : Current) (ref : Reference) (left : List Reference) : Progress σ :=
  let path := Path.resolve moment.fragment.baseDir ref.path
  if path ∈ moment.openFiles then
    .finished (.error (.cycle (moment.openFiles ++ [path]))) moment.world
  else if options.maxDepth ≤ moment.openFiles.length then
    .finished (.error (.depthExceeded options.maxDepth path)) moment.world
  else
    match StateT.run (converter ⟨path, ref.dialect, moment.openFiles⟩) moment.world with
    | (.error cause, world) => .finished (.error (.convert path current.text cause)) world
    | (.ok document, world) =>
      .running ⟨moment.openFiles ++ [path],
        .ofBlocks options path.parent.toText document.blocks,
        { moment.fragment with current? := some { current with left } } :: moment.waiting, world⟩

/-- What the machine does at a moment. -/
def step (options : Options) (converter : Converter (StateM σ)) (moment : Moment σ) :
    Progress σ :=
  let fragment := moment.fragment
  match fragment.current? with
  | some current =>
    match current.left with
    | ref :: left => openNext options converter moment current ref left
    | [] =>
      .running { moment with
        fragment := { fragment with
          current? := none
          queue := fragment.queue ++ [current.done] } }
  | none =>
    match fragment.left with
    | text :: left =>
      match options.parseDirective fragment.baseDir text with
      | .error e => .finished (.error e) moment.world
      | .ok refs =>
        .running { moment with
          fragment := { fragment with
            left
            current? := some ⟨text, refs, []⟩ } }
    | [] =>
      match fragment.filled options with
      | .error e => .finished (.error e) moment.world
      | .ok bs => .complete options moment.openFiles moment.waiting bs moment.world

/-- The machine after one more step; at its end it stays. -/
def advance (options : Options) (converter : Converter (StateM σ)) : Progress σ → Progress σ
  | .running moment => step options converter moment
  | .finished outcome world => .finished outcome world

variable (options : Options) (converter : Converter (StateM σ))

/-! ## Files that are open -/

/-- A moment at which each open file has a fragment around it that waits, and there are no more
open files than may be. -/
structure Moment.Bounded (moment : Moment σ) : Prop where
  waiting : moment.waiting.length = moment.openFiles.length
  fits : moment.openFiles.length ≤ options.maxDepth

/-- A machine that is not at its end is at such a moment. -/
def Progress.Bounded (progress : Progress σ) : Prop :=
  ∀ moment, progress = .running moment → moment.Bounded options

/-- At its end the machine has no open files. -/
theorem bounded_finished (outcome : Except IncludeError (List Block)) (world : σ) :
    (Progress.finished outcome world).Bounded options := by
  intro moment h
  cases h

theorem bounded_running {moment : Moment σ} (h : moment.Bounded options) :
    (Progress.running moment).Bounded options := by
  intro moment' h'
  cases h'
  exact h

/-- A file is only opened when there is room for it. -/
theorem bounded_openNext {moment : Moment σ} (h : moment.Bounded options) (current : Current)
    (ref : Reference) (left : List Reference) :
    (openNext options converter moment current ref left).Bounded options := by
  unfold openNext
  dsimp only
  split
  · exact bounded_finished options _ _
  split
  · exact bounded_finished options _ _
  · next hroom =>
    split
    · exact bounded_finished options _ _
    · refine bounded_running options ⟨?_, ?_⟩
      · simp only [List.length_cons, List.length_append, List.length_nil, h.waiting]
      · simp only [List.length_append, List.length_singleton]
        omega

/-- A step opens one file, closes one, or leaves the open files as they are. -/
theorem bounded_step {moment : Moment σ} (h : moment.Bounded options) :
    (step options converter moment).Bounded options := by
  unfold step
  dsimp only
  split
  · split
    · exact bounded_openNext options converter h _ _ _
    · exact bounded_running options ⟨h.waiting, h.fits⟩
  · split
    · split
      · exact bounded_finished options _ _
      · exact bounded_running options ⟨h.waiting, h.fits⟩
    · split
      · exact bounded_finished options _ _
      · unfold Progress.complete
        split
        · exact bounded_finished options _ _
        · next fragment waiting hwaiting =>
          have hlength : waiting.length + 1 = moment.openFiles.length := by
            rw [← h.waiting, hwaiting, List.length_cons]
          have hfits := h.fits
          refine bounded_running options ⟨?_, ?_⟩
          · simp only [List.length_dropLast]
            omega
          · simp only [List.length_dropLast]
            omega

/-- At no moment of a run are more files open than may be. -/
theorem bounded_iterate {progress : Progress σ} (h : progress.Bounded options) (n : Nat) :
    ((advance options converter)^[n] progress).Bounded options := by
  induction n with
  | zero => exact h
  | succ n ih =>
    rw [Function.iterate_succ_apply']
    cases hprogress : (advance options converter)^[n] progress with
    | running moment => exact bounded_step options converter (ih moment hprogress)
    | finished outcome world => exact bounded_finished options outcome world

/-! ## Where steps lead -/

/-- Some number of steps leads from one state of the machine to another. -/
def Leads (p q : Progress σ) : Prop :=
  ∃ n, (advance options converter)^[n] p = q

/-- One step leads to what the machine does. -/
theorem Leads.step (moment : Moment σ) :
    Leads options converter (.running moment) (Expansion.step options converter moment) :=
  ⟨1, rfl⟩

variable {options} {converter}

/-- No step at all leads where the machine is. -/
theorem Leads.refl (p : Progress σ) : Leads options converter p p :=
  ⟨0, rfl⟩

/-- Steps after steps lead on. -/
theorem Leads.trans {p q r : Progress σ} (hpq : Leads options converter p q)
    (hqr : Leads options converter q r) : Leads options converter p r := by
  obtain ⟨n, hn⟩ := hpq
  obtain ⟨k, hk⟩ := hqr
  refine ⟨k + n, ?_⟩
  rw [Function.iterate_add_apply, hn, hk]

/-- The machine after an effect: it goes on from a value, and is at its end after an error. -/
def Progress.after {α : Type} (goal : α → σ → Progress σ) :
    Except IncludeError α × σ → Progress σ
  | (.ok a, world) => goal a world
  | (.error e, world) => .finished (.error e) world

variable (options) (converter)

/-- From a start to a goal, the machine does what an effect does, whatever state the converter
is in. -/
def Performs {α : Type} (x : ExceptT IncludeError (StateM σ) α) (start : σ → Progress σ)
    (goal : α → σ → Progress σ) : Prop :=
  ∀ world, Leads options converter (start world) (.after goal (StateT.run x.run world))

variable {options} {converter}

namespace Performs

variable {α β : Type} {x : ExceptT IncludeError (StateM σ) α} {start : σ → Progress σ}
  {goal : α → σ → Progress σ}

/-- Nothing is done where the start is the goal. -/
theorem pure {a : α} (h : ∀ world, start world = goal a world) :
    Performs options converter (Pure.pure a) start goal := by
  intro world
  rw [h world]
  exact .refl (goal a world)

/-- What comes after an effect is done after it. -/
theorem bind {f : α → ExceptT IncludeError (StateM σ) β} {goal' : β → σ → Progress σ}
    (hx : Performs options converter x start goal)
    (hf : ∀ a, Performs options converter (f a) (goal a) goal') :
    Performs options converter (x >>= f) start goal' := by
  intro world
  have hx := hx world
  rw [run_bind]
  rcases houtcome : StateT.run x.run world with ⟨e | a, world'⟩
  · rw [houtcome] at hx
    exact hx
  · rw [houtcome] at hx
    exact hx.trans (hf a world')

/-- A value is passed on. -/
theorem map {f : α → β} {goal' : β → σ → Progress σ}
    (hx : Performs options converter x start goal) (hgoal : ∀ a, goal a = goal' (f a)) :
    Performs options converter (x >>= fun a => Pure.pure (f a)) start goal' := by
  apply hx.bind
  intro a
  apply pure
  intro world
  rw [hgoal a]

/-- One step does all that an effect does. -/
theorem once {start : σ → Moment σ}
    (h : ∀ world, step options converter (start world) = .after goal (StateT.run x.run world)) :
    Performs options converter x (fun world => .running (start world)) goal := by
  intro world
  rw [← h world]
  exact .step options converter (start world)

end Performs

/-! ## The machine expands fragments -/

variable (options) (converter)

/-- With some files open, the machine includes a file as an inclusion does it, for whatever
directive of whatever fragment. -/
def Includes (openFiles : List Path) (inclusion : Inclusion (StateM σ)) : Prop :=
  ∀ (fragment : Fragment) (text : String) (ref : Reference) (left : List Reference)
    (done : List Block) (waiting : List Fragment),
    Performs options converter (inclusion text (Path.resolve fragment.baseDir ref.path) ref.dialect)
      (fun world => .running ⟨openFiles,
        { fragment with current? := some ⟨text, ref :: left, done⟩ }, waiting, world⟩)
      (fun b world => .running ⟨openFiles,
        { fragment with current? := some ⟨text, left, done ++ [b]⟩ }, waiting, world⟩)

variable {options} {converter} {openFiles : List Path} {inclusion : Inclusion (StateM σ)}

/-- The files of a directive are included one after the other. -/
theorem performs_references (h : Includes options converter openFiles inclusion)
    (fragment : Fragment) (text : String) (waiting : List Fragment) (refs : List Reference)
    (done : List Block) :
    Performs options converter
      (refs.mapM fun ref => inclusion text (Path.resolve fragment.baseDir ref.path) ref.dialect)
      (fun world => .running ⟨openFiles,
        { fragment with current? := some ⟨text, refs, done⟩ }, waiting, world⟩)
      (fun bs world => .running ⟨openFiles,
        { fragment with current? := some ⟨text, [], done ++ bs⟩ }, waiting, world⟩) := by
  induction refs generalizing done with
  | nil =>
    rw [List.mapM_nil]
    apply Performs.pure
    intro world
    rw [List.append_nil]
  | cons ref refs ih =>
    rw [List.mapM_cons]
    refine (h fragment text ref refs done waiting).bind fun b => ?_
    refine (ih (done ++ [b])).map fun bs => ?_
    rw [List.append_assoc, List.singleton_append]

/-- A directive is begun, its files are included, and the divisions are put in the queue. -/
theorem performs_directive (h : Includes options converter openFiles inclusion)
    (fragment : Fragment) (text : String) (left : List String) (waiting : List Fragment) :
    Performs options converter (directive options inclusion fragment.baseDir text)
      (fun world => .running ⟨openFiles,
        { fragment with left := text :: left, current? := none }, waiting, world⟩)
      (fun bs world => .running ⟨openFiles,
        { fragment with left, current? := none, queue := fragment.queue ++ [bs] }, waiting,
        world⟩) := by
  have hbegin : Performs options converter
      (ExceptT.mk (Pure.pure (options.parseDirective fragment.baseDir text)))
      (fun world => .running ⟨openFiles,
        { fragment with left := text :: left, current? := none }, waiting, world⟩)
      (fun refs world => .running ⟨openFiles,
        { fragment with left, current? := some ⟨text, refs, []⟩ }, waiting, world⟩) := by
    apply Performs.once
    intro world
    have hrun : StateT.run (ExceptT.mk (Pure.pure (options.parseDirective fragment.baseDir text)) :
        ExceptT IncludeError (StateM σ) (List Reference)).run world =
          (options.parseDirective fragment.baseDir text, world) := rfl
    rw [hrun]
    cases hparse : options.parseDirective fragment.baseDir text <;>
      simp only [step, hparse, Progress.after]
  refine hbegin.bind fun refs => ?_
  have hrefs := performs_references h { fragment with left } text waiting refs []
  have hqueue : ∀ bs, Performs options converter (Pure.pure bs)
      (fun world => .running ⟨openFiles,
        { fragment with left, current? := some ⟨text, [], [] ++ bs⟩ }, waiting, world⟩)
      (fun bs world => .running ⟨openFiles,
        { fragment with left, current? := none, queue := fragment.queue ++ [bs] }, waiting,
        world⟩) := by
    intro bs
    exact Performs.once fun world => rfl
  have hboth := hrefs.bind hqueue
  rwa [bind_pure] at hboth

/-- The directives of a fragment are expanded one after the other. -/
theorem performs_directives (h : Includes options converter openFiles inclusion)
    (waiting : List Fragment) (texts : List String) (fragment : Fragment) :
    Performs options converter (texts.mapM (directive options inclusion fragment.baseDir))
      (fun world => .running ⟨openFiles,
        { fragment with left := texts, current? := none }, waiting, world⟩)
      (fun queue world => .running ⟨openFiles,
        { fragment with left := [], current? := none, queue := fragment.queue ++ queue }, waiting,
        world⟩) := by
  induction texts generalizing fragment with
  | nil =>
    rw [List.mapM_nil]
    apply Performs.pure
    intro world
    rw [List.append_nil]
  | cons text texts ih =>
    rw [List.mapM_cons]
    refine (performs_directive h fragment text texts waiting).bind fun bs => ?_
    refine (ih { fragment with queue := fragment.queue ++ [bs] }).map fun queue => ?_
    simp only [List.append_assoc, List.singleton_append]

/-- A fragment is expanded: its directives one after the other, and then the queue is filled
in. -/
theorem performs_fragment (h : Includes options converter openFiles inclusion)
    (baseDir : String) (bs : List Block) (waiting : List Fragment) :
    Performs options converter (Expansion.fragment options inclusion baseDir bs)
      (fun world => .running ⟨openFiles, .ofBlocks options baseDir bs, waiting, world⟩)
      (fun out world => .complete options openFiles waiting out world) := by
  refine (performs_directives h waiting (directives options bs)
    (.ofBlocks options baseDir bs)).bind fun queue => ?_
  apply Performs.once
  intro world
  cases queue with
  | nil => rfl
  | cons front queue =>
    have hrun : StateT.run (ExceptT.mk (Pure.pure (fill options (front :: queue) bs)) :
        ExceptT IncludeError (StateM σ) (List Block)).run world =
          (fill options (front :: queue) bs, world) := rfl
    simp only [step, Fragment.ofBlocks, Fragment.filled, List.nil_append, List.isEmpty_cons,
      Bool.false_eq_true, if_false, hrun]
    cases fill options (front :: queue) bs <;> rfl

/-- The machine includes files as expansion does.  The induction is on how many more files may
be opened, which the machine knows only as the open files that it counts. -/
theorem includes_file (room : Nat) (openFiles : List Path)
    (hroom : openFiles.length + room = options.maxDepth) :
    Includes options converter openFiles (includeFile options converter room openFiles) := by
  induction room generalizing openFiles with
  | zero =>
    intro fragment text ref left done waiting
    apply Performs.once
    intro world
    by_cases hopen : Path.resolve fragment.baseDir ref.path ∈ openFiles
    · rw [includeFile_of_mem options converter text _ 0 hopen]
      simp only [step, openNext, if_pos hopen]
      rfl
    · rw [includeFile_zero options converter text _ hopen]
      have hfull : options.maxDepth ≤ openFiles.length := by omega
      simp only [step, openNext, if_neg hopen, if_pos hfull]
      rfl
  | succ room ih =>
    intro fragment text ref left done waiting
    by_cases hopen : Path.resolve fragment.baseDir ref.path ∈ openFiles
    · apply Performs.once
      intro world
      rw [includeFile_of_mem options converter text _ (room + 1) hopen]
      simp only [step, openNext, if_pos hopen]
      rfl
    · have hspace : ¬ options.maxDepth ≤ openFiles.length := by omega
      rw [includeFile_succ options converter text _ room hopen]
      intro world
      have hstep := Leads.step options converter ⟨openFiles,
        { fragment with current? := some ⟨text, ref :: left, done⟩ }, waiting, world⟩
      simp only [step, openNext, if_neg hopen, if_neg hspace] at hstep
      rcases houtcome : StateT.run (converter ⟨Path.resolve fragment.baseDir ref.path, ref.dialect,
        openFiles⟩) world with ⟨cause | document, world'⟩
      · rw [run_lift_bind houtcome]
        rw [houtcome] at hstep
        exact hstep
      · rw [run_lift_bind houtcome]
        rw [houtcome] at hstep
        refine hstep.trans ?_
        have hroom' : (openFiles ++ [Path.resolve fragment.baseDir ref.path]).length + room =
            options.maxDepth := by
          simp only [List.length_append, List.length_singleton]
          omega
        have hfragment := performs_fragment (ih _ hroom')
          (Path.resolve fragment.baseDir ref.path).parent.toText document.blocks
          ({ fragment with current? := some ⟨text, left, done⟩ } :: waiting)
        refine (hfragment.map fun out => ?_) world'
        simp only [Progress.complete, List.dropLast_concat]
        rfl

/-- From the beginning of a fragment the machine comes to where its expansion is complete, or to
its end with the error of it. -/
theorem leads_fragment (options : Options) (converter : Converter (StateM σ)) {room : Nat}
    {openFiles : List Path} (hroom : openFiles.length + room = options.maxDepth)
    (baseDir : String) (bs : List Block) (waiting : List Fragment) (world : σ) :
    Leads options converter
      (.running ⟨openFiles, .ofBlocks options baseDir bs, waiting, world⟩)
      (.after (fun out world => .complete options openFiles waiting out world)
        (StateT.run (fragment options (includeFile options converter room openFiles) baseDir bs).run
          world)) :=
  performs_fragment (includes_file room openFiles hroom) baseDir bs waiting world

/-! ## Requests -/

/-- A recording converter adds what it is asked for to its record. -/
theorem requests_recording (converter : Converter (StateM σ)) (request : Request)
    (world : σ × List Request) :
    (StateT.run (converter.recording request) world).2.2 = world.2 ++ [request] :=
  rfl

/-- A step asks the converter for one file at most. -/
theorem requests_step (options : Options) (converter : Converter (StateM σ))
    (moment : Moment (σ × List Request)) :
    (step options converter.recording moment).world.2.length ≤ moment.world.2.length + 1 := by
  unfold step
  dsimp only
  split
  · split
    · unfold openNext
      dsimp only
      split
      · exact Nat.le_succ _
      split
      · exact Nat.le_succ _
      · split <;>
        next hrun =>
          have hlength := congrArg (fun result => result.2.2.length) hrun
          rw [requests_recording, List.length_append, List.length_singleton] at hlength
          exact Nat.le_of_eq hlength.symm
    · exact Nat.le_succ _
  · split
    · split <;> exact Nat.le_succ _
    · split
      · exact Nat.le_succ _
      · unfold Progress.complete
        split <;> exact Nat.le_succ _

/-- In so many steps the converter is asked for so many files at most. -/
theorem requests_iterate (options : Options) (converter : Converter (StateM σ))
    (progress : Progress (σ × List Request)) (n : Nat) :
    ((advance options converter.recording)^[n] progress).world.2.length ≤
      progress.world.2.length + n := by
  induction n with
  | zero => exact Nat.le_refl _
  | succ n ih =>
    rw [Function.iterate_succ_apply']
    cases hprogress : (advance options converter.recording)^[n] progress with
    | running moment =>
      have hstep := requests_step options converter moment
      rw [hprogress] at ih
      exact Nat.le_trans hstep (Nat.succ_le_succ ih)
    | finished outcome world =>
      rw [hprogress] at ih
      exact Nat.le_trans ih (Nat.le_succ _)

/-! ## Expansion comes to an end -/

/-- Expansion terminates, whatever documents a converter with whatever state gives.  The machine,
which has no bound on its run, is at its end after finitely many steps, with the outcome and the
requests of expansion; it has made one request in a step at most; and at no moment have more
files been open, or more fragments been under expansion, than the greatest depth allows. -/
theorem expand_terminates (options : Options) (converter : Converter (StateM σ))
    (baseDir : String) (d : Document) (s : σ) :
    (∃ n outcome s' requests,
      (advance options converter.recording)^[n]
        (.start options baseDir d.blocks (s, [])) = .finished outcome (s', requests) ∧
      requests.length ≤ n ∧
      StateT.run (d.expand options converter.recording baseDir).run (s, []) =
        (outcome.map fun bs => { d with blocks := bs }, (s', requests))) ∧
    ∀ n moment,
      (advance options converter.recording)^[n]
        (.start options baseDir d.blocks (s, [])) = .running moment →
      moment.openFiles.length ≤ options.maxDepth ∧
      moment.fragments.length ≤ options.maxDepth + 1 := by
  constructor
  · have hroom : ([] : List Path).length + options.maxDepth = options.maxDepth := Nat.zero_add _
    obtain ⟨n, hn⟩ := leads_fragment options converter.recording hroom baseDir d.blocks [] (s, [])
    have hrequests := requests_iterate options converter
      (.start options baseDir d.blocks (s, [])) n
    have hstart : (Progress.start options baseDir d.blocks (s, ([] : List Request))) =
      .running ⟨[], .ofBlocks options baseDir d.blocks, [], (s, [])⟩ := rfl
    rw [hstart, hn] at hrequests
    rw [hstart, Document.expand, run_bind, blocks]
    rcases houtcome : StateT.run (fragment options (includeFile options converter.recording
      options.maxDepth []) baseDir d.blocks).run (s, []) with ⟨e | bs, s', requests⟩
    · rw [houtcome] at hn hrequests
      refine ⟨n, .error e, s', requests, hn, ?_, rfl⟩
      simpa [Progress.after, Progress.world] using hrequests
    · rw [houtcome] at hn hrequests
      refine ⟨n, .ok bs, s', requests, hn, ?_, rfl⟩
      simpa [Progress.after, Progress.complete, Progress.world] using hrequests
  · intro n moment hmoment
    have hstart : (Progress.start options baseDir d.blocks (s, ([] : List Request))).Bounded
        options :=
      bounded_running options ⟨rfl, Nat.zero_le _⟩
    have hbounded := bounded_iterate options converter.recording hstart n moment hmoment
    refine ⟨hbounded.fits, ?_⟩
    rw [Moment.fragments, List.length_cons, hbounded.waiting]
    exact Nat.succ_le_succ hbounded.fits

end Expansion

end Transclude
