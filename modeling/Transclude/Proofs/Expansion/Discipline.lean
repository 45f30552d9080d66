import Transclude.Proofs.Expansion.Standing

/-!
# The discipline of the stack

Inclusion on a stack is run next to inclusion.  Both end alike and leave the converter in the
same state, the stack is in order whenever something happens, and the errors that have to do with
the stack are what they say: a cycle is a loop of references, and depth is exceeded only when the
stack is full.

Main results:

- Definition {lit}`Expansion.Tracks`: an effect on a stack next to one without it.
- Theorem {lit}`Expansion.Tracks.fragment`: fragments track each other as the inclusions do.
- Theorem {lit}`Expansion.tracks_includeOnStack`: inclusion on a stack tracks inclusion.
- Theorem {lit}`Expansion.stack_discipline`: what holds throughout the expansion of a document.
-/

namespace Transclude

variable {σ : Type}

namespace Expansion

/-! ## Effects on a stack and without it -/

section Tracks

variable (options : Options) (converter : Converter (StateM σ)) (outermost : Place)

/-- What a run adds to a history: the calls of the converter are told, and every event is sound
with the history that there is then. -/
structure Adds (history : List Event) (world : σ) (new : List Event) (world' : σ) : Prop where
  tells : Tells converter world new world'
  sound : ∀ event ∈ new, Sound options outermost (history ++ new) event

/-- Runs of an effect on a stack and of an effect without a stack: both end alike and in the same
state, the stack is as it was, the history goes on soundly, and an error is explained by it. -/
def RunsAs (history : List Event) (world : σ) (stack : List OpenFile) {α : Type}
    (x : OnStack σ α) (y : ExceptT IncludeError (StateM σ) α) : Prop :=
  ∃ outcome new world',
    StateT.run y.run world = (outcome, world') ∧
    StateT.run x.run ⟨stack, history, world⟩ = (outcome, ⟨stack, history ++ new, world'⟩) ∧
    Adds options converter outermost history world new world' ∧
    ∀ e, outcome = .error e → Explained options outermost (history ++ new) e

/-- An effect on a stack does what an effect without it does, wherever the stack is in order. -/
def Tracks (stack : List OpenFile) {α : Type} (x : OnStack σ α)
    (y : ExceptT IncludeError (StateM σ) α) : Prop :=
  ∀ history world, Standing options outermost history stack →
    RunsAs options converter outermost history world stack x y

variable {options converter outermost} {stack : List OpenFile} {history : List Event} {world : σ}

namespace Adds

/-- Nothing is added where nothing happens. -/
theorem nil : Adds options converter outermost history world [] world :=
  ⟨rfl, by simp⟩

/-- One event is added if it is true of the world and sound. -/
theorem single {event : Event} {world' : σ} (htells : Tells converter world [event] world')
    (hsound : Sound options outermost (history ++ [event]) event) :
    Adds options converter outermost history world [event] world' :=
  ⟨htells, List.forall_mem_singleton.2 hsound⟩

/-- What is added before and what is added after is added together. -/
theorem trans {new new' : List Event} {next world' : σ}
    (h : Adds options converter outermost history world new next)
    (h' : Adds options converter outermost (history ++ new) next new' world') :
    Adds options converter outermost history world (new ++ new') world' := by
  refine ⟨h.tells.append h'.tells, ?_⟩
  intro event hevent
  rw [← List.append_assoc]
  rcases List.mem_append.1 hevent with hevent | hevent
  · exact (h.sound event hevent).append new'
  · exact h'.sound event hevent

end Adds

namespace RunsAs

variable {α β : Type} {x : OnStack σ α} {y : ExceptT IncludeError (StateM σ) α}

/-- A value is run without adding to the history. -/
theorem pure (a : α) :
    RunsAs options converter outermost history world stack (Pure.pure a) (Pure.pure a) := by
  refine ⟨.ok a, [], world, rfl, ?_, .nil, by simp⟩
  rw [List.append_nil]
  rfl

/-- So is an error, which the history explains already. -/
theorem throw {e : IncludeError} (he : Explained options outermost history e) :
    RunsAs options converter outermost history world stack (throw e : OnStack σ α) (throw e) := by
  refine ⟨.error e, [], world, rfl, ?_, .nil, ?_⟩
  · rw [List.append_nil]
    rfl
  · intro e' he'
    cases he'
    rw [List.append_nil]
    exact he

/-- Runs go on alike after both have come to a state by adding to the history. -/
theorem after {x' : OnStack σ α} {y' : ExceptT IncludeError (StateM σ) α} {new : List Event}
    {next : σ} (h : RunsAs options converter outermost (history ++ new) next stack x y)
    (hadds : Adds options converter outermost history world new next)
    (hy : StateT.run y'.run world = StateT.run y.run next)
    (hx : StateT.run x'.run ⟨stack, history, world⟩ =
      StateT.run x.run ⟨stack, history ++ new, next⟩) :
    RunsAs options converter outermost history world stack x' y' := by
  obtain ⟨outcome, new', world', hy', hx', hadds', hexplained⟩ := h
  refine ⟨outcome, new ++ new', world', hy.trans hy', ?_, hadds.trans hadds', ?_⟩
  · rw [← List.append_assoc]
    exact hx.trans hx'
  · rw [← List.append_assoc]
    exact hexplained

/-- What comes after a result goes on from the history that there is then. -/
theorem bind {f : α → OnStack σ β} {g : α → ExceptT IncludeError (StateM σ) β}
    (hxy : RunsAs options converter outermost history world stack x y)
    (hfg : ∀ a new next, RunsAs options converter outermost (history ++ new) next stack (f a)
      (g a)) :
    RunsAs options converter outermost history world stack (x >>= f) (y >>= g) := by
  obtain ⟨outcome, new, next, hy, hx, hadds, hexplained⟩ := hxy
  cases outcome with
  | error e =>
    refine ⟨.error e, new, next, ?_, ?_, hadds, ?_⟩
    · rw [run_bind, hy]
    · rw [run_bind, hx]
    · intro e' he'
      cases he'
      exact hexplained e rfl
  | ok a =>
    refine (hfg a new next).after hadds ?_ ?_
    · rw [run_bind, hy]
    · rw [run_bind, hx]

/-- To meet a reference is one event more, and says which files are open. -/
theorem meet {file : Resolved} {f : List OpenFile → OnStack σ α}
    (hstanding : Standing options outermost history stack)
    (hoccurs : OccursOn options outermost stack file)
    (hf : RunsAs options converter outermost (history ++ [.met stack file]) world stack (f stack)
      y) :
    RunsAs options converter outermost history world stack (meet file >>= f) y :=
  hf.after (.single rfl (.met (hstanding.append _) hoccurs)) rfl (run_meet_bind ..)

/-- To ask the converter is one event more, and gives its answer. -/
theorem ask {file : Resolved} {next : σ} {answer : Except ConverterError Document}
    {f : Except ConverterError Document → OnStack σ α}
    {g : Except ConverterError Document → ExceptT IncludeError (StateM σ) α}
    (hstanding : Standing options outermost history stack)
    (hoccurs : OccursOn options outermost stack file) (hnew : file.path ∉ paths stack)
    (hroom : stack.length < options.maxDepth)
    (hanswer : StateT.run (converter ⟨file.path, file.dialect, paths stack⟩) world =
      (answer, next))
    (hfg : RunsAs options converter outermost (history ++ [.asked stack file answer]) next stack
      (f answer) (g answer)) :
    RunsAs options converter outermost history world stack (ask converter file >>= f)
      (liftM (converter ⟨file.path, file.dialect, paths stack⟩) >>= g) := by
  have hasked : Adds options converter outermost history world [.asked stack file answer] next :=
    .single ⟨next, hanswer, rfl⟩ (.asked (hstanding.append _) hoccurs hnew hroom)
  exact hfg.after hasked (run_lift_bind hanswer g) (run_ask_bind hanswer f history)

/-- What is done while a file is open is done with the file on top, between two events. -/
theorem whileOpen {file : OpenFile} (hstanding : Standing options outermost history stack)
    (hpush : Standing options outermost history (stack ++ [file]))
    (hxy : Tracks options converter outermost (stack ++ [file]) x y) :
    RunsAs options converter outermost history world stack (whileOpen file x) y := by
  have hopened : Adds options converter outermost history world [.opened (stack ++ [file])]
      world := .single rfl (.opened (hpush.append _))
  obtain ⟨outcome, new, world', hy, hx, hadds, hexplained⟩ := hxy _ world (hpush.append _)
  have hclosed : Adds options converter outermost
      (history ++ ([.opened (stack ++ [file])] ++ new)) world' [.closed stack] world' :=
    .single rfl (.closed ((hstanding.append _).append _))
  refine ⟨outcome, [.opened (stack ++ [file])] ++ new ++ [.closed stack], world', hy, ?_,
    (hopened.trans hadds).trans hclosed, ?_⟩
  · rw [run_whileOpen, hx]
    simp only [List.dropLast_concat, List.append_assoc]
  · intro e he
    rw [← List.append_assoc, ← List.append_assoc]
    exact (hexplained e he).append _

end RunsAs

namespace Tracks

variable {α β : Type}

theorem pure (a : α) :
    Tracks options converter outermost stack (Pure.pure a) (Pure.pure a) :=
  fun _ _ _ => .pure a

/-- An error that is explained by the stack is the same error without it. -/
theorem throw {e : IncludeError}
    (he : ∀ history, Standing options outermost history stack →
      Explained options outermost history e) :
    Tracks options converter outermost stack (throw e : OnStack σ α) (throw e) :=
  fun history _ hstanding => .throw (he history hstanding)

/-- Effects one after the other track others if each of them does. -/
theorem bind {x : OnStack σ α} {y : ExceptT IncludeError (StateM σ) α} {f : α → OnStack σ β}
    {g : α → ExceptT IncludeError (StateM σ) β}
    (hxy : Tracks options converter outermost stack x y)
    (hfg : ∀ a, Tracks options converter outermost stack (f a) (g a)) :
    Tracks options converter outermost stack (x >>= f) (y >>= g) := by
  intro history world hstanding
  exact (hxy history world hstanding).bind fun a new next =>
    hfg a _ next (hstanding.append new)

/-- So do effects for one member of a list after the other. -/
theorem mapM {f : α → OnStack σ β} {g : α → ExceptT IncludeError (StateM σ) β} {as : List α}
    (hfg : ∀ a ∈ as, Tracks options converter outermost stack (f a) (g a)) :
    Tracks options converter outermost stack (as.mapM f) (as.mapM g) := by
  induction as with
  | nil => exact pure []
  | cons a as ih =>
    rw [List.forall_mem_cons] at hfg
    rw [List.mapM_cons, List.mapM_cons]
    exact hfg.1.bind fun b => (ih hfg.2).bind fun bs => pure (b :: bs)

end Tracks

end Tracks

/-! ## Inclusion -/

section Inclusion

variable {options : Options} {converter : Converter (StateM σ)} {outermost : Place}
  {stack : List OpenFile}

/-- Fragments track each other if the inclusions of all files that are named in them do. -/
theorem Tracks.fragment {inclusion : Inclusion (StateM (Session σ))}
    {inclusion' : Inclusion (StateM σ)} {baseDir : String} {bs : List Block}
    (hinclusion : ∀ text r, Occurs options baseDir bs r →
      Tracks options converter outermost stack (inclusion text r.path r.dialect)
        (inclusion' text r.path r.dialect)) :
    Tracks options converter outermost stack (fragment options inclusion baseDir bs)
      (fragment options inclusion' baseDir bs) := by
  rw [fragment_eq_blocks, fragment_eq_blocks]
  refine blocks_related options _ _ Tracks.pure Tracks.bind fun text htext => ?_
  rw [directive, directive]
  cases hparse : options.parseDirective baseDir text with
  | error e =>
    refine Tracks.throw fun history _ => ?_
    rw [((options.parseDirective_eq_error_iff baseDir text e).1 hparse).2]
    exact .emptyDirective baseDir
  | ok refs =>
    obtain ⟨hrefs, _⟩ := (options.parseDirective_eq_ok_iff baseDir text refs).1 hparse
    refine Tracks.mapM fun ref href => ?_
    rw [← hrefs] at href
    exact hinclusion text (.ofReference baseDir ref) ⟨text, htext, ref, href, rfl⟩

/-- A file for which there is room is asked for and expanded as inclusion does it, if that holds
of what it becomes with the file on top of the stack. -/
theorem tracks_convertOnStack {inside : Inclusion (StateM (Session σ))}
    {inside' : Inclusion (StateM σ)} {text : String} {file : Resolved}
    (hoccurs : OccursOn options outermost stack file) (hnew : file.path ∉ paths stack)
    (hroom : stack.length < options.maxDepth)
    (hinside : ∀ document, Tracks options converter outermost (stack ++ [⟨file, document⟩])
      (fragment options inside file.directory document.blocks)
      (fragment options inside' file.directory document.blocks)) :
    Tracks options converter outermost stack (convertOnStack options converter inside text file)
      (do
        match ← converter ⟨file.path, file.dialect, paths stack⟩ with
        | .error cause => throw (.convert file.path text cause)
        | .ok document =>
          let bs ← fragment options inside' file.directory document.blocks
          return container options bs) := by
  intro history world hstanding
  rcases hanswer : StateT.run (converter ⟨file.path, file.dialect, paths stack⟩) world with
    ⟨answer, next⟩
  refine RunsAs.ask hstanding hoccurs hnew hroom hanswer ?_
  cases answer with
  | error cause => exact RunsAs.throw (.convert file.path text cause)
  | ok document =>
    have hstanding' := hstanding.append [.asked stack file (.ok document)]
    have hpush : Standing options outermost (history ++ [.asked stack file (.ok document)])
        (stack ++ [⟨file, document⟩]) :=
      hstanding'.push hoccurs hnew hroom (by simp)
    exact (RunsAs.whileOpen hstanding' hpush (hinside document)).bind fun bs _ _ => .pure _

/-- Inclusion on a stack tracks inclusion.  The stack and the bound add up to the greatest
depth. -/
theorem tracks_includeOnStack (bound : Nat) (hbound : stack.length + bound = options.maxDepth)
    (text : String) {file : Resolved} (hoccurs : OccursOn options outermost stack file) :
    Tracks options converter outermost stack
      (includeOnStack options converter bound text file.path file.dialect)
      (includeFile options converter bound (paths stack) text file.path file.dialect) := by
  induction bound generalizing stack text file with
  | zero =>
    unfold includeOnStack
    intro history world hstanding
    refine RunsAs.meet hstanding hoccurs ?_
    replace hstanding := hstanding.append [.met stack file]
    by_cases hopen : file.path ∈ paths stack
    · rw [if_pos hopen, includeFile_of_mem options converter text _ 0 hopen]
      exact RunsAs.throw (.cycle hstanding hoccurs hopen)
    · rw [if_neg hopen, if_pos (by omega), includeFile_zero options converter text _ hopen]
      exact RunsAs.throw (.depthExceeded hstanding hoccurs hopen hbound)
  | succ bound ih =>
    unfold includeOnStack
    intro history world hstanding
    refine RunsAs.meet hstanding hoccurs ?_
    replace hstanding := hstanding.append [.met stack file]
    by_cases hopen : file.path ∈ paths stack
    · rw [if_pos hopen, includeFile_of_mem options converter text _ _ hopen]
      exact RunsAs.throw (.cycle hstanding hoccurs hopen)
    · rw [if_neg hopen, if_neg (by omega), includeFile_succ options converter text _ bound hopen]
      refine tracks_convertOnStack hoccurs hopen (by omega) (fun document => ?_) _ _ hstanding
      refine Tracks.fragment fun text' file' hoccurs' => ?_
      have hpaths : paths stack ++ [file.path] = paths (stack ++ [⟨file, document⟩]) := by
        simp
      rw [hpaths]
      refine ih ?_ text' ?_
      · rw [List.length_append, List.length_singleton]
        omega
      · rw [OccursOn, Place.within_append_singleton]
        exact hoccurs'

/-- The expansion of a document on an empty stack tracks its expansion. -/
theorem tracks_expandOnStack (options : Options) (converter : Converter (StateM σ))
    (baseDir : String) (d : Document) :
    Tracks options converter ⟨baseDir, d.blocks⟩ [] (d.expandOnStack options converter baseDir)
      (d.expand options converter baseDir) := by
  refine Tracks.bind (Tracks.fragment fun text file hoccurs => ?_) fun bs => Tracks.pure _
  exact tracks_includeOnStack options.maxDepth (by simp) text hoccurs

/-- Expansion is expansion on a stack: whatever state the converter works on, both end alike and
in the same state, and the calls of the converter are those that the history tells.  Whenever
something happens, the files on the stack are distinct, not more than may be, and each of them is
named in the one below it; the converter is asked for a file that is not open, while there is
room.  A cycle is a chain of open files and a reference in the last of them to one of them, and
depth is exceeded by a file that is not open when the stack is full.  The expansion of a fragment
and the inclusion of a file leave any stack as they found it, however they end. -/
theorem stack_discipline (options : Options) (converter : Converter (StateM σ))
    (baseDir : String) (d : Document) :
    let outermost : Place := ⟨baseDir, d.blocks⟩
    (∀ world, ∃ outcome history world',
      StateT.run (d.expand options converter baseDir).run world = (outcome, world') ∧
      StateT.run (d.expandOnStack options converter baseDir).run ⟨[], [], world⟩ =
        (outcome, ⟨[], history, world'⟩) ∧
      Tells converter world history world' ∧
      (∀ event ∈ history, Sound options outermost history event) ∧
      (∀ chain, outcome = .error (.cycle chain) → ∃ stack file,
        chain = paths stack ++ [file.path] ∧ Standing options outermost history stack ∧
          OccursOn options outermost stack file ∧ file.path ∈ paths stack) ∧
      (∀ maxDepth path, outcome = .error (.depthExceeded maxDepth path) →
        maxDepth = options.maxDepth ∧ ∃ stack, Standing options outermost history stack ∧
          stack.length = options.maxDepth ∧ path ∉ paths stack)) ∧
    (∀ bound dir bs, Restores (fragment options (includeOnStack options converter bound) dir bs)) ∧
    (∀ bound text path dialect,
      Restores (includeOnStack options converter bound text path dialect)) := by
  intro outermost
  refine ⟨fun world => ?_, restores_fragment options converter,
    restores_includeOnStack options converter⟩
  obtain ⟨outcome, history, world', hmodel, hstacked, hadds, hexplained⟩ :=
    tracks_expandOnStack options converter baseDir d [] world standing_nil
  rw [List.nil_append] at hexplained
  refine ⟨outcome, history, world', hmodel, hstacked, hadds.tells, hadds.sound, ?_, ?_⟩
  · intro chain hcycle
    cases hexplained _ hcycle with
    | cycle hstanding hoccurs hopen => exact ⟨_, _, rfl, hstanding, hoccurs, hopen⟩
  · intro maxDepth path hexceeded
    cases hexplained _ hexceeded with
    | depthExceeded hstanding hoccurs hnew hfull => exact ⟨rfl, _, hstanding, hfull, hnew⟩

end Inclusion

end Expansion

end Transclude
