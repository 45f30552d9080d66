import Transclude.Proofs.Expansion.Chains
import Transclude.Proofs.Expansion.Failure

/-!
# Expansion on a stack

A definition of inclusion that keeps the open files in the state: a file is pushed before its
blocks are expanded and popped after that, whether the expansion fails or not.  What is on the
stack whenever something happens is written down in a history.

Main results:

- Definition {lit}`Expansion.includeOnStack`: inclusion of one file on a stack.
- Definition {lit}`Document.expandOnStack`: expansion of a document, beginning with no open file.
- Theorem {lit}`Expansion.restores_includeOnStack`: inclusion leaves the stack as it found it.
- Theorem {lit}`Expansion.restores_fragment`: so does the expansion of a fragment.
-/

namespace Transclude

variable {σ : Type}

namespace Expansion

/-! ## Sessions -/

/-- A file that is open, and the document that it was converted to. -/
structure OpenFile where
  resolved : Resolved
  document : Document

/-- Where the files of a stack lie, the outermost first. -/
def paths (stack : List OpenFile) : List Path :=
  stack.map fun file => file.resolved.path

@[simp] theorem paths_nil : paths [] = [] :=
  rfl

@[simp] theorem paths_append (below above : List OpenFile) :
    paths (below ++ above) = paths below ++ paths above :=
  List.map_append

@[simp] theorem paths_singleton (file : OpenFile) : paths [file] = [file.resolved.path] :=
  rfl

/-- What happens on a stack: a reference is met, the converter is asked for a file and answers,
a file is put on top, and the file on top is taken off.  The stack of the last two is the new
one. -/
inductive Event where
  | met (stack : List OpenFile) (file : Resolved)
  | asked (stack : List OpenFile) (file : Resolved) (answer : Except ConverterError Document)
  | opened (stack : List OpenFile)
  | closed (stack : List OpenFile)

/-- The state of an expansion: the open files, the outermost first, what has happened so far,
and the state that the converter works on. -/
structure Session (σ : Type) where
  stack : List OpenFile
  history : List Event
  world : σ

/-- The effects of an expansion on a stack. -/
abbrev OnStack (σ : Type) := ExceptT IncludeError (StateM (Session σ))

/-! ## Inclusion -/

/-- Meet a reference, and see which files are open. -/
def meet (file : Resolved) : OnStack σ (List OpenFile) := do
  let session ← get
  set { session with history := session.history ++ [Event.met session.stack file] }
  return session.stack

/-- Ask the converter for a file. -/
def ask (converter : Converter (StateM σ)) (file : Resolved) :
    OnStack σ (Except ConverterError Document) := do
  let session ← get
  let (answer, world) :=
    StateT.run (converter ⟨file.path, file.dialect, paths session.stack⟩) session.world
  set { session with world, history := session.history ++ [Event.asked session.stack file answer] }
  return answer

/-- Put a file on top of the stack. -/
def push (file : OpenFile) : OnStack σ Unit := do
  let session ← get
  let stack := session.stack ++ [file]
  set { session with stack, history := session.history ++ [Event.opened stack] }

/-- Take the file on top off the stack. -/
def pop : OnStack σ Unit := do
  let session ← get
  let stack := session.stack.dropLast
  set { session with stack, history := session.history ++ [Event.closed stack] }

/-- Do something while a file is open.  The outcome is held until the file is closed, also where
it is an error. -/
def whileOpen {α : Type} (file : OpenFile) (x : OnStack σ α) : OnStack σ α := do
  push file
  let outcome ← ExceptT.lift x.run
  pop
  ExceptT.mk (pure outcome)

/-- Ask for a file, and expand what it becomes while it is open, where files inside it are
included in some way. -/
def convertOnStack (options : Options) (converter : Converter (StateM σ))
    (inside : Inclusion (StateM (Session σ))) (directive : String) (file : Resolved) :
    OnStack σ Block := do
  match ← ask converter file with
  | .error cause => throw (.convert file.path directive cause)
  | .ok document =>
    let bs ← whileOpen ⟨file, document⟩
      (fragment options inside file.directory document.blocks)
    return container options bs

/-- Include one file on a stack.  Inclusions may be as many levels deep as the bound says; if it is
the greatest depth, the lack of room is noticed before the bound is reached. -/
def includeOnStack (options : Options) (converter : Converter (StateM σ)) :
    (bound : Nat) → Inclusion (StateM (Session σ))
  | bound, directive, path, dialect => do
    let stack ← meet ⟨path, dialect⟩
    if path ∈ paths stack then throw (.cycle (paths stack ++ [path]))
    else if options.maxDepth ≤ stack.length then throw (.depthExceeded options.maxDepth path)
    else
      match bound with
      | 0 => throw (.depthExceeded options.maxDepth path)
      | bound + 1 =>
        convertOnStack options converter (includeOnStack options converter bound) directive
          ⟨path, dialect⟩

end Expansion

/-- Expand the blocks of a document on a stack. -/
def Document.expandOnStack (options : Options) (converter : Converter (StateM σ))
    (baseDir : String) (d : Document) : Expansion.OnStack σ Document := do
  let bs ← Expansion.fragment options
    (Expansion.includeOnStack options converter options.maxDepth) baseDir d.blocks
  return { d with blocks := bs }

namespace Expansion

/-! ## What is left on the stack -/

/-- What an effect leaves on the stack is what it finds there, however it ends. -/
def Restores {α : Type} (x : OnStack σ α) : Prop :=
  ∀ session, (StateT.run x.run session).2.stack = session.stack

namespace Restores

variable {α β : Type}

theorem pure (a : α) : Restores (Pure.pure a : OnStack σ α) :=
  fun _ => rfl

theorem throw (e : IncludeError) : Restores (throw e : OnStack σ α) :=
  fun _ => rfl

/-- A finished outcome does nothing to the stack. -/
theorem finished (outcome : Except IncludeError α) :
    Restores (ExceptT.mk (Pure.pure outcome) : OnStack σ α) :=
  fun _ => rfl

/-- Effects one after the other restore the stack if each of them does. -/
theorem bind {x : OnStack σ α} {f : α → OnStack σ β} (hx : Restores x)
    (hf : ∀ a, Restores (f a)) : Restores (x >>= f) := by
  intro session
  have hsession := hx session
  rw [run_bind]
  rcases hrun : StateT.run x.run session with ⟨e | a, session'⟩
  · rw [hrun] at hsession
    exact hsession
  · rw [hrun] at hsession
    exact (hf a session').trans hsession

/-- So do effects for one member of a list after the other. -/
theorem mapM {f : α → OnStack σ β} (hf : ∀ a, Restores (f a)) (as : List α) :
    Restores (as.mapM f) := by
  induction as with
  | nil => exact pure []
  | cons a as ih =>
    rw [List.mapM_cons]
    exact (hf a).bind fun b => ih.bind fun bs => pure (b :: bs)

/-- Meeting a reference is only noted in the history. -/
theorem meet (file : Resolved) : Restores (meet file : OnStack σ (List OpenFile)) :=
  fun _ => rfl

/-- So is what the converter answers. -/
theorem ask (converter : Converter (StateM σ)) (file : Resolved) :
    Restores (ask converter file) :=
  fun _ => rfl

end Restores

/-- What comes after meeting a reference knows the open files, and finds one event more. -/
theorem run_meet_bind {α : Type} (file : Resolved) (f : List OpenFile → OnStack σ α)
    (stack : List OpenFile) (history : List Event) (world : σ) :
    StateT.run (meet file >>= f).run ⟨stack, history, world⟩ =
      StateT.run (f stack).run ⟨stack, history ++ [.met stack file], world⟩ :=
  rfl

/-- What comes after an answer of the converter finds one event more. -/
theorem run_ask_bind {α : Type} {converter : Converter (StateM σ)} {file : Resolved}
    {stack : List OpenFile} {world world' : σ} {answer : Except ConverterError Document}
    (h : StateT.run (converter ⟨file.path, file.dialect, paths stack⟩) world = (answer, world'))
    (f : Except ConverterError Document → OnStack σ α) (history : List Event) :
    StateT.run (ask converter file >>= f).run ⟨stack, history, world⟩ =
      StateT.run (f answer).run ⟨stack, history ++ [.asked stack file answer], world'⟩ := by
  let answered := StateT.run (converter ⟨file.path, file.dialect, paths stack⟩) world
  have hask : StateT.run (ask converter file).run ⟨stack, history, world⟩ =
      (.ok answered.1, ⟨stack, history ++ [.asked stack file answered.1], answered.2⟩) := rfl
  have hanswered : answered = (answer, world') := h
  rw [run_bind, hask, hanswered]

/-- What runs while a file is open finds it on top; afterwards one file is taken off. -/
theorem run_whileOpen {α : Type} (file : OpenFile) (x : OnStack σ α) (session : Session σ) :
    StateT.run (whileOpen file x).run session =
      match StateT.run x.run ⟨session.stack ++ [file],
        session.history ++ [.opened (session.stack ++ [file])], session.world⟩ with
      | (outcome, ⟨stack, history, world⟩) =>
        (outcome, ⟨stack.dropLast, history ++ [.closed stack.dropLast], world⟩) :=
  rfl

/-- A file is taken off the stack again after what runs while it is open. -/
theorem Restores.whileOpen {α : Type} (file : OpenFile) {x : OnStack σ α} (hx : Restores x) :
    Restores (whileOpen file x) := by
  intro session
  have hinside := hx ⟨session.stack ++ [file],
    session.history ++ [.opened (session.stack ++ [file])], session.world⟩
  rw [run_whileOpen]
  rcases hrun : StateT.run x.run _ with ⟨outcome, stack, history, world⟩
  rw [hrun] at hinside
  have hstack : stack = session.stack ++ [file] := hinside
  rw [hstack]
  exact List.dropLast_concat

/-- A fragment leaves the stack as inclusion does. -/
theorem Restores.fragment (options : Options) {inclusion : Inclusion (StateM (Session σ))}
    (hinclusion : ∀ text path dialect, Restores (inclusion text path dialect)) (baseDir : String)
    (bs : List Block) : Restores (fragment options inclusion baseDir bs) := by
  refine Restores.bind (Restores.mapM (fun text => ?_) _) fun queue => ?_
  · exact (Restores.finished _).bind fun refs => Restores.mapM (fun ref => hinclusion text _ _) refs
  · split
    · exact Restores.pure bs
    · exact Restores.finished _

/-- Converting a file and expanding it restores the stack if inclusion from inside it does. -/
theorem Restores.convertOnStack (options : Options) (converter : Converter (StateM σ))
    {inside : Inclusion (StateM (Session σ))}
    (hinside : ∀ text path dialect, Restores (inside text path dialect)) (text : String)
    (file : Resolved) : Restores (convertOnStack options converter inside text file) := by
  refine (Restores.ask converter file).bind fun answer => ?_
  cases answer with
  | error cause => exact Restores.throw _
  | ok document =>
    have hfragment := Restores.fragment options hinside file.directory document.blocks
    exact (hfragment.whileOpen ⟨file, document⟩).bind fun bs => Restores.pure _

/-- Inclusion leaves the stack as it found it, whether it succeeds or not. -/
theorem restores_includeOnStack (options : Options) (converter : Converter (StateM σ))
    (bound : Nat) (text : String) (path : Path) (dialect : String) :
    Restores (includeOnStack options converter bound text path dialect) := by
  have hguarded (path : Path) (dialect : String) {inside : OnStack σ Block}
      (hinside : Restores inside) :
      Restores (do
        let stack ← meet ⟨path, dialect⟩
        if path ∈ paths stack then throw (.cycle (paths stack ++ [path]))
        else if options.maxDepth ≤ stack.length then throw (.depthExceeded options.maxDepth path)
        else inside) := by
    refine (Restores.meet _).bind fun stack => ?_
    split
    · exact Restores.throw _
    split
    · exact Restores.throw _
    · exact hinside
  induction bound generalizing text path dialect with
  | zero =>
    unfold includeOnStack
    exact hguarded path dialect (Restores.throw _)
  | succ bound ih =>
    unfold includeOnStack
    exact hguarded path dialect (Restores.convertOnStack options converter ih text _)

/-- The expansion of a fragment leaves the stack as it found it, whether it succeeds or not. -/
theorem restores_fragment (options : Options) (converter : Converter (StateM σ)) (bound : Nat)
    (baseDir : String) (bs : List Block) :
    Restores (fragment options (includeOnStack options converter bound) baseDir bs) :=
  Restores.fragment options (restores_includeOnStack options converter bound) baseDir bs

end Expansion

end Transclude
