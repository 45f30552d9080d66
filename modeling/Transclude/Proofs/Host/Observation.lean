import Transclude.Host.World
import Transclude.Proofs.Expansion.Success

/-!
# Effects that only look at a world

Everything that is done before the output is written looks at a world and leaves it as it is,
except that a program may have something to tell the user.  What such an effect gives depends on
the world, and not on what the user has been told before.

Main results:

- Definition {lit}`World.Observes`: an effect that gives something and only looks at a world.
- Theorem {lit}`World.Observes.bind`: two such effects one after the other.
- Theorem {lit}`World.looks_file`: converting a file only looks.
- Theorem {lit}`World.observes_expand`: so does expanding a document, which gives what it gives with
  a function for the converter.
-/

namespace Transclude

namespace World

variable {α β : Type} {w : World}

/-- The world after the user is told something. -/
def tell (w : World) (told : List UInt8) : World :=
  { w with errors := w.errors ++ told }

theorem tell_nil (w : World) : w.tell [] = w := by
  simp [tell]

/-- The user is told one thing after the other. -/
theorem tell_tell (w : World) (told more : List UInt8) :
    (w.tell told).tell more = w.tell (told ++ more) := by
  simp [tell]

/-- What an effect comes to in a world: what it gives, and the world after it. -/
def perform (w : World) (x : StateM World α) : α × World :=
  StateT.run x w

/-- What an effect gives in a world. -/
def answer (w : World) (x : StateM World α) : α :=
  (w.perform x).1

/-- What comes second is done in the world that the first has left. -/
theorem perform_bind (x : StateM World α) (f : α → StateM World β) :
    w.perform (x >>= f) = (w.perform x).2.perform (f (w.perform x).1) :=
  rfl

/-- An effect gives something in a world and only looks at it: whatever the user has been told
before, the user is told the same, and nothing else is changed. -/
def Observes (w : World) (x : StateM World α) (a : α) : Prop :=
  ∃ told, ∀ earlier, (w.tell earlier).perform x = (a, w.tell (earlier ++ told))

namespace Observes

/-- Giving something does not look at the world at all. -/
theorem pure (a : α) : Observes w (pure a) a :=
  ⟨[], fun earlier => by rw [List.append_nil]; rfl⟩

/-- Effects that only look do so one after the other. -/
theorem bind {x : StateM World α} {f : α → StateM World β} {a : α} {b : β} (hx : Observes w x a)
    (hf : Observes w (f a) b) : Observes w (x >>= f) b := by
  obtain ⟨told, hx⟩ := hx
  obtain ⟨more, hf⟩ := hf
  refine ⟨told ++ more, fun earlier => ?_⟩
  rw [perform_bind, hx, ← List.append_assoc]
  exact hf (earlier ++ told)

/-- What an effect gives that only looks is its answer. -/
theorem answer_eq {x : StateM World α} {a : α} (h : Observes w x a) : w.answer x = a := by
  obtain ⟨told, h⟩ := h
  rw [answer, ← tell_nil w, h]

/-- What such an effect comes to in the world itself. -/
theorem perform_eq {x : StateM World α} {a : α} (h : Observes w x a) :
    ∃ told, w.perform x = (a, w.tell told) := by
  obtain ⟨told, h⟩ := h
  exact ⟨told, by simpa [tell_nil] using h []⟩

end Observes

/-- An effect only looks at a world, whatever it gives. -/
def Looks (w : World) (x : StateM World α) : Prop :=
  ∃ a, Observes w x a

namespace Looks

/-- An effect that only looks gives its answer. -/
theorem observes {x : StateM World α} (h : Looks w x) : Observes w x (w.answer x) := by
  obtain ⟨a, ha⟩ := h
  exact ha.answer_eq.symm ▸ ha

theorem pure (a : α) : Looks w (pure a) :=
  ⟨a, .pure a⟩

/-- Effects one after the other only look if each of them does, whatever the first one gives. -/
theorem bind {x : StateM World α} {f : α → StateM World β} (hx : Looks w x)
    (hf : ∀ a, Looks w (f a)) : Looks w (x >>= f) := by
  obtain ⟨a, hx⟩ := hx
  obtain ⟨b, hf⟩ := hf a
  exact ⟨b, hx.bind hf⟩

end Looks

/-! ## The host -/

/-- Reading off a world what does not depend on what the user has been told. -/
theorem observes_get {f : World → α} (hf : ∀ earlier, f (w.tell earlier) = f w) :
    Observes w (do return f (← get)) (f w) :=
  ⟨[], fun earlier => by
    rw [List.append_nil]
    exact Prod.ext (hf earlier) rfl⟩

/-- Asking for a variable of the environment only looks. -/
theorem looks_environment? (name : String) : Looks w (Host.environment? name) :=
  ⟨_, observes_get fun _ => rfl⟩

/-- So does asking for the current directory. -/
theorem looks_currentDir : Looks w Host.currentDir :=
  ⟨_, observes_get fun _ => rfl⟩

/-- So does asking whether there is a file. -/
theorem looks_isFile (path : String) : Looks w (Host.isFile path) :=
  ⟨_, observes_get fun _ => rfl⟩

/-- So does asking whether there is a program. -/
theorem looks_isExecutable (path : String) : Looks w (Host.isExecutable path) :=
  ⟨_, observes_get fun _ => rfl⟩

/-- Reading a file only looks, and gives what the file holds. -/
theorem observes_readFile (path : String) : Observes w (Host.readFile path) (w.files.read path) :=
  observes_get fun _ => rfl

/-- Reading the input only looks, and gives all of it. -/
theorem observes_readInput : Observes w Host.readInput w.input :=
  observes_get fun _ => rfl

/-- The search for a program does not depend on what the user has been told. -/
theorem searchProgram_tell (told : List UInt8) (program : String) (denied : Bool)
    (last : HostFault) (dirs : List String) :
    (w.tell told).searchProgram program denied last dirs =
      w.searchProgram program denied last dirs := by
  induction dirs generalizing denied last with
  | nil => rfl
  | cons dir dirs ih => simp only [searchProgram, tell, ← ih]

/-- Neither does a run of it. -/
theorem start_tell (told : List UInt8) (program : String) (arguments : List String) :
    (w.tell told).start program arguments = w.start program arguments := by
  have hfind : (w.tell told).findProgram program = w.findProgram program := by
    unfold findProgram
    rw [searchProgram_tell]
    rfl
  rw [start, start, hfind]
  rfl

/-- A program that is started only has something to tell the user. -/
theorem looks_start (program : String) (arguments : List String) :
    Looks w (Host.start program arguments) := by
  cases hstart : w.start program arguments with
  | error fault =>
    refine ⟨.error fault, [], fun earlier => ?_⟩
    have hagain := (start_tell earlier program arguments).trans hstart
    rw [List.append_nil]
    simp only [perform, Host.start, StateT.run_bind, StateT.run_get, pure_bind, hagain]
    rfl
  | ok run =>
    refine ⟨.ok (run.status, run.output), run.diagnostics, fun earlier => ?_⟩
    have hagain := (start_tell earlier program arguments).trans hstart
    rw [← tell_tell]
    simp only [perform, Host.start, StateT.run_bind, StateT.run_get, pure_bind, hagain]
    rfl

/-! ## Conversion -/

/-- Looking for the first program among some files only looks. -/
theorem looks_firstExecutable? (files : List String) :
    Looks w (Convert.firstExecutable? files) := by
  induction files with
  | nil => exact .pure none
  | cons file files ih =>
    refine (looks_isExecutable file).bind fun executable => ?_
    cases executable with
    | true => exact .pure (some file)
    | false => exact ih

/-- So does searching the usual places for a converter. -/
theorem looks_searched : Looks w Convert.searched :=
  (looks_environment? "PATH").bind fun _ =>
    (looks_environment? "HOME").bind fun _ =>
      looks_currentDir.bind fun _ => (looks_firstExecutable? _).bind fun _ => .pure _

/-- So does finding the converter that the environment names. -/
theorem looks_locate : Looks w Convert.locate := by
  refine (looks_environment? Convert.programVariable).bind fun file? => ?_
  cases file? with
  | none => exact looks_searched
  | some file =>
    refine (looks_isFile file).bind fun regular => ?_
    cases regular with
    | true => exact .pure file
    | false => exact looks_searched

/-- Choosing a converter program only looks. -/
theorem looks_chosen (asked : Option String) : Looks w (Convert.chosen asked) := by
  cases asked with
  | none => exact looks_locate
  | some program => exact .pure program

/-- Reading a document from a file only looks. -/
theorem looks_documentFile (path : String) : Looks w (Convert.documentFile path) := by
  refine Looks.bind ⟨_, observes_readFile path⟩ fun outcome => ?_
  cases outcome with
  | error fault => exact .pure _
  | ok bytes =>
    dsimp only
    split
    · exact .pure _
    · exact .pure _

/-- Running a converter only looks. -/
theorem looks_run (program path dialect : String) :
    Looks w (Convert.run program path dialect) := by
  refine (looks_start program _).bind fun outcome => ?_
  cases outcome with
  | error fault => exact .pure _
  | ok ended => exact .pure _

/-- Converting a file only looks. -/
theorem looks_file (program path dialect : String) :
    Looks w (Convert.file program path dialect) := by
  refine (looks_isFile path).bind fun regular => ?_
  cases regular with
  | false => exact .pure _
  | true =>
    rw [if_pos rfl]
    split
    · exact looks_documentFile path
    · exact looks_run program path dialect

/-! ## Expansion -/

/-- What the files of a world convert to by a program. -/
def source (w : World) (program : String) (path : Path) (dialect : String) :
    Except ConverterError Document :=
  w.answer (Convert.file program path.toText dialect)

/-- Expanding a document by a program only looks, and gives what it gives with the converter that
knows the files of the world. -/
theorem observes_expand (options : Options) (program baseDir : String) (d : Document) :
    Observes w (d.expand options (Convert.byProgram program) baseDir).run
      (Id.run (d.expand options (.ofFunction (w.source program)) baseDir).run) := by
  refine Expansion.expand_related (m := StateM World) (n := Id)
    (R := fun _ x y => Observes w x.run (Id.run y.run)) options ?_ ?_ ?_ baseDir d
  · intro α r
    exact .pure r
  · intro α β x y f g hxy hfg
    rw [ExceptT.run_bind, ExceptT.run_bind, Id.run_bind]
    refine hxy.bind ?_
    cases Id.run y.run with
    | error e => exact .pure (Except.error e)
    | ok a => exact hfg a
  · intro request
    have hfile := (looks_file (w := w) program request.path.toText request.dialect).observes
    exact hfile.bind (f := fun answer => Pure.pure (Except.ok answer)) (.pure (Except.ok _))

end World

end Transclude
