import Mathlib.Data.List.Nodup
import Transclude.Proofs.Expansion.Stack

/-!
# Stacks in order

At every moment of an expansion on a stack, the open files are distinct, not more than may be,
and each of them is named in the one below it.  The converter is only asked for a file that is
not open, and only while there is room.

Main definitions:

- {lit}`Expansion.Standing`: what holds of a stack at any moment.
- {lit}`Expansion.Sound`: what holds of an event.
- {lit}`Expansion.Explained`: what holds of an error.
- {lit}`Expansion.Tells`: events that tell all calls of the converter.

Main result:

- Theorem {lit}`Expansion.Standing.push`: a stack is still in order with a file on top that has
  been asked for.
-/

namespace Transclude

namespace Expansion

variable {σ : Type}

/-! ## Stacks -/

/-- Blocks and the directory from which the references in them are resolved. -/
structure Place where
  directory : String
  blocks : List Block

/-- The blocks of the file on top of a stack; with no file open, the outermost ones. -/
def Place.within (outermost : Place) (stack : List OpenFile) : Place :=
  match stack.getLast? with
  | none => outermost
  | some file => ⟨file.resolved.directory, file.document.blocks⟩

@[simp] theorem Place.within_append_singleton (outermost : Place) (stack : List OpenFile)
    (file : OpenFile) :
    outermost.within (stack ++ [file]) = ⟨file.resolved.directory, file.document.blocks⟩ := by
  simp [Place.within]

/-- A reference occurs in the file on top of a stack, or in the outermost blocks if no file is
open. -/
def OccursOn (options : Options) (outermost : Place) (stack : List OpenFile) (r : Resolved) :
    Prop :=
  Occurs options (outermost.within stack).directory (outermost.within stack).blocks r

/-- What holds of a stack at any moment: its files are distinct and not more than may be open;
each of them is named in the one below it, the first in the outermost blocks; and each of them
has been asked for, with the answer that it now stands for. -/
structure Standing (options : Options) (outermost : Place) (history : List Event)
    (stack : List OpenFile) : Prop where
  distinct : (paths stack).Nodup
  bounded : stack.length ≤ options.maxDepth
  named : ∀ below file above, stack = below ++ file :: above →
    OccursOn options outermost below file.resolved
  converted : ∀ below file above, stack = below ++ file :: above →
    .asked below file.resolved (.ok file.document) ∈ history

/-- What holds of an event: the stack is in order.  A reference that is met, or whose file is
asked for, occurs in the file on top; a file that is asked for is not open, and there is room for
it. -/
inductive Sound (options : Options) (outermost : Place) (history : List Event) : Event → Prop
  | met {stack : List OpenFile} {file : Resolved}
    (hstanding : Standing options outermost history stack)
    (hoccurs : OccursOn options outermost stack file) : Sound options outermost history
      (.met stack file)
  | asked {stack : List OpenFile} {file : Resolved} {answer : Except ConverterError Document}
    (hstanding : Standing options outermost history stack)
    (hoccurs : OccursOn options outermost stack file) (hnew : file.path ∉ paths stack)
    (hroom : stack.length < options.maxDepth) : Sound options outermost history
      (.asked stack file answer)
  | opened {stack : List OpenFile} (hstanding : Standing options outermost history stack) :
    Sound options outermost history (.opened stack)
  | closed {stack : List OpenFile} (hstanding : Standing options outermost history stack) :
    Sound options outermost history (.closed stack)

/-- The errors of expansion, with what the stack has to do with them.  A cycle is a reference to
a file that is open, and depth is exceeded by a file that is not, when the stack is full. -/
inductive Explained (options : Options) (outermost : Place) (history : List Event) :
    IncludeError → Prop
  | emptyDirective (baseDir : String) : Explained options outermost history
      (.emptyDirective baseDir)
  | convert (path : Path) (text : String) (cause : ConverterError) :
    Explained options outermost history (.convert path text cause)
  | cycle {stack : List OpenFile} {file : Resolved}
    (hstanding : Standing options outermost history stack)
    (hoccurs : OccursOn options outermost stack file) (hopen : file.path ∈ paths stack) :
    Explained options outermost history (.cycle (paths stack ++ [file.path]))
  | depthExceeded {stack : List OpenFile} {file : Resolved}
    (hstanding : Standing options outermost history stack)
    (hoccurs : OccursOn options outermost stack file) (hnew : file.path ∉ paths stack)
    (hfull : stack.length = options.maxDepth) : Explained options outermost history
      (.depthExceeded options.maxDepth file.path)

section Standing

variable {options : Options} {outermost : Place} {history : List Event}

/-- An empty stack is in order. -/
theorem standing_nil : Standing options outermost history [] where
  distinct := by simp
  bounded := Nat.zero_le _
  named := by simp
  converted := by simp

/-- A stack stays in order while more happens. -/
theorem Standing.append {stack : List OpenFile} (h : Standing options outermost history stack)
    (later : List Event) : Standing options outermost (history ++ later) stack :=
  { h with
    converted := fun below file above hstack =>
      List.mem_append_left later (h.converted below file above hstack) }

/-- A file of a stack is the one put on top last, or it is a file of the stack before. -/
theorem parts_of_push {stack below above : List OpenFile} {file file' : OpenFile}
    (h : stack ++ [file] = below ++ file' :: above) :
    (below = stack ∧ file' = file) ∨ ∃ above', stack = below ++ file' :: above' := by
  rcases List.eq_nil_or_concat above with rfl | ⟨above', last, rfl⟩
  · obtain ⟨hbelow, hfile⟩ := List.append_inj' h rfl
    exact Or.inl ⟨hbelow.symm, (List.singleton_inj.1 hfile).symm⟩
  · rw [List.concat_eq_append, ← List.cons_append, ← List.append_assoc] at h
    exact Or.inr ⟨above', (List.append_inj' h rfl).1⟩

/-- A file that has been asked for is put on top. -/
theorem Standing.push {stack : List OpenFile} {file : OpenFile}
    (h : Standing options outermost history stack)
    (hoccurs : OccursOn options outermost stack file.resolved)
    (hnew : file.resolved.path ∉ paths stack) (hroom : stack.length < options.maxDepth)
    (hasked : .asked stack file.resolved (.ok file.document) ∈ history) :
    Standing options outermost history (stack ++ [file]) := by
  refine ⟨?_, ?_, ?_, ?_⟩
  · rw [paths_append, paths_singleton, ← List.concat_eq_append, List.nodup_concat]
    exact ⟨hnew, h.distinct⟩
  · rw [List.length_append, List.length_singleton]
    exact hroom
  · intro below file' above hstack
    rcases parts_of_push hstack with ⟨rfl, rfl⟩ | ⟨above', hstack'⟩
    · exact hoccurs
    · exact h.named below file' above' hstack'
  · intro below file' above hstack
    rcases parts_of_push hstack with ⟨rfl, rfl⟩ | ⟨above', hstack'⟩
    · exact hasked
    · exact h.converted below file' above' hstack'

/-- An event stays sound while more happens. -/
theorem Sound.append {event : Event} (h : Sound options outermost history event)
    (later : List Event) : Sound options outermost (history ++ later) event := by
  cases h with
  | met hstanding hoccurs => exact .met (hstanding.append later) hoccurs
  | asked hstanding hoccurs hnew hroom =>
    exact .asked (hstanding.append later) hoccurs hnew hroom
  | opened hstanding => exact .opened (hstanding.append later)
  | closed hstanding => exact .closed (hstanding.append later)

/-- An error stays explained while more happens. -/
theorem Explained.append {e : IncludeError} (h : Explained options outermost history e)
    (later : List Event) : Explained options outermost (history ++ later) e := by
  cases h with
  | emptyDirective baseDir => exact .emptyDirective baseDir
  | convert path text cause => exact .convert path text cause
  | cycle hstanding hoccurs hopen => exact .cycle (hstanding.append later) hoccurs hopen
  | depthExceeded hstanding hoccurs hnew hfull =>
    exact .depthExceeded (hstanding.append later) hoccurs hnew hfull

end Standing

/-! ## The calls of the converter -/

/-- Events that tell what the converter is asked and what it answers: beginning in one state, it
gives these answers in this order, and ends in the other state. -/
def Tells (converter : Converter (StateM σ)) : σ → List Event → σ → Prop
  | world, [], world' => world = world'
  | world, .asked stack file answer :: events, world' =>
    ∃ next, StateT.run (converter ⟨file.path, file.dialect, paths stack⟩) world = (answer, next) ∧
      Tells converter next events world'
  | world, _ :: events, world' => Tells converter world events world'

/-- Events one after the other tell of the world one after the other. -/
theorem Tells.append {converter : Converter (StateM σ)} {events events' : List Event}
    {world next world' : σ} (h : Tells converter world events next)
    (h' : Tells converter next events' world') :
    Tells converter world (events ++ events') world' := by
  induction events generalizing world with
  | nil =>
    cases h
    exact h'
  | cons event events ih =>
    cases event with
    | asked stack file answer =>
      obtain ⟨next', hanswer, hrest⟩ := h
      exact ⟨next', hanswer, ih hrest⟩
    | met stack file => exact ih h
    | opened stack => exact ih h
    | closed stack => exact ih h

end Expansion

end Transclude
