import Transclude.Text.Split

/-!
# Paths

Where a file lies, told from the text of its path alone.  A path is a place: names below the
root, or names below a place some levels above the current directory.  Reading a text as moves
from place to place leaves one form per place, so two texts name the same file, links aside,
exactly when their paths are equal.

Main definitions:

- {lit}`Path`: a place.
- {lit}`Path.follow`: the place at the end of some moves.
- {lit}`Path.resolve`: the place that a reference names, seen from a base directory.
- {lit}`Path.parent`: the directory that a file lies in.
-/

namespace Transclude

/-- Where the names of a path start: at the root, or some levels above the current directory. -/
inductive Origin where
  | root
  | above (levels : Nat)
  deriving DecidableEq, Repr, Inhabited

/-- A place: an origin, and names from there on, the outermost first. -/
structure Path where
  origin : Origin
  names : List String
  deriving DecidableEq, Repr, Inhabited

namespace Path

/-- The root. -/
def root : Path :=
  ⟨.root, []⟩

/-- The current directory. -/
def here : Path :=
  ⟨.above 0, []⟩

/-! ## Moves -/

/-- Go down to a name. -/
def down (p : Path) (name : String) : Path :=
  { p with names := p.names ++ [name] }

/-- Go up one level; above the root there is only the root. -/
def up (p : Path) : Path :=
  match p.names, p.origin with
  | [], .root => p
  | [], .above levels => ⟨.above (levels + 1), []⟩
  | _ :: _, _ => { p with names := p.names.dropLast }

/-- One component of a written path as a move: nothing and a dot stay, two dots go up, and any
other name goes down. -/
def move (p : Path) (component : String) : Path :=
  if component = "" ∨ component = "." then p
  else if component = ".." then p.up
  else p.down component

/-- The place at the end of some moves. -/
def follow (p : Path) (components : List String) : Path :=
  components.foldl move p

/-! ## Texts -/

/-- The components between the slashes of a written path. -/
def components (text : String) : List String :=
  (Text.pieces '/' text.toList).map String.ofList

/-- Whether a written path starts at the root. -/
def isRooted (text : String) : Bool :=
  text.toList.head? == some '/'

/-- The place where a written path starts. -/
def start (text : String) : Path :=
  if isRooted text then root else here

/-- The place that a written path names. -/
def ofText (text : String) : Path :=
  (start text).follow (components text)

/-- The place that a reference names, seen from a base directory. -/
def resolve (base reference : String) : Path :=
  (if isRooted reference then root else ofText base).follow (components reference)

/-- The written form of a place; that of the current directory is empty. -/
def toText (p : Path) : String :=
  match p.origin with
  | .root => "/" ++ "/".intercalate p.names
  | .above levels => "/".intercalate (List.replicate levels ".." ++ p.names)

/-- The directory that a file lies in, as far as its path tells: the place without its last
component.  The root and the current directory lie in the current directory. -/
def parent (p : Path) : Path :=
  match p.names, p.origin with
  | [], .root => here
  | [], .above levels => ⟨.above (levels - 1), []⟩
  | _ :: _, _ => { p with names := p.names.dropLast }

/-! ## Canonical form -/

/-- Going down and up again leads back. -/
theorem up_down (p : Path) (name : String) : (p.down name).up = p := by
  obtain ⟨origin, names⟩ := p
  cases names with
  | nil => simp [down, up]
  | cons first rest =>
    simp only [down, up, List.cons_append]
    rw [← List.cons_append, List.dropLast_concat]

/-- Moves are followed one after the other. -/
theorem follow_append (p : Path) (front back : List String) :
    p.follow (front ++ back) = (p.follow front).follow back := by
  simp [follow]

/-- Names whose written form is a move down to them. -/
def IsName (name : String) : Prop :=
  name ≠ "" ∧ name ≠ "." ∧ name ≠ ".."

/-- What holds of the names of a place and of all names among some moves holds of the names of the
place that the moves lead to. -/
theorem forall_mem_names_follow {P : String → Prop} {p : Path} (components : List String)
    (hp : ∀ name ∈ p.names, P name) (hc : ∀ name ∈ components, IsName name → P name) :
    ∀ name ∈ (p.follow components).names, P name := by
  induction components generalizing p with
  | nil => exact hp
  | cons c rest ih =>
    rw [List.forall_mem_cons] at hc
    refine ih (p := p.move c) ?_ hc.2
    unfold move
    split
    · exact hp
    · next hstay =>
      split
      · intro name hmem
        unfold up at hmem
        split at hmem
        · exact hp name hmem
        · simp at hmem
        · exact hp name (List.dropLast_subset _ hmem)
      · next hup =>
        intro name hmem
        rcases List.mem_append.1 hmem with h | h
        · exact hp name h
        · rw [List.mem_singleton.1 h]
          exact hc.1 ⟨fun h => hstay (Or.inl h), fun h => hstay (Or.inr h), hup⟩

example : (resolve "/doc/chapters" "./a/../b.md").toText = "/doc/chapters/b.md" := by decide +kernel
example : (resolve "rel" "../../z.md").toText = "../z.md" := by decide +kernel
example : (resolve "/" "../../z.md").toText = "/z.md" := by decide +kernel

end Path

end Transclude
