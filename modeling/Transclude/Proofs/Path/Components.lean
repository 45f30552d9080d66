import Mathlib.Data.List.Basic
import Transclude.Path

/-!
# Paths component by component

A path is put in normal form in one pass over its components.  What has been kept so far is a
stack: a step up takes a name off it, is kept where there is nothing or another step up to go
above, and is dropped at the root.  The places of paths are exactly what this pass leaves.

Main results:

- Definition {lit}`Path.join`: a reference below a directory, as a text.
- Definition {lit}`Path.normalized`: the pass over the components of a text.
- Theorem {lit}`Path.resolve_eq_ofText_join`: a reference leads where the joined text leads.
- Theorem {lit}`Path.normalized_written_join`: the pass leaves the components of the place that a
  reference leads to.
-/

namespace Transclude

namespace Path

/-! ## Places by their last move -/

/-- A place is the root, or some levels above the current directory, or below another place. -/
theorem eq_root_or_above_or_down (p : Path) :
    p = root ∨ (∃ levels, p = ⟨.above levels, []⟩) ∨ ∃ (q : Path) (name : String),
      p = q.down name := by
  obtain ⟨origin, names⟩ := p
  rcases List.eq_nil_or_concat' names with rfl | ⟨front, name, rfl⟩
  · cases origin with
    | root => exact Or.inl rfl
    | above levels => exact Or.inr (Or.inl ⟨levels, rfl⟩)
  · exact Or.inr (Or.inr ⟨⟨origin, front⟩, name, rfl⟩)

@[simp] theorem up_root : root.up = root := rfl

@[simp] theorem up_above (levels : Nat) : up ⟨.above levels, []⟩ = ⟨.above (levels + 1), []⟩ := rfl

/-! ## Pieces and moves -/

/-- Nothing between two slashes is no move. -/
theorem move_empty (p : Path) : p.move "" = p := by
  simp [move]

/-- A text that goes on after a slash has the components of both parts. -/
theorem components_append_slash (front back : String) :
    components (front ++ "/" ++ back) = components front ++ components back := by
  have hchars : (front ++ "/" ++ back).toList = front.toList ++ '/' :: back.toList := by simp
  rw [components, hchars, Text.pieces_append, List.map_append, components, components]

/-- The last piece of a text that does not end in the separator ends as the text does. -/
theorem pieces_concat {separator c : Char} (hc : c ≠ separator) (s : List Char) :
    ∃ front last, Text.pieces separator (s ++ [c]) = front ++ [last ++ [c]] := by
  induction s with
  | nil => exact ⟨[], [], by simp [Text.pieces, hc]⟩
  | cons d s ih =>
    obtain ⟨front, last, ih⟩ := ih
    rw [List.cons_append, Text.pieces, ih]
    split
    · exact ⟨[] :: front, last, rfl⟩
    · cases front with
      | nil => exact ⟨[], d :: last, rfl⟩
      | cons first front => exact ⟨(d :: first) :: front, last, rfl⟩

/-- A text that does not end in a slash has a last component, which is not empty. -/
theorem components_concat {text : String} (hne : text ≠ "")
    (hlast : text.toList.getLast? ≠ some '/') :
    ∃ front name, components text = front ++ [name] ∧ name ≠ "" := by
  obtain ⟨s, c, htext⟩ := (List.eq_nil_or_concat' text.toList).resolve_left (by simpa using hne)
  rw [htext, List.getLast?_concat] at hlast
  obtain ⟨front, last, hpieces⟩ := pieces_concat (fun hc => hlast (congrArg some hc)) s
  refine ⟨front.map String.ofList, String.ofList (last ++ [c]), ?_, by simp⟩
  rw [components, htext, hpieces, List.map_append, List.map_singleton]

/-- A place is where the empty text leads to from it. -/
theorem follow_components_empty (p : Path) : p.follow (components "") = p := move_empty p

/-- No component holds a slash. -/
theorem slash_not_mem_of_mem_components {text name : String} (h : name ∈ components text) :
    '/' ∉ name.toList := by
  obtain ⟨piece, hpiece, rfl⟩ := List.mem_map.1 h
  rw [String.toList_ofList]
  exact Text.not_mem_piece hpiece

/-! ## Joining -/

/-- A reference below a directory, as a text.  A rooted reference leaves the directory behind. -/
def join (base reference : String) : String :=
  if isRooted reference then reference
  else if base = "" ∨ base.toList.getLast? = some '/' then base ++ reference
  else base ++ "/" ++ reference

/-- A reference that starts at the root makes no use of the base. -/
theorem join_of_isRooted {reference : String} (h : isRooted reference = true) (base : String) :
    join base reference = reference := by
  rw [join, if_pos h]

/-- A text with something in front starts at the root exactly if the front does. -/
theorem isRooted_append {front : String} (h : front ≠ "") (back : String) :
    isRooted (front ++ back) = isRooted front := by
  have hchars : front.toList ≠ [] := fun hnil => h (String.toList_eq_nil_iff.1 hnil)
  rw [isRooted, isRooted, String.toList_append, List.head?_append_of_ne_nil _ hchars]

/-- The joined text is rooted if the reference or the directory is. -/
theorem isRooted_join (base reference : String) :
    isRooted (join base reference) = (isRooted reference || isRooted base) := by
  unfold join
  split
  · next hrooted => rw [hrooted, Bool.true_or]
  · next hrooted =>
    rw [Bool.eq_false_iff.2 hrooted, Bool.false_or]
    by_cases hbase : base = ""
    · rw [if_pos (Or.inl hbase), hbase, String.empty_append]
      exact Bool.eq_false_iff.2 hrooted
    · split
      · exact isRooted_append hbase reference
      · rw [String.append_assoc]
        exact isRooted_append hbase ("/" ++ reference)

/-- The moves of the joined text are those of the directory and then those of the reference. -/
theorem follow_join {reference : String} (h : isRooted reference = false) (base : String)
    (p : Path) :
    p.follow (components (join base reference)) =
      (p.follow (components base)).follow (components reference) := by
  rw [join, if_neg (by simp [h])]
  split
  · next hbase =>
    rcases hbase with rfl | hlast
    · rw [String.empty_append, follow_components_empty]
    · -- The slash that the directory ends in stands in front of one more empty component.
      obtain ⟨front, hfront⟩ := List.getLast?_eq_some_iff.1 hlast
      have hbase : base = String.ofList front ++ "/" ++ "" := by
        rw [← String.toList_inj, hfront]
        simp
      have hjoined : base ++ reference = String.ofList front ++ "/" ++ reference := by
        rw [hbase, String.append_empty]
      rw [hjoined, hbase, components_append_slash, components_append_slash, follow_append,
        follow_append, follow_components_empty]
  · rw [components_append_slash, follow_append]

/-- A reference leads where the joined text leads. -/
theorem resolve_eq_ofText_join (base reference : String) :
    resolve base reference = ofText (join base reference) := by
  cases h : isRooted reference with
  | true => rw [join_of_isRooted h, resolve, if_pos h, ofText, start, if_pos h]
  | false =>
    rw [ofText, start, isRooted_join, h, Bool.false_or, follow_join h]
    simp [resolve, h, ofText, start]

/-! ## The pass over the components -/

/-- A component of a written path: the root, a dot in front, a step up, or a name. -/
inductive Component where
  | root
  | here
  | parent
  | name (name : String)
  deriving DecidableEq, Repr

/-- The component that stands between two slashes, which is none for nothing and for a dot. -/
def component? (piece : String) : Option Component :=
  if piece = "" ∨ piece = "." then none
  else if piece = ".." then some .parent
  else some (.name piece)

/-- The components of a text: the root if it starts there, or the dot that it starts with, and
then its names and its steps up. -/
def written (text : String) : List Component :=
  let front : List Component :=
    if isRooted text then [.root]
    else if (components text).head? = some "." then [.here]
    else []
  front ++ (components text).filterMap component?

/-- One more component after those that are kept.  What a step up does is decided by the last of
them: it takes a name away, it is kept after another step up or after nothing, and at the root it
is dropped. -/
def absorb (kept : List Component) : Component → List Component
  | .here => kept
  | .parent =>
    match kept.getLast? with
    | some (.name _) => kept.dropLast
    | some .parent | none => kept ++ [.parent]
    | some .root | some .here => kept
  | .root => [.root]
  | .name name => kept ++ [.name name]

/-- What a pass over some components keeps of them. -/
def normalized (components : List Component) : List Component :=
  components.foldl absorb []

/-- The components that spell a place. -/
def parts (p : Path) : List Component :=
  match p.origin with
  | .root => .root :: p.names.map .name
  | .above levels => List.replicate levels .parent ++ p.names.map .name

@[simp] theorem parts_root : root.parts = [.root] := rfl

@[simp] theorem parts_above (levels : Nat) :
    parts ⟨.above levels, []⟩ = List.replicate levels .parent := by
  simp [parts]

@[simp] theorem parts_down (p : Path) (name : String) :
    (p.down name).parts = p.parts ++ [.name name] := by
  obtain ⟨_ | levels, names⟩ := p <;> simp [parts, down]

/-- A step up from a place, as a change of its components. -/
theorem absorb_parent_parts (p : Path) : absorb p.parts .parent = p.up.parts := by
  rcases p.eq_root_or_above_or_down with rfl | ⟨levels, rfl⟩ | ⟨q, name, rfl⟩
  · rfl
  · rw [up_above, parts_above, parts_above, List.replicate_succ']
    cases levels with
    | zero => rfl
    | succ levels => simp [absorb, List.replicate_succ']
  · rw [up_down, parts_down]
    simp [absorb]

/-- What stands between two slashes changes a place and its components alike. -/
theorem foldl_absorb_component? (p : Path) (piece : String) :
    (component? piece).toList.foldl absorb p.parts = (p.move piece).parts := by
  unfold component? move
  split
  · rfl
  · split
    · exact absorb_parent_parts p
    · rw [parts_down]
      rfl

/-- The pass leaves the components of the place where the moves lead to. -/
theorem foldl_absorb_components (p : Path) (pieces : List String) :
    (pieces.filterMap component?).foldl absorb p.parts = (p.follow pieces).parts := by
  induction pieces generalizing p with
  | nil => rfl
  | cons piece pieces ih =>
    have hfirst : (piece :: pieces).filterMap component? =
        (component? piece).toList ++ pieces.filterMap component? := by
      rw [List.filterMap_cons]
      cases component? piece <;> rfl
    rw [hfirst, List.foldl_append, foldl_absorb_component?, ih]
    rfl

/-- The pass over a text leaves the components of the place that the text names. -/
theorem normalized_written (text : String) : normalized (written text) = (ofText text).parts := by
  have hfront : (if isRooted text then [.root]
      else if (components text).head? = some "." then [.here] else [] : List Component).foldl
        absorb [] = (start text).parts := by
    unfold start
    split
    · rfl
    · split <;> rfl
  rw [normalized, written, List.foldl_append, hfront, foldl_absorb_components, ofText]

/-- The pass over a reference below a directory leaves the components of the place that the
reference leads to. -/
theorem normalized_written_join (base reference : String) :
    normalized (written (join base reference)) = (resolve base reference).parts := by
  rw [resolve_eq_ofText_join, normalized_written]

end Path

end Transclude
