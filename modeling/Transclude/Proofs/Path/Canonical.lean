import Mathlib.Logic.Function.Iterate
import Transclude.Proofs.Expansion.TwoPhases
import Transclude.Proofs.Path.Components

/-!
# Canonical paths

A resolved reference is written as the root followed by names, or as steps up followed by names.
Such a text names the place that it is the written form of.  What place a text names is also told
without places: by the directory that one comes to when one starts in some directory and follows
the components one by one.  Two references are resolved to the same path exactly if one comes to
the same directory by both, wherever one starts.

Main results:

- Theorem {lit}`Path.isCanonical_ofText`: the names of a place that a text names are ordinary.
- Theorem {lit}`Path.ofText_toText`: the written form of a place of ordinary names names it.
- Definition {lit}`Path.destination`: the directory that one comes to by a text.
- Theorem {lit}`Path.ofText_eq_iff`: texts name the same place exactly if one comes to the same
  directories by them.
- Theorem {lit}`Path.resolve_canonical`: resolved paths are canonical.
-/

namespace Transclude

namespace Path

/-! ## Ordinary names -/

/-- A name that is a move down where it stands between slashes. -/
def IsOrdinary (name : String) : Prop :=
  IsName name ∧ '/' ∉ name.toList

/-- A place all of whose names are ordinary. -/
def IsCanonical (p : Path) : Prop :=
  ∀ name ∈ p.names, IsOrdinary name

/-- The names of a place that a text leads to from a place of ordinary names are ordinary. -/
theorem IsCanonical.follow_components {p : Path} (h : p.IsCanonical) (text : String) :
    (p.follow (components text)).IsCanonical :=
  forall_mem_names_follow (components text) h fun _ hmem hname =>
    ⟨hname, slash_not_mem_of_mem_components hmem⟩

/-- The names of a place that a text names are ordinary. -/
theorem isCanonical_ofText (text : String) : (ofText text).IsCanonical := by
  refine IsCanonical.follow_components ?_ text
  unfold start
  split
  · exact List.forall_mem_nil _
  · exact List.forall_mem_nil _

/-- The names of a place that a reference leads to are ordinary. -/
theorem isCanonical_resolve (base reference : String) : (resolve base reference).IsCanonical := by
  rw [resolve_eq_ofText_join]
  exact isCanonical_ofText _

/-! ## Written forms -/

/-- Names with slashes between them are the components of what they make up. -/
theorem components_intercalate {names : List String} (hne : names ≠ [])
    (h : ∀ name ∈ names, '/' ∉ name.toList) : components ("/".intercalate names) = names := by
  have hchars : ("/".intercalate names).toList = ['/'].intercalate (names.map String.toList) :=
    String.toList_intercalate
  have hslash : ∀ piece ∈ names.map String.toList, '/' ∉ piece := List.forall_mem_map.2 h
  rw [components, hchars, Text.pieces_intercalate (by simpa using hne) hslash, List.map_map]
  simp [Function.comp_def]

/-- Names with slashes between them lead where the names lead. -/
theorem follow_intercalate {names : List String} (h : ∀ name ∈ names, '/' ∉ name.toList)
    (p : Path) : p.follow (components ("/".intercalate names)) = p.follow names := by
  by_cases hne : names = []
  · rw [hne]
    exact follow_components_empty p
  · rw [components_intercalate hne h]

/-- A text that has a name in front does not start at the root. -/
theorem isRooted_intercalate {names : List String}
    (h : ∀ name ∈ names, name ≠ "" ∧ '/' ∉ name.toList) :
    isRooted ("/".intercalate names) = false := by
  cases names with
  | nil => rfl
  | cons name names =>
    have hname := (List.forall_mem_cons.1 h).1
    have hchars : ("/".intercalate (name :: names)).toList =
        ['/'].intercalate (name.toList :: names.map String.toList) := String.toList_intercalate
    obtain ⟨c, rest, hcons⟩ : ∃ c rest, name.toList = c :: rest :=
      List.exists_cons_of_ne_nil fun hnil => hname.1 (String.toList_eq_nil_iff.1 hnil)
    have hc : c ≠ '/' := by
      intro hc
      apply hname.2
      rw [hcons, hc]
      exact List.mem_cons_self
    have hhead : ("/".intercalate (name :: names)).toList.head? = some c := by
      rw [hchars, hcons]
      cases names <;> simp
    rw [isRooted, hhead]
    simpa using hc

/-- Ordinary names lead below a place. -/
theorem follow_names {names : List String} (h : ∀ name ∈ names, IsName name) (p : Path) :
    p.follow names = ⟨p.origin, p.names ++ names⟩ := by
  induction names generalizing p with
  | nil => simp [follow]
  | cons name names ih =>
    obtain ⟨⟨hempty, hdot, hdots⟩, hrest⟩ := List.forall_mem_cons.1 h
    have hmove : p.move name = p.down name := by simp [move, hempty, hdot, hdots]
    calc p.follow (name :: names) = (p.down name).follow names := by rw [← hmove]; rfl
      _ = ⟨p.origin, p.names ++ [name] ++ names⟩ := ih hrest _
      _ = ⟨p.origin, p.names ++ name :: names⟩ := by simp

/-- Steps up lead as many levels above the current directory. -/
theorem follow_parents (levels : Nat) :
    here.follow (List.replicate levels "..") = ⟨.above levels, []⟩ := by
  induction levels with
  | zero => rfl
  | succ levels ih =>
    rw [List.replicate_succ', follow_append, ih]
    rfl

/-- Steps up and ordinary names between slashes are not empty and hold no slash. -/
theorem IsCanonical.forall_mem_spelling {p : Path} (h : p.IsCanonical) (levels : Nat) :
    ∀ name ∈ List.replicate levels ".." ++ p.names, name ≠ "" ∧ '/' ∉ name.toList := by
  intro name hname
  rcases List.mem_append.1 hname with hname | hname
  · rw [List.eq_of_mem_replicate hname]
    decide
  · exact ⟨(h name hname).1.1, (h name hname).2⟩

/-- The written form of a place starts at the root exactly if the place is below the root. -/
theorem IsCanonical.isRooted_toText {p : Path} (h : p.IsCanonical) :
    isRooted p.toText = true ↔ p.origin = .root := by
  obtain ⟨origin, names⟩ := p
  cases origin with
  | root =>
    have hrooted : isRooted ("/" ++ "/".intercalate names) = isRooted "/" :=
      isRooted_append (by decide) _
    rw [toText, hrooted]
    exact iff_of_true (by decide) rfl
  | above levels =>
    rw [toText, isRooted_intercalate (h.forall_mem_spelling levels)]
    simp

/-- The written form of a place of ordinary names names it. -/
theorem ofText_toText {p : Path} (h : p.IsCanonical) : ofText p.toText = p := by
  have hrooted := h.isRooted_toText
  have hspelling := h.forall_mem_spelling
  have hnames : ∀ name ∈ p.names, IsName name := fun name hname => (h name hname).1
  obtain ⟨origin, names⟩ := p
  rw [ofText, start]
  cases origin with
  | root =>
    have hslash : components (toText ⟨.root, names⟩) =
        components "" ++ components ("/".intercalate names) := by
      rw [← components_append_slash, String.empty_append]
      rfl
    rw [if_pos (hrooted.2 rfl), hslash, follow_append, follow_components_empty,
      follow_intercalate fun name hname => (h name hname).2, follow_names hnames]
    rfl
  | above levels =>
    rw [if_neg (fun htext => Origin.noConfusion (hrooted.1 htext)), toText,
      follow_intercalate fun name hname => (hspelling levels name hname).2, follow_append,
      follow_parents, follow_names hnames]
    rfl

/-- Places of ordinary names are told apart by their written forms. -/
theorem toText_eq_iff {p q : Path} (hp : p.IsCanonical) (hq : q.IsCanonical) :
    p.toText = q.toText ↔ p = q := by
  constructor
  · intro h
    rw [← ofText_toText hp, h, ofText_toText hq]
  · exact congrArg toText

/-! ## Where one comes to -/

/-- One component, followed by somebody who stands in a directory, which is given by the names
that lead to it from the root.  From the root there is no step up. -/
def stepFrom (directory : List String) (piece : String) : List String :=
  if piece = "" ∨ piece = "." then directory
  else if piece = ".." then directory.dropLast
  else directory ++ [piece]

/-- The directory that one comes to by the components of a text, from the root if the text starts
there and otherwise from the directory that one stands in. -/
def destination (text : String) (directory : List String) : List String :=
  (components text).foldl stepFrom (if isRooted text then [] else directory)

/-- Texts that lead to the same place: both start at the root or both in the current directory,
and one comes to the same directory by them whatever the current one is. -/
structure SamePlace (text text' : String) : Prop where
  start : isRooted text = isRooted text'
  finish : ∀ directory, destination text directory = destination text' directory

/-- The directory that a place is for somebody who stands in a directory. -/
def seenFrom (directory : List String) (p : Path) : List String :=
  match p.origin with
  | .root => p.names
  | .above levels => List.dropLast^[levels] directory ++ p.names

section SeenFrom

variable (directory : List String)

/-- Steps up are taken from the directory. -/
theorem seenFrom_above (levels : Nat) :
    seenFrom directory ⟨.above levels, []⟩ = List.dropLast^[levels] directory := by
  simp [seenFrom]

/-- A step down is a name more at the end. -/
theorem seenFrom_down (p : Path) (name : String) :
    (p.down name).seenFrom directory = p.seenFrom directory ++ [name] := by
  obtain ⟨_ | levels, names⟩ := p <;> simp [seenFrom, down]

/-- A step up is a name less at the end. -/
theorem seenFrom_up (p : Path) :
    p.up.seenFrom directory = (p.seenFrom directory).dropLast := by
  rcases p.eq_root_or_above_or_down with rfl | ⟨levels, rfl⟩ | ⟨q, name, rfl⟩
  · rfl
  · rw [up_above, seenFrom_above, seenFrom_above, Function.iterate_succ_apply']
  · rw [up_down, seenFrom_down, List.dropLast_concat]

/-- A move is followed alike from place to place and from directory to directory. -/
theorem seenFrom_move (p : Path) (piece : String) :
    (p.move piece).seenFrom directory = stepFrom (p.seenFrom directory) piece := by
  unfold move stepFrom
  split
  · rfl
  · split
    · exact seenFrom_up directory p
    · exact seenFrom_down directory p piece

/-- So are moves one after the other. -/
theorem seenFrom_follow (p : Path) (pieces : List String) :
    (p.follow pieces).seenFrom directory = pieces.foldl stepFrom (p.seenFrom directory) := by
  induction pieces generalizing p with
  | nil => rfl
  | cons piece pieces ih =>
    rw [List.foldl_cons, ← seenFrom_move, ← ih]
    rfl

/-- One comes to the place that a text names. -/
theorem destination_eq_seenFrom (text : String) :
    destination text directory = (ofText text).seenFrom directory := by
  rw [destination, ofText, seenFrom_follow, start]
  cases isRooted text <;> simp [seenFrom, root, here]

end SeenFrom

/-- Steps up from a directory below as many others. -/
theorem length_iterate_dropLast (levels : Nat) (directory : List String) :
    (List.dropLast^[levels] directory).length = directory.length - levels := by
  induction levels with
  | zero => rfl
  | succ levels ih =>
    rw [Function.iterate_succ_apply', List.length_dropLast, ih, Nat.sub_sub]

/-- There are no steps up from the root. -/
theorem iterate_dropLast_nil (levels : Nat) : List.dropLast^[levels] ([] : List String) = [] :=
  List.length_eq_zero_iff.1 (by rw [length_iterate_dropLast]; simp)

/-- Places that start alike are the same if they are the same directories for everybody.  From
the root one sees the names, and from deep enough below it how many steps up there are. -/
theorem eq_of_seenFrom {p q : Path} (hstart : p.origin = .root ↔ q.origin = .root)
    (h : ∀ directory, p.seenFrom directory = q.seenFrom directory) : p = q := by
  obtain ⟨origin, names⟩ := p
  obtain ⟨origin', names'⟩ := q
  cases origin with
  | root =>
    cases hstart.1 rfl
    exact congrArg (Path.mk .root) (h [])
  | above levels =>
    cases origin' with
    | root => cases hstart.2 rfl
    | above levels' =>
      have hnames : names = names' := by
        have hroot := h []
        simpa only [seenFrom, iterate_dropLast_nil, List.nil_append] using hroot
      have hdeep := h (List.replicate (levels + levels') "")
      simp only [seenFrom, hnames, List.append_cancel_right_eq] at hdeep
      have hlength := congrArg List.length hdeep
      simp only [length_iterate_dropLast, List.length_replicate] at hlength
      have hlevels : levels = levels' := by omega
      rw [hnames, hlevels]

/-- Moves do not lead away from the root, and not to it. -/
theorem origin_follow_eq_root_iff (p : Path) (pieces : List String) :
    (p.follow pieces).origin = .root ↔ p.origin = .root := by
  induction pieces generalizing p with
  | nil => rfl
  | cons piece pieces ih =>
    refine (ih (p.move piece)).trans ?_
    unfold move
    split
    · rfl
    · split
      · rcases p.eq_root_or_above_or_down with rfl | ⟨levels, rfl⟩ | ⟨q, name, rfl⟩
        · rfl
        · simp
        · rw [up_down]
          rfl
      · rfl

/-- A text names a place below the root exactly if it starts there. -/
theorem origin_ofText_eq_root_iff (text : String) :
    (ofText text).origin = .root ↔ isRooted text = true := by
  rw [ofText, origin_follow_eq_root_iff, start]
  cases isRooted text <;> simp [root, here]

/-- Texts name the same place exactly if they lead to the same place. -/
theorem ofText_eq_iff {text text' : String} :
    ofText text = ofText text' ↔ SamePlace text text' := by
  constructor
  · intro h
    have hstart : isRooted text = true ↔ isRooted text' = true := by
      rw [← origin_ofText_eq_root_iff, ← origin_ofText_eq_root_iff, h]
    refine ⟨Bool.eq_iff_iff.2 hstart, fun directory => ?_⟩
    rw [destination_eq_seenFrom, destination_eq_seenFrom, h]
  · intro h
    refine eq_of_seenFrom ?_ fun directory => ?_
    · rw [origin_ofText_eq_root_iff, origin_ofText_eq_root_iff, h.start]
    · rw [← destination_eq_seenFrom, ← destination_eq_seenFrom, h.finish]

/-- References are resolved to the same path exactly if the joined texts lead to the same place. -/
theorem resolve_eq_iff {base reference base' reference' : String} :
    resolve base reference = resolve base' reference' ↔
      SamePlace (join base reference) (join base' reference') := by
  rw [resolve_eq_ofText_join, resolve_eq_ofText_join, ofText_eq_iff]

/-! ## Resolved references -/

/-- The written form of a place is the root followed by its names, or steps up followed by them. -/
theorem toText_cases (p : Path) :
    p.toText = "/" ++ "/".intercalate p.names ∨
      ∃ levels, p.toText = "/".intercalate (List.replicate levels ".." ++ p.names) := by
  obtain ⟨_ | levels, names⟩ := p
  · exact Or.inl rfl
  · exact Or.inr ⟨levels, rfl⟩

/-- The written form of a place starts at the root if the text does that names the place. -/
theorem isRooted_toText_ofText (text : String) : isRooted (ofText text).toText = isRooted text := by
  rw [Bool.eq_iff_iff, (isCanonical_ofText text).isRooted_toText, origin_ofText_eq_root_iff]

/-- A written form is resolved to its place, from any directory if it starts at the root and
otherwise from the current one. -/
theorem resolve_toText {p : Path} (h : p.IsCanonical) {base : String}
    (hbase : isRooted p.toText = true ∨ base = "") : resolve base p.toText = p := by
  rw [resolve_eq_ofText_join]
  rcases hbase with hrooted | rfl
  · rw [join_of_isRooted hrooted, ofText_toText h]
  · have hjoin : join "" p.toText = p.toText := by
      simp [join]
    rw [hjoin, ofText_toText h]

/-- Among resolved paths there is that of a reference exactly if one of them leads to the same
place. -/
theorem resolve_mem_iff {base reference : String} {opened : List (String × String)} :
    resolve base reference ∈ opened.map (fun (base', reference') => resolve base' reference') ↔
      ∃ file ∈ opened, SamePlace (join file.1 file.2) (join base reference) := by
  rw [List.mem_map]
  exact exists_congr fun file => and_congr_right fun _ => resolve_eq_iff

/-- Resolved paths are canonical.  A reference is resolved by one pass over the components of the
joined text.  The written form of the result is the root followed by ordinary names, or steps up
followed by ordinary names; it starts at the root if the joined text does; and it is resolved to
the same path again.  Two references are resolved to the same path, written in the same way,
exactly if the joined texts lead to the same place.  So the guard against cycles goes by places: a
file is a cycle if one of the open files is the same place, however both are written, and otherwise
it is asked for while there is room. -/
theorem resolve_canonical (base reference : String) :
    let resolved := resolve base reference
    let joined := join base reference
    normalized (written joined) = resolved.parts ∧
    (∃ names, (∀ name ∈ names, IsOrdinary name) ∧
      (resolved.toText = "/" ++ "/".intercalate names ∨
        ∃ levels, resolved.toText = "/".intercalate (List.replicate levels ".." ++ names))) ∧
    isRooted resolved.toText = isRooted joined ∧
    (∀ base', isRooted resolved.toText = true ∨ base' = "" →
      resolve base' resolved.toText = resolved) ∧
    (∀ base' reference',
      (resolve base' reference' = resolved ↔ SamePlace (join base' reference') joined) ∧
      ((resolve base' reference').toText = resolved.toText ↔
        SamePlace (join base' reference') joined)) ∧
    (∀ (m : Type → Type) [Monad m] [LawfulMonad m] (options : Options) (converter : Converter m)
      (room : Nat) (opened : List (String × String)) (directive dialect : String),
      let openFiles := opened.map fun (base', reference') => resolve base' reference'
      ((∃ file ∈ opened, SamePlace (join file.1 file.2) joined) →
        Expansion.includeFile options converter room openFiles directive resolved dialect =
          throw (.cycle (openFiles ++ [resolved]))) ∧
      ((¬∃ file ∈ opened, SamePlace (join file.1 file.2) joined) →
        Expansion.includeFile options converter (room + 1) openFiles directive resolved dialect =
          (do
            match ← converter ⟨resolved, dialect, openFiles⟩ with
            | .error cause => throw (.convert resolved directive cause)
            | .ok document =>
              let bs ← Expansion.fragment options
                (Expansion.includeFile options converter room (openFiles ++ [resolved]))
                resolved.parent.toText document.blocks
              return Expansion.container options bs))) := by
  intro resolved joined
  have hcanonical : resolved.IsCanonical := isCanonical_resolve base reference
  have hrooted : isRooted resolved.toText = isRooted joined := by
    rw [← isRooted_toText_ofText joined, ← resolve_eq_ofText_join]
  refine ⟨normalized_written_join base reference, ?_, hrooted, ?_, ?_, ?_⟩
  · exact ⟨resolved.names, hcanonical, resolved.toText_cases⟩
  · exact fun base' hbase' => resolve_toText hcanonical hbase'
  · intro base' reference'
    refine ⟨resolve_eq_iff, ?_⟩
    rw [toText_eq_iff (isCanonical_resolve base' reference') hcanonical]
    exact resolve_eq_iff
  · intro m _ _ options converter room opened directive dialect openFiles
    constructor
    · intro hsame
      exact Expansion.includeFile_of_mem options converter directive dialect room
        (resolve_mem_iff.2 hsame)
    · intro hdiffer
      exact Expansion.includeFile_succ options converter directive dialect room
        fun hmem => hdiffer (resolve_mem_iff.1 hmem)

end Path

end Transclude
