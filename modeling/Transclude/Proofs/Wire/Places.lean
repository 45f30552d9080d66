import Transclude.Proofs.Wire.Grammar

/-!
# Places in a value

A place is the way down from a value to a value in it.  The grammar says at which places blocks,
inlines and metadata values stand, and in which order they are come upon by going through the
value.  A value is patched by putting other values at some of its places.

Main results:

- Definition {lit}`Json.kindAt?`: the kind of node that stands at a place.
- Definition {lit}`Json.places`: all places of nodes, in the order in which they are come upon.
- Theorem {lit}`Json.mem_places_iff`: these are all places at which nodes stand.
- Definition {lit}`Json.Place.Before`: the order of places.
- Theorem {lit}`Json.inOrder_places`: the places are listed in that order.
- Definition {lit}`Json.patched`: a value with other values at some of its places.
-/

namespace Transclude

/-! ## Parts of a shape -/

/-- Whether nodes of a kind make up the tree of a document; the others are choices. -/
def Kind.inTree : Kind → Bool
  | .block => true
  | .inline => true
  | .metaValue => true
  | _ => false

namespace Shape

/-- What stands in an array where an element of some index stands. -/
def element? : Shape → Nat → Option Shape
  | .list element, _ => some element
  | .tuple components, i => components[i]?
  | _, _ => none

/-- The members that an object uses, each with what stands there, in the order in which they are
read.  All members of a dictionary are used. -/
def used (s : Shape) (members : List (String × Json)) : List (String × Shape) :=
  match s with
  | .dictionary value => members.map fun m => (m.1, value)
  | s => (s.fields? members).getD []

/-- The kind of a node in the tree of a document, if one stands in a place. -/
def root? : Shape → Option Kind
  | .node kind => if kind.inTree then some kind else none
  | _ => none

end Shape

namespace Json

/-! ## Places -/

/-- A step down from a value: to an element of an array, or to a member of an object. -/
inductive Step where
  | element (index : Nat)
  | member (key : String)
  deriving DecidableEq, Repr

/-- A place in a value: the steps that lead there from the top. -/
abbrev Place := List Step

/-- Where a step leads to, and what stands there, if the grammar says so. -/
def child? (s : Shape) : Json → Step → Option (Shape × Json)
  | .arr xs, .element i => (s.element? i).bind fun t => xs[i]?.map fun x => (t, x)
  | .obj members, .member key =>
    (member? key (s.used members)).bind fun t => (member? key members).map fun x => (t, x)
  | _, _ => none

/-- A step into an array leads to the element of an index. -/
theorem child?_arr_eq_some_iff {s t : Shape} {xs : List Json} {step : Step} {x : Json} :
    child? s (.arr xs) step = some (t, x) ↔
      ∃ i, step = .element i ∧ s.element? i = some t ∧ xs[i]? = some x := by
  cases step <;> simp [child?, Option.bind_eq_some_iff]

/-- A step into an object leads to the member of a key that is used. -/
theorem child?_obj_eq_some_iff {s t : Shape} {members : List (String × Json)} {step : Step}
    {x : Json} :
    child? s (.obj members) step = some (t, x) ↔
      ∃ key, step = .member key ∧ member? key (s.used members) = some t ∧
        member? key members = some x := by
  cases step <;> simp [child?, Option.bind_eq_some_iff]

/-- The kind of node that stands at a place, if one stands there. -/
def kindAt? (s : Shape) (v : Json) : Place → Option Kind
  | [] => s.root?
  | step :: p => (child? s v step).bind fun (t, x) => kindAt? t x p

/-- The place of a value itself, if it is a node. -/
def root (s : Shape) : List (Place × Kind) :=
  s.root?.toList.map fun kind => ([], kind)

/-- A place further down, past a step. -/
def under (step : Step) (place : Place × Kind) : Place × Kind :=
  (step :: place.1, place.2)

mutual

/-- The places of nodes in a value, each with the kind of the node, in the order in which they are
come upon: a node before the nodes in it, elements from left to right, members in the order of
their keys as the grammar has it. -/
def places (s : Shape) : Json → List (Place × Kind)
  | .arr xs => root s ++ placesElements s 0 xs
  | .obj members =>
    root s ++ (s.used members).flatMap fun f =>
      (member? f.1 (placesMembers (s.used members) members)).getD []
  | _ => root s
termination_by structural v => v

/-- The places of nodes in the elements of an array, from some index on. -/
def placesElements (s : Shape) (i : Nat) : List Json → List (Place × Kind)
  | [] => []
  | x :: xs =>
    (match s.element? i with
      | some t => (places t x).map (under (.element i))
      | none => []) ++ placesElements s (i + 1) xs
termination_by structural xs => xs

/-- The places of nodes in the members of an object, key by key. -/
def placesMembers (fields : List (String × Shape)) :
    List (String × Json) → List (String × List (Place × Kind))
  | [] => []
  | (key, x) :: rest =>
    (key, match member? key fields with
      | some t => (places t x).map (under (.member key))
      | none => []) :: placesMembers fields rest
termination_by structural members => members

end

/-- The places in a part, seen from the whole; none if nothing is known of the part. -/
def placesAt (step : Step) (shape? : Option Shape) (x : Json) : List (Place × Kind) :=
  match shape? with
  | some t => (places t x).map (under step)
  | none => []

/-! ## All places are listed -/

/-- The root is a place exactly if a node stands in the place of the whole. -/
theorem mem_root_iff {s : Shape} {p : Place} {kind : Kind} :
    (p, kind) ∈ root s ↔ p = [] ∧ s.root? = some kind := by
  simp [root, eq_comm, and_comm]

/-- The places in a part begin with the step to the part. -/
theorem mem_placesAt_iff {step : Step} {shape? : Option Shape} {x : Json} {p : Place}
    {kind : Kind} :
    (p, kind) ∈ placesAt step shape? x ↔
      ∃ t q, shape? = some t ∧ p = step :: q ∧ (q, kind) ∈ places t x := by
  cases shape? with
  | none => simp [placesAt]
  | some t => simp [placesAt, under, eq_comm, and_comm]

/-- The places in the elements of an array begin with the indices of the elements. -/
theorem mem_placesElements_iff {s : Shape} {i : Nat} {xs : List Json} {p : Place} {kind : Kind} :
    (p, kind) ∈ placesElements s i xs ↔
      ∃ j x, xs[j]? = some x ∧ (p, kind) ∈ placesAt (.element (i + j)) (s.element? (i + j)) x := by
  induction xs generalizing i with
  | nil => simp [placesElements]
  | cons x xs ih =>
    have hhead : placesElements s i (x :: xs) =
        placesAt (.element i) (s.element? i) x ++ placesElements s (i + 1) xs := rfl
    rw [hhead, List.mem_append, ih]
    constructor
    · rintro (hp | ⟨j, y, hy, hp⟩)
      · exact ⟨0, x, rfl, hp⟩
      · exact ⟨j + 1, y, hy, by rwa [Nat.add_assoc, Nat.add_comm 1 j] at hp⟩
    · rintro ⟨_ | j, y, hy, hp⟩
      · cases hy
        exact .inl hp
      · exact .inr ⟨j, y, hy, by rwa [Nat.add_assoc, Nat.add_comm 1 j]⟩

/-- The places in the member of a key. -/
theorem member?_placesMembers (fields : List (String × Shape)) (members : List (String × Json))
    (key : String) :
    member? key (placesMembers fields members) =
      (member? key members).map (placesAt (.member key) (member? key fields)) := by
  induction members with
  | nil => rfl
  | cons m rest ih =>
    obtain ⟨k, x⟩ := m
    have hhead : placesMembers fields ((k, x) :: rest) =
        (k, placesAt (.member k) (member? k fields) x) :: placesMembers fields rest := rfl
    rw [hhead, member?, member?]
    by_cases hk : k = key
    · subst hk
      simp
    · rw [if_neg hk, if_neg hk, ih]

/-- The places in an object: its own, and those in the members that are used. -/
theorem places_obj (s : Shape) (members : List (String × Json)) :
    places s (.obj members) = root s ++ (s.used members).flatMap fun f =>
      ((member? f.1 members).map
        (placesAt (.member f.1) (member? f.1 (s.used members)))).getD [] := by
  rw [places]
  simp only [member?_placesMembers]

/-- The places in a value are its own, and past every step those in the part that the step leads
to. -/
theorem mem_places_iff_step {s : Shape} {v : Json} {p : Place} {kind : Kind} :
    (p, kind) ∈ places s v ↔ (p = [] ∧ s.root? = some kind) ∨
      ∃ step q t x, p = step :: q ∧ child? s v step = some (t, x) ∧ (q, kind) ∈ places t x := by
  cases v with
  | arr xs =>
    rw [places, List.mem_append, mem_root_iff, mem_placesElements_iff]
    refine or_congr_right ⟨?_, ?_⟩
    · rintro ⟨i, x, hx, hp⟩
      rw [Nat.zero_add] at hp
      obtain ⟨t, q, ht, rfl, hq⟩ := mem_placesAt_iff.1 hp
      exact ⟨_, q, t, x, rfl, child?_arr_eq_some_iff.2 ⟨i, rfl, ht, hx⟩, hq⟩
    · rintro ⟨step, q, t, x, rfl, hchild, hq⟩
      obtain ⟨i, rfl, ht, hx⟩ := child?_arr_eq_some_iff.1 hchild
      refine ⟨i, x, hx, ?_⟩
      rw [Nat.zero_add]
      exact mem_placesAt_iff.2 ⟨t, q, ht, rfl, hq⟩
  | obj members =>
    rw [places_obj, List.mem_append, mem_root_iff, List.mem_flatMap]
    refine or_congr_right ⟨?_, ?_⟩
    · rintro ⟨⟨key, _⟩, -, hp⟩
      dsimp only at hp
      cases hx : member? key members with
      | none => simp [hx] at hp
      | some x =>
        rw [hx] at hp
        obtain ⟨t, q, ht, rfl, hq⟩ := mem_placesAt_iff.1 hp
        exact ⟨_, q, t, x, rfl, child?_obj_eq_some_iff.2 ⟨key, rfl, ht, hx⟩, hq⟩
    · rintro ⟨step, q, t, x, rfl, hchild, hq⟩
      obtain ⟨key, rfl, ht, hx⟩ := child?_obj_eq_some_iff.1 hchild
      refine ⟨(key, t), mem_of_member? ht, ?_⟩
      dsimp only
      rw [hx]
      exact mem_placesAt_iff.2 ⟨t, q, ht, rfl, hq⟩
  | _ => simpa [places, child?] using mem_root_iff

/-- The places that are listed are those at which nodes stand. -/
theorem mem_places_iff {s : Shape} {v : Json} {p : Place} {kind : Kind} :
    (p, kind) ∈ places s v ↔ kindAt? s v p = some kind := by
  induction p generalizing s v with
  | nil =>
    rw [mem_places_iff_step]
    simp [kindAt?]
  | cons step p ih =>
    rw [mem_places_iff_step]
    simp [kindAt?, Option.bind_eq_some_iff, ih]

/-! ## The order of places -/

/-- Elements come from left to right, members by their keys. -/
def Step.Before : Step → Step → Prop
  | .element i, .element j => i < j
  | .member k, .member l => k < l
  | _, _ => False

instance : DecidableRel Step.Before
  | .element i, .element j => inferInstanceAs (Decidable (i < j))
  | .member k, .member l => inferInstanceAs (Decidable (k < l))
  | .element _, .member _ => isFalse id
  | .member _, .element _ => isFalse id

/-- Places come in the order of their first steps that differ, a value before its parts. -/
def Place.Before : Place → Place → Prop :=
  List.Lex Step.Before

end Json

namespace Shape

mutual

/-- Whether the members that an object uses are listed by their keys, also further down. -/
def isOrdered : Shape → Bool
  | .list element => element.isOrdered
  | .tuple components => areOrdered components
  | .record fields => decide (Json.Ascending fields) && membersOrdered fields
  | .dictionary value => value.isOrdered
  | _ => true

/-- Whether that is so for all components of a tuple. -/
def areOrdered : List Shape → Bool
  | [] => true
  | s :: ss => s.isOrdered && areOrdered ss

/-- Whether that is so for all members of a record. -/
def membersOrdered : List (String × Shape) → Bool
  | [] => true
  | (_, s) :: rest => s.isOrdered && membersOrdered rest

end

/-- A component of an ordered tuple is ordered. -/
theorem isOrdered_of_mem {ss : List Shape} (h : areOrdered ss = true) {s : Shape} (hs : s ∈ ss) :
    s.isOrdered = true := by
  induction ss with
  | nil => cases hs
  | cons s' ss ih =>
    rw [areOrdered, Bool.and_eq_true] at h
    rcases List.mem_cons.1 hs with rfl | hs
    · exact h.1
    · exact ih h.2 hs

/-- A member of an ordered record is ordered. -/
theorem isOrdered_of_mem_members {fields : List (String × Shape)}
    (h : membersOrdered fields = true) {f : String × Shape} (hf : f ∈ fields) :
    f.2.isOrdered = true := by
  induction fields with
  | nil => cases hf
  | cons f' fields ih =>
    rw [membersOrdered, Bool.and_eq_true] at h
    rcases List.mem_cons.1 hf with rfl | hf
    · exact h.1
    · exact ih h.2 hf

/-- The contents of nodes list their members by their keys. -/
theorem isOrdered_content {kind : Kind} {tag : String} {s : Shape}
    (h : Json.member? tag kind.contents = some (some s)) : s.isOrdered = true := by
  have hall : kind.contents.all fun m => m.2.all isOrdered := by cases kind <;> decide
  exact List.all_eq_true.1 hall _ (Json.mem_of_member? h)

/-- A node uses no members, or those that its tag asks for. -/
theorem used_node_cases (kind : Kind) (members : List (String × Json)) :
    (Shape.node kind).used members = [] ∨ ∃ tag content,
      Json.member? tag kind.contents = some content ∧
        (Shape.node kind).used members = nodeFields content := by
  simp only [used, fields?]
  split
  · next tag _ =>
    cases hcontent : Json.member? tag kind.contents with
    | none => exact .inl rfl
    | some content => exact .inr ⟨tag, content, hcontent, rfl⟩
  · exact .inl rfl

/-- The members that an object uses are listed by their keys. -/
theorem ascending_used {s : Shape} (hs : s.isOrdered = true) {members : List (String × Json)}
    (hmembers : Json.Ascending members) : Json.Ascending (s.used members) := by
  cases s with
  | record fields =>
    rw [isOrdered, Bool.and_eq_true, decide_eq_true_iff] at hs
    exact hs.1
  | dictionary value =>
    have hkeys : (members.map fun m => (m.1, value)).map Prod.fst = members.map Prod.fst := by
      rw [List.map_map]
      rfl
    exact Json.ascending_iff_keys.2 (hkeys ▸ Json.ascending_iff_keys.1 hmembers)
  | node kind =>
    rcases used_node_cases kind members with hused | ⟨_, content, -, hused⟩
    · rw [hused]
      exact .nil
    · rw [hused]
      cases content
      · exact List.pairwise_singleton _ _
      · exact List.pairwise_pair.2 (by change "c" < "t"; decide)
  | _ => exact .nil

/-- So are the members further down. -/
theorem isOrdered_of_mem_used {s : Shape} (hs : s.isOrdered = true)
    {members : List (String × Json)} {f : String × Shape} (hf : f ∈ s.used members) :
    f.2.isOrdered = true := by
  cases s with
  | record fields =>
    rw [isOrdered, Bool.and_eq_true] at hs
    exact isOrdered_of_mem_members hs.2 hf
  | dictionary value =>
    obtain ⟨m, -, rfl⟩ := List.mem_map.1 hf
    exact hs
  | node kind =>
    rcases used_node_cases kind members with hused | ⟨tag, content, hcontent, hused⟩
    · rw [hused] at hf
      cases hf
    · rw [hused] at hf
      cases content with
      | none =>
        obtain rfl := List.mem_singleton.1 hf
        rfl
      | some s =>
        rcases List.mem_pair.1 hf with rfl | rfl
        · exact isOrdered_content hcontent
        · rfl
  | _ => cases hf

/-- An element of an ordered array is ordered. -/
theorem isOrdered_of_element? {s t : Shape} (hs : s.isOrdered = true) {i : Nat}
    (ht : s.element? i = some t) : t.isOrdered = true := by
  cases s with
  | list element =>
    cases ht
    exact hs
  | tuple components => exact isOrdered_of_mem hs (List.mem_of_getElem? ht)
  | _ => cases ht

end Shape

namespace Json

/-- The places in a list are in order. -/
def InOrder (ps : List (Place × Kind)) : Prop :=
  ps.Pairwise fun a b => a.1.Before b.1

/-- The places in a part are in order if those of its value are. -/
theorem inOrder_placesAt {step : Step} {shape? : Option Shape} {x : Json}
    (h : ∀ t, shape? = some t → InOrder (places t x)) : InOrder (placesAt step shape? x) := by
  cases shape? with
  | none => exact .nil
  | some t => exact List.pairwise_map.2 ((h t rfl).imp .cons)

/-- The places in the elements of an array are in order if those of each element are. -/
theorem inOrder_placesElements {s : Shape} {i : Nat} {xs : List Json}
    (h : ∀ x ∈ xs, ∀ j t, s.element? j = some t → InOrder (places t x)) :
    InOrder (placesElements s i xs) := by
  induction xs generalizing i with
  | nil => exact .nil
  | cons x xs ih =>
    have hhead : placesElements s i (x :: xs) =
        placesAt (.element i) (s.element? i) x ++ placesElements s (i + 1) xs := rfl
    rw [hhead, InOrder, List.pairwise_append]
    refine ⟨inOrder_placesAt (h x List.mem_cons_self i),
      ih fun y hy => h y (List.mem_cons_of_mem x hy), ?_⟩
    rintro ⟨p, _⟩ hp ⟨q, _⟩ hq
    obtain ⟨_, p, -, rfl, -⟩ := mem_placesAt_iff.1 hp
    obtain ⟨j, _, -, hq⟩ := mem_placesElements_iff.1 hq
    obtain ⟨_, q, -, rfl, -⟩ := mem_placesAt_iff.1 hq
    have hlt : i < i + 1 + j := by omega
    exact .rel hlt

/-- The places of the parts of a value come after its own. -/
theorem inOrder_root_append {s : Shape} {ps : List (Place × Kind)} (hps : InOrder ps)
    (hne : ∀ a ∈ ps, a.1 ≠ []) : InOrder (root s ++ ps) := by
  refine List.pairwise_append.2 ⟨?_, hps, ?_⟩
  · unfold root
    cases s.root? with
    | none => exact .nil
    | some kind => exact List.pairwise_singleton _ _
  · rintro ⟨p, kind⟩ hp ⟨q, _⟩ hq
    obtain ⟨rfl, -⟩ := mem_root_iff.1 hp
    cases q with
    | nil => exact absurd rfl (hne _ hq)
    | cons step q => exact .nil

/-- All places are listed in order. -/
theorem inOrder_places {s : Shape} {v : Json} (hs : s.isOrdered = true) (hv : v.Valid) :
    InOrder (places s v) := by
  induction hn : sizeOf v using Nat.strongRecOn generalizing s v with
  | _ n ih =>
    subst hn
    cases v with
    | arr xs =>
      cases hv with
      | arr hv =>
        rw [places]
        refine inOrder_root_append (inOrder_placesElements fun x hx i t ht =>
          ih _ (sizeOf_lt_of_mem hx) (Shape.isOrdered_of_element? hs ht) (hv x hx) rfl) ?_
        rintro ⟨p, _⟩ hp rfl
        obtain ⟨_, _, -, hp⟩ := mem_placesElements_iff.1 hp
        obtain ⟨_, _, -, h, -⟩ := mem_placesAt_iff.1 hp
        cases h
    | obj members =>
      cases hv with
      | obj hkeys hv =>
        rw [places_obj]
        -- What is listed for a key begins with the step to its member.
        have hmem {f : String × Shape} {p : Place} {kind : Kind}
            (hp : (p, kind) ∈ ((member? f.1 members).map
              (placesAt (.member f.1) (member? f.1 (s.used members)))).getD []) :
            ∃ q, p = .member f.1 :: q := by
          cases hx : member? f.1 members with
          | none => simp [hx] at hp
          | some x =>
            rw [hx] at hp
            obtain ⟨_, q, -, rfl, -⟩ := mem_placesAt_iff.1 hp
            exact ⟨q, rfl⟩
        refine inOrder_root_append (List.pairwise_flatMap.2 ⟨fun f _ => ?_, ?_⟩) ?_
        · cases hx : member? f.1 members with
          | none => exact .nil
          | some x =>
            have hx' := mem_of_member? hx
            exact inOrder_placesAt fun t ht => ih _ (sizeOf_lt_of_mem_members hx')
              (Shape.isOrdered_of_mem_used hs (mem_of_member? ht)) (hv _ hx') rfl
        · refine (Shape.ascending_used hs hkeys).imp fun hlt => ?_
          rintro ⟨p, _⟩ hp ⟨q, _⟩ hq
          obtain ⟨p, rfl⟩ := hmem hp
          obtain ⟨q, rfl⟩ := hmem hq
          exact .rel hlt
        · rintro ⟨p, _⟩ hp rfl
          obtain ⟨f, -, hp⟩ := List.mem_flatMap.1 hp
          obtain ⟨q, hq⟩ := hmem hp
          cases hq
    | _ =>
      have happend := inOrder_root_append (s := s) .nil fun a ha => absurd ha List.not_mem_nil
      rwa [List.append_nil] at happend

/-! ## Patches -/

/-- What is to be put at some places. -/
abbrev Changes := Place → Option Json

/-- The changes past a step, seen from there. -/
def Changes.past (changes : Changes) (step : Step) : Changes :=
  fun p => changes (step :: p)

mutual

/-- A value with other values at some of its places.  What is put at a place replaces all that is
there, so changes further down are of no account. -/
def patched (changes : Changes) : Json → Json
  | .arr xs => (changes []).getD (.arr (patchedElements changes 0 xs))
  | .obj members => (changes []).getD (.obj (patchedMembers changes members))
  | v => (changes []).getD v
termination_by structural v => v

/-- The elements of an array with other values at some places, from some index on. -/
def patchedElements (changes : Changes) (i : Nat) : List Json → List Json
  | [] => []
  | x :: xs => patched (changes.past (.element i)) x :: patchedElements changes (i + 1) xs
termination_by structural xs => xs

/-- The members of an object with other values at some places. -/
def patchedMembers (changes : Changes) : List (String × Json) → List (String × Json)
  | [] => []
  | (key, x) :: rest =>
    (key, patched (changes.past (.member key)) x) :: patchedMembers changes rest
termination_by structural members => members

end

section Patched

variable {changes : Changes}

/-- What is put in the place of the whole is the whole. -/
theorem patched_of_root {x : Json} (h : changes [] = some x) (v : Json) :
    v.patched changes = x := by
  cases v <;> simp [patched, h]

/-- Other values in an array are values in its elements. -/
theorem patched_arr (h : changes [] = none) (xs : List Json) :
    (arr xs).patched changes = .arr (patchedElements changes 0 xs) := by
  rw [patched, h, Option.getD_none]

/-- Other values in an object are values in its members. -/
theorem patched_obj (h : changes [] = none) (members : List (String × Json)) :
    (obj members).patched changes = .obj (patchedMembers changes members) := by
  rw [patched, h, Option.getD_none]

/-- Other values in members leave their keys as they are. -/
theorem patchedMembers_eq_map (members : List (String × Json)) :
    patchedMembers changes members =
      members.map fun m => (m.1, m.2.patched (changes.past (.member m.1))) := by
  induction members with
  | nil => rfl
  | cons m rest ih => rw [patchedMembers, List.map_cons, ih]

/-- The value of a key after changes is the changed value of the key. -/
theorem member?_patchedMembers (key : String) (members : List (String × Json)) :
    member? key (patchedMembers changes members) =
      (member? key members).map (patched (changes.past (.member key))) := by
  induction members with
  | nil => rfl
  | cons m rest ih =>
    obtain ⟨k, x⟩ := m
    rw [patchedMembers, member?, member?]
    by_cases hk : k = key
    · subst hk
      simp
    · rw [if_neg hk, if_neg hk, ih]

mutual

/-- Where nothing is put anywhere, a value stays as it is. -/
theorem patched_none : (v : Json) → v.patched (fun _ => none) = v
  | .arr xs => by rw [patched_arr rfl, patchedElements_none 0 xs]
  | .obj members => by rw [patched_obj rfl, patchedMembers_none members]
  | .null => rfl
  | .bool _ => rfl
  | .num _ => rfl
  | .str _ => rfl

/-- So do the elements of an array. -/
theorem patchedElements_none (i : Nat) : (xs : List Json) →
    patchedElements (fun _ => none) i xs = xs
  | [] => rfl
  | x :: xs => congrArg₂ List.cons (patched_none x) (patchedElements_none (i + 1) xs)

/-- So do the members of an object. -/
theorem patchedMembers_none : (members : List (String × Json)) →
    patchedMembers (fun _ => none) members = members
  | [] => rfl
  | (key, x) :: rest =>
    congrArg₂ List.cons (congrArg (Prod.mk key) (patched_none x)) (patchedMembers_none rest)

end

end Patched

end Json

end Transclude
