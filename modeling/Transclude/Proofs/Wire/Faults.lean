import Transclude.Proofs.Wire.Forms
import Transclude.Proofs.Wire.Places

/-!
# Where reading fails

A reader goes through a value in a fixed order and fails at the first part that does not fit.  So
if nodes of a value that is read are spoiled, the reader fails as the reader of nodes does on the
first of them.  Here is one rule for every way in which a reader takes a value apart.

Main results:

- Definition {lit}`Kind.fault?`: the error of the reader of a kind of node.
- Definition {lit}`Json.Spoils`: changes that put at places of nodes what is not read there.
- Definition {lit}`Json.Reports`: a reader that fails for the first place that is spoiled.
- Theorem {lit}`Json.Spoils.exists_first`: of the places that are spoiled one comes first.
- Theorems {lit}`Json.Reports.list`, {lit}`Json.Reports.tuple`, {lit}`Json.Reports.member`,
  {lit}`Json.Reports.dictionary`: the rules for arrays and objects.
-/

namespace Transclude

/-! ## The first of a list -/

section First

variable {α β γ : Type}

/-- The first of a list is that of its head, or else that of its tail. -/
theorem findSome?_cons_or (f : α → Option β) (x : α) (xs : List α) :
    (x :: xs).findSome? f = (f x).or (xs.findSome? f) := by
  rw [List.findSome?_cons]
  cases f x <;> rfl

theorem findSome?_congr {f g : α → Option β} {xs : List α}
    (h : ∀ x ∈ xs, f x = g x) : xs.findSome? f = xs.findSome? g := by
  induction xs with
  | nil => rfl
  | cons x xs ih =>
    rw [List.findSome?_cons, List.findSome?_cons, h x List.mem_cons_self,
      ih fun y hy => h y (List.mem_cons_of_mem x hy)]

/-- The first of joined lists is that of the first list that has one. -/
theorem findSome?_flatMap (f : α → List β) (g : β → Option γ) (xs : List α) :
    (xs.flatMap f).findSome? g = xs.findSome? fun x => (f x).findSome? g := by
  induction xs with
  | nil => rfl
  | cons x xs ih =>
    rw [List.flatMap_cons, List.findSome?_append, ih, findSome?_cons_or]

end First

/-! ## Faults -/

namespace Reading

variable {α β : Type}

/-- The error of a reading that fails. -/
def fault? : Reading α → Option ReadError
  | .ok _ => none
  | .error e => some e

/-- A reading without an error has a result. -/
theorem fault?_eq_none_iff {x : Reading α} : x.fault? = none ↔ ∃ a, x = .ok a := by
  cases x <;> simp [fault?]

theorem fault?_eq_some_iff {x : Reading α} {e : ReadError} :
    x.fault? = some e ↔ x = .error e := by
  cases x <;> simp [fault?]

/-- What is made of a result adds no error. -/
theorem fault?_map (x : Reading α) (k : α → β) :
    fault? (x >>= fun a => pure (k a)) = x.fault? := by
  cases x <;> rfl

/-- If a reading fails, that decides; otherwise what comes next does, if that fails alike whatever
has been read. -/
theorem fault?_bind {x : Reading α} {f : α → Reading β} {fault : Option ReadError}
    (h : ∀ a, (f a).fault? = fault) : fault? (x >>= f) = x.fault?.or fault := by
  cases x with
  | error e => rfl
  | ok a => exact h a

/-- Reading one element after the other fails as the first that fails. -/
theorem fault?_mapM (f : α → Reading β) (xs : List α) :
    fault? (xs.mapM f) = xs.findSome? fun x => (f x).fault? := by
  induction xs with
  | nil => rfl
  | cons x xs ih =>
    rw [List.mapM_cons, findSome?_cons_or, ← ih]
    exact fault?_bind fun _ => fault?_map _ _

end Reading

open Reading

/-- The error that the reader of a kind of node gives.  Choices have no reader of their own. -/
def Kind.fault? : Kind → Json → Option ReadError
  | .block, v => (Block.ofJson v).fault?
  | .inline, v => (Inline.ofJson v).fault?
  | .metaValue, v => (MetaValue.ofJson v).fault?
  | _, _ => none

namespace Json

/-! ## Spoiled nodes -/

/-- The error for what is put at a place of a node. -/
def faultAt (changes : Changes) (place : Place × Kind) : Option ReadError :=
  (changes place.1).bind place.2.fault?

/-- Changes spoil a value if all of them are at places of nodes, and the readers of these nodes
give errors. -/
def Spoils (s : Shape) (v : Json) (changes : Changes) : Prop :=
  ∀ p x, changes p = some x → ∃ kind e, kindAt? s v p = some kind ∧ kind.fault? x = some e

section Spoils

variable {s t : Shape} {v x : Json} {changes : Changes} {step : Step}

/-- Nothing is put where no node stands. -/
theorem Spoils.eq_none (h : Spoils s v changes) {p : Place} (hp : kindAt? s v p = none) :
    changes p = none := by
  cases hx : changes p with
  | none => rfl
  | some x =>
    obtain ⟨kind, _, hkind, _⟩ := h p x hx
    rw [hp] at hkind
    cases hkind

/-- Past a step, the changes spoil the part that the step leads to. -/
theorem Spoils.past (h : Spoils s v changes) (hchild : child? s v step = some (t, x)) :
    Spoils t x (changes.past step) := by
  intro p y hy
  obtain ⟨kind, e, hkind, he⟩ := h (step :: p) y hy
  rw [kindAt?, hchild] at hkind
  exact ⟨kind, e, hkind, he⟩

/-- What is spoiled first in a part, seen from the whole and from the part. -/
theorem findSome?_placesAt (step : Step) (t : Shape) (x : Json) :
    (placesAt step (some t) x).findSome? (faultAt changes) =
      (places t x).findSome? (faultAt (changes.past step)) := by
  rw [placesAt, List.findSome?_map]
  rfl

/-- Where no node stands, nothing is spoiled. -/
theorem Spoils.patched_eq (h : Spoils s v changes) (hs : ∀ p, kindAt? s v p = none) :
    v.patched changes = v := by
  have hnone : changes = fun _ => none := funext fun p => h.eq_none (hs p)
  rw [hnone, patched_none]

/-- Changes that spoil a value are none if neither the value itself nor a part of it is spoiled. -/
theorem Spoils.eq_nowhere (h : Spoils s v changes) (hroot : changes [] = none)
    (hs : ∀ step t x, child? s v step = some (t, x) → ∀ p, kindAt? t x p = none) :
    changes = fun _ => none := by
  funext p
  cases p with
  | nil => exact hroot
  | cons step p =>
    apply h.eq_none
    cases hchild : child? s v step with
    | none => rw [kindAt?, hchild, Option.bind_none]
    | some part =>
      rw [kindAt?, hchild, Option.bind_some]
      exact hs _ _ _ hchild p

/-- Of the places that are spoiled one comes before all others, and it is the one that is found
first. -/
theorem Spoils.exists_first (h : Spoils s v changes) (hs : s.isOrdered = true) (hv : v.Valid)
    {q : Place} {y : Json} (hq : changes q = some y) :
    ∃ p x kind e, changes p = some x ∧ kindAt? s v p = some kind ∧ kind.fault? x = some e ∧
      (∀ q y, changes q = some y → q = p ∨ p.Before q) ∧
      (places s v).findSome? (faultAt changes) = some e := by
  obtain ⟨e, he⟩ : ∃ e, (places s v).findSome? (faultAt changes) = some e := by
    obtain ⟨kind, e, hkind, he⟩ := h q y hq
    refine Option.ne_none_iff_exists'.1 fun hnone => ?_
    have hfault := List.findSome?_eq_none_iff.1 hnone (q, kind) (mem_places_iff.2 hkind)
    rw [faultAt, hq, Option.bind_some, he] at hfault
    cases hfault
  obtain ⟨front, ⟨p, kind⟩, back, hplaces, hp, hfront⟩ := List.findSome?_eq_some_iff.1 he
  obtain ⟨x, hx, hxe⟩ := Option.bind_eq_some_iff.1 hp
  have hkind : kindAt? s v p = some kind := by
    rw [← mem_places_iff, hplaces]
    exact List.mem_append_right _ List.mem_cons_self
  refine ⟨p, x, kind, e, hx, hkind, hxe, fun q y hq => ?_, he⟩
  obtain ⟨kind', e', hkind', he'⟩ := h q y hq
  have hmem := mem_places_iff.2 hkind'
  rw [hplaces] at hmem
  rcases List.mem_append.1 hmem with hmem | hmem
  · have hnone := hfront _ hmem
    rw [faultAt, hq, Option.bind_some, he'] at hnone
    cases hnone
  · rcases List.mem_cons.1 hmem with heq | hmem
    · cases heq
      exact .inl rfl
    · have horder := inOrder_places hs hv
      rw [hplaces] at horder
      have hback := (List.pairwise_append.1 horder).2.1
      exact .inr (List.rel_of_pairwise_cons hback hmem)

/-- Where nothing is changed, nothing is spoiled. -/
theorem findSome?_faultAt_none (ps : List (Place × Kind)) :
    ps.findSome? (faultAt fun _ => none) = none :=
  List.findSome?_eq_none_iff.2 fun _ _ => rfl

/-- Where no node stands, no places are listed. -/
theorem places_eq_nil (hs : ∀ p, kindAt? s v p = none) : places s v = [] := by
  refine List.eq_nil_iff_forall_not_mem.2 fun ⟨p, kind⟩ hp => ?_
  rw [mem_places_iff, hs p] at hp
  cases hp

end Spoils

/-! ## Reports -/

/-- A reader in a place, given by its errors, reports what is spoiled in a value up to some size:
if it reads the value, then after any spoiling it fails for the first place that is spoiled. -/
def Reports (n : Nat) (s : Shape) (f : Json → Option ReadError) : Prop :=
  ∀ v, sizeOf v < n → v.Valid → f v = none → ∀ changes, Spoils s v changes →
    f (v.patched changes) = (places s v).findSome? (faultAt changes)

end Json

namespace Shape

mutual

/-- Whether no node of the tree of a document stands in a place, as far as that is told without
looking at the members of objects. -/
def isBarren : Shape → Bool
  | .list element => element.isBarren
  | .tuple components => areBarren components
  | .record _ => false
  | .dictionary _ => false
  | .node kind => !kind.inTree
  | _ => true

/-- Whether that is so for all components of a tuple. -/
def areBarren : List Shape → Bool
  | [] => true
  | s :: ss => s.isBarren && areBarren ss

end

/-- A component of a tuple without nodes has none. -/
theorem isBarren_of_mem {ss : List Shape} (h : areBarren ss = true) {s : Shape} (hs : s ∈ ss) :
    s.isBarren = true := by
  induction ss with
  | nil => cases hs
  | cons s' ss ih =>
    rw [areBarren, Bool.and_eq_true] at h
    rcases List.mem_cons.1 hs with rfl | hs
    · exact h.1
    · exact ih h.2 hs

end Shape

/-- The tags of choices ask for no content. -/
theorem Kind.content_eq_none {kind : Kind} (h : kind.inTree = false) {tag : String}
    {content : Option Shape} (hcontent : Json.member? tag kind.contents = some content) :
    content = none := by
  have hall : ∀ m ∈ kind.contents, m.2 = none := by
    cases kind <;> simp [inTree, contents] at h ⊢
  exact hall _ (Json.mem_of_member? hcontent)

namespace Json

/-- Of a choice the tag alone is used. -/
theorem used_choice {kind : Kind} (h : kind.inTree = false) (members : List (String × Json)) :
    (Shape.node kind).used members = [] ∨ (Shape.node kind).used members = [("t", .text)] := by
  rcases Shape.used_node_cases kind members with hused | ⟨_, _, hcontent, hused⟩
  · exact .inl hused
  · rw [Kind.content_eq_none h hcontent] at hused
    exact .inr hused

/-- Parts of what is barren are barren. -/
theorem isBarren_of_child? {s t : Shape} {v x : Json} {step : Step} (hs : s.isBarren = true)
    (hchild : child? s v step = some (t, x)) : t.isBarren = true := by
  cases v with
  | arr xs =>
    obtain ⟨i, rfl, ht, -⟩ := child?_arr_eq_some_iff.1 hchild
    cases s with
    | list element =>
      cases ht
      exact hs
    | tuple components => exact Shape.isBarren_of_mem hs (List.mem_of_getElem? ht)
    | _ => cases ht
  | obj members =>
    obtain ⟨key, rfl, ht, -⟩ := child?_obj_eq_some_iff.1 hchild
    cases s with
    | node kind =>
      rcases used_choice (by simpa [Shape.isBarren] using hs) members with hused | hused
      · rw [hused] at ht
        cases ht
      · rw [hused] at ht
        cases List.mem_singleton.1 (mem_of_member? ht)
        rfl
    | record | dictionary => cases hs
    | _ => cases ht
  | _ => cases hchild

/-- No node stands anywhere in what is barren. -/
theorem kindAt?_of_isBarren {s : Shape} (hs : s.isBarren = true) (v : Json) (p : Place) :
    kindAt? s v p = none := by
  induction p generalizing s v with
  | nil =>
    cases s with
    | node kind => simpa [kindAt?, Shape.root?, Shape.isBarren] using hs
    | _ => rfl
  | cons step p ih =>
    cases hchild : child? s v step with
    | none => rw [kindAt?, hchild, Option.bind_none]
    | some part =>
      rw [kindAt?, hchild, Option.bind_some]
      exact ih (isBarren_of_child? hs hchild) _

/-! ## Arrays -/

/-- The first error in an array, the elements of which are read one after the other. -/
def faultsFrom (f : Nat → Json → Option ReadError) (i : Nat) : List Json → Option ReadError
  | [] => none
  | x :: xs => (f i x).or (faultsFrom f (i + 1) xs)

/-- An array without errors has none at any index. -/
theorem eq_none_of_faultsFrom {f : Nat → Json → Option ReadError} {i : Nat} {xs : List Json}
    (h : faultsFrom f i xs = none) {j : Nat} {x : Json} (hx : xs[j]? = some x) :
    f (i + j) x = none := by
  induction xs generalizing i j with
  | nil => cases hx
  | cons y xs ih =>
    obtain ⟨hy, hxs⟩ := Option.or_eq_none_iff.1 h
    cases j with
    | zero =>
      cases hx
      exact hy
    | succ j =>
      rw [← Nat.add_assoc, Nat.add_right_comm]
      exact ih hxs hx

/-- Where the index does not matter, the first error is that of the first element that has one. -/
theorem faultsFrom_eq_findSome? (f : Json → Option ReadError) (i : Nat) (xs : List Json) :
    faultsFrom (fun _ => f) i xs = xs.findSome? f := by
  induction xs generalizing i with
  | nil => rfl
  | cons x xs ih =>
    rw [faultsFrom, ih, findSome?_cons_or]

/-- Other values at some places leave an array as long as it is. -/
theorem length_patchedElements (changes : Changes) (i : Nat) (xs : List Json) :
    (patchedElements changes i xs).length = xs.length := by
  induction xs generalizing i with
  | nil => rfl
  | cons x xs ih => rw [patchedElements, List.length_cons, ih, List.length_cons]

/-- The first error in an array with other values at some places, if that of every element is the
one for the first of these places. -/
theorem faultsFrom_patchedElements {f : Nat → Json → Option ReadError} {s : Shape}
    {changes : Changes} {i : Nat} {xs : List Json}
    (h : ∀ j x, xs[j]? = some x → ∃ t, s.element? (i + j) = some t ∧
      f (i + j) (x.patched (changes.past (.element (i + j)))) =
        (places t x).findSome? (faultAt (changes.past (.element (i + j))))) :
    faultsFrom f i (patchedElements changes i xs) =
      (placesElements s i xs).findSome? (faultAt changes) := by
  induction xs generalizing i with
  | nil => rfl
  | cons x xs ih =>
    obtain ⟨t, ht, hx⟩ := h 0 x rfl
    have hxs := ih fun j y hy => by
      rw [Nat.add_assoc, Nat.add_comm 1 j]
      exact h (j + 1) y hy
    have hplaces : placesElements s i (x :: xs) =
        placesAt (.element i) (some t) x ++ placesElements s (i + 1) xs := by
      rw [← ht]
      rfl
    rw [hplaces, List.findSome?_append, findSome?_placesAt, ← hxs]
    exact congrArg (Option.or · _) hx

namespace Reports

variable {n : Nat} {s t r : Shape} {f g : Json → Option ReadError}

/-- Readers with the same errors report the same. -/
theorem congr (h : Reports n s f) (hg : ∀ v, g v = f v) : Reports n s g := by
  rwa [show g = f from funext hg]

/-- Where no node stands, there is nothing to report. -/
theorem barren (hs : s.isBarren = true) (f : Json → Option ReadError) : Reports n s f := by
  intro v _ _ hv changes hspoils
  have hnone := kindAt?_of_isBarren hs v
  rw [hspoils.patched_eq hnone, hv, places_eq_nil hnone, List.findSome?_nil]

/-- A reader of arrays reports what is spoiled if the readers of the elements do. -/
theorem array {f : Nat → Json → Option ReadError} (hroot : s.root? = none)
    (hparts : ∀ i t, s.element? i = some t → Reports n t (f i))
    (hg : ∀ v, g v = none → ∃ xs, v = .arr xs ∧ (∀ i < xs.length, ∃ t, s.element? i = some t) ∧
      ∀ ys : List Json, ys.length = xs.length → g (.arr ys) = faultsFrom f 0 ys) :
    Reports n s g := by
  intro v hsize hvalid hv changes hspoils
  obtain ⟨xs, rfl, hshapes, hfaults⟩ := hg v hv
  have hchanges : changes [] = none := hspoils.eq_none hroot
  have hplaces : places s (.arr xs) = placesElements s 0 xs := by
    rw [places, root, hroot]
    rfl
  rw [patched_arr hchanges, hfaults _ (length_patchedElements changes 0 xs), hplaces]
  apply faultsFrom_patchedElements
  intro j x hx
  rw [Nat.zero_add]
  obtain ⟨t, ht⟩ := hshapes j (List.getElem?_eq_some_iff.1 hx).1
  have hmem : x ∈ xs := List.mem_of_getElem? hx
  have hnone : f j x = none := by
    rw [hfaults xs rfl] at hv
    simpa using eq_none_of_faultsFrom hv hx
  have hvalid : x.Valid := by
    cases hvalid with
    | arr h => exact h x hmem
  exact ⟨t, ht, hparts j t ht x (Nat.lt_trans (sizeOf_lt_of_mem hmem) hsize) hvalid hnone _
    (hspoils.past (child?_arr_eq_some_iff.2 ⟨j, rfl, ht, hx⟩))⟩

/-- A reader of tuples reports what is spoiled if the readers of the components do. -/
theorem tuple {ss : List Shape} {fs : List (Json → Option ReadError)}
    (hparts : List.Forall₂ (Reports n) ss fs)
    (hg : ∀ v, g v = none → ∃ xs, v = .arr xs ∧ xs.length = ss.length)
    (hfaults : ∀ xs : List Json, xs.length = ss.length →
      g (.arr xs) = faultsFrom (fun i => fs[i]?.getD fun _ => none) 0 xs) :
    Reports n (.tuple ss) g := by
  apply array (f := fun i => fs[i]?.getD fun _ => none) rfl
  · intro i t ht
    obtain ⟨hi, rfl⟩ := List.getElem?_eq_some_iff.1 ht
    have hi' : i < fs.length := hparts.length_eq ▸ hi
    rw [List.getElem?_eq_getElem hi', Option.getD_some]
    exact hparts.get hi hi'
  · intro v hv
    obtain ⟨xs, rfl, hlength⟩ := hg v hv
    exact ⟨xs, rfl, fun i hi => ⟨_, List.getElem?_eq_getElem (hlength ▸ hi)⟩,
      fun ys hys => hfaults ys (hys.trans hlength)⟩

section Readers

variable {α β γ δ ε ζ : Type} {u w : Shape} {A : Json → Reading α} {B : Json → Reading β}
  {C : Json → Reading γ} {D : Json → Reading δ} {E : Json → Reading ε}

/-- Reading fails alike whatever is made of the result. -/
theorem map (h : Reports n s fun v => (A v).fault?) (k : α → β) :
    Reports n s fun v => fault? (do return k (← A v)) :=
  h.congr fun v => fault?_map (A v) k

/-- Reading the elements of an array fails as the first that fails. -/
theorem fault?_elements (place : String) (A : Json → Reading α) (ys : List Json) :
    fault? (do (← (arr ys).elements place).mapM fun (x : Part (arr ys)) => A x.1) =
      ys.findSome? fun y => (A y).fault? := by
  have hparts (parts : List (Part (arr ys))) (hval : parts.map Subtype.val = ys) :
      fault? (parts.mapM fun x => A x.1) = ys.findSome? fun y => (A y).fault? := by
    have hmap : (parts.map Subtype.val).findSome? (fun y => (A y).fault?) =
        parts.findSome? fun x => (A x.1).fault? := List.findSome?_map
    rw [fault?_mapM, ← hmap, hval]
  refine hparts _ ?_
  rw [List.map_map]
  exact List.attach_map_subtype_val ys

/-- A list is read element by element. -/
theorem list (place : String) (h : Reports n s fun x => (A x).fault?) :
    Reports n (.list s) fun v =>
      fault? (do (← v.elements place).mapM fun (x : Part v) => A x.1) := by
  apply array (f := fun _ x => (A x).fault?) rfl
  · rintro _ _ ⟨⟩
    exact h
  · intro v hv
    cases v with
    | arr xs =>
      refine ⟨xs, rfl, fun i _ => ⟨s, rfl⟩, fun ys _ => ?_⟩
      rw [fault?_elements, faultsFrom_eq_findSome?]
    | _ => cases hv

/-- A pair is read from left to right. -/
theorem pair (place : String) (k : α → β → γ) (hA : Reports n s fun x => (A x).fault?)
    (hB : Reports n t fun x => (B x).fault?) :
    Reports n (.tuple [s, t]) fun v => fault? (do
      let p ← v.pair place
      return k (← A p.1.1) (← B p.2.1)) := by
  apply tuple (.cons hA (.cons hB .nil))
  · rintro (_ | _ | _ | _ | (_ | ⟨a, _ | ⟨b, _ | ⟨c, xs⟩⟩⟩) | _) hv <;> try cases hv
    exact ⟨_, rfl, rfl⟩
  · rintro (_ | ⟨a, _ | ⟨b, _ | ⟨c, xs⟩⟩⟩) hxs <;> try cases hxs
    rw [faultsFrom, faultsFrom, faultsFrom, Option.or_none]
    change fault? (A a >>= fun x => B b >>= fun y => pure (k x y)) =
      (A a).fault?.or (B b).fault?
    exact fault?_bind fun _ => fault?_map _ _

/-- A triple is read from left to right. -/
theorem triple (place : String) (k : α → β → γ → δ) (hA : Reports n s fun x => (A x).fault?)
    (hB : Reports n t fun x => (B x).fault?) (hC : Reports n r fun x => (C x).fault?) :
    Reports n (.tuple [s, t, r]) fun v => fault? (do
      let p ← v.triple place
      return k (← A p.1.1) (← B p.2.1.1) (← C p.2.2.1)) := by
  apply tuple (.cons hA (.cons hB (.cons hC .nil)))
  · rintro (_ | _ | _ | _ | (_ | ⟨a, _ | ⟨b, _ | ⟨c, _ | ⟨d, xs⟩⟩⟩⟩) | _) hv <;> try cases hv
    exact ⟨_, rfl, rfl⟩
  · rintro (_ | ⟨a, _ | ⟨b, _ | ⟨c, _ | ⟨d, xs⟩⟩⟩⟩) hxs <;> try cases hxs
    rw [faultsFrom, faultsFrom, faultsFrom, faultsFrom, Option.or_none]
    change fault? (A a >>= fun x => B b >>= fun y => C c >>= fun z => pure (k x y z)) =
      (A a).fault?.or ((B b).fault?.or (C c).fault?)
    exact fault?_bind fun _ => fault?_bind fun _ => fault?_map _ _

/-- A quintuple is read from left to right. -/
theorem quintuple (place : String) (k : α → β → γ → δ → ε → ζ)
    (hA : Reports n s fun x => (A x).fault?) (hB : Reports n t fun x => (B x).fault?)
    (hC : Reports n r fun x => (C x).fault?) (hD : Reports n u fun x => (D x).fault?)
    (hE : Reports n w fun x => (E x).fault?) :
    Reports n (.tuple [s, t, r, u, w]) fun v => fault? (do
      let p ← v.quintuple place
      return k (← A p.1.1) (← B p.2.1.1) (← C p.2.2.1.1) (← D p.2.2.2.1.1)
        (← E p.2.2.2.2.1)) := by
  apply tuple (.cons hA (.cons hB (.cons hC (.cons hD (.cons hE .nil)))))
  · rintro (_ | _ | _ | _ | (_ | ⟨a, _ | ⟨b, _ | ⟨c, _ | ⟨d, _ | ⟨e, _ | ⟨f, xs⟩⟩⟩⟩⟩⟩) | _) hv <;>
      try cases hv
    exact ⟨_, rfl, rfl⟩
  · rintro (_ | ⟨a, _ | ⟨b, _ | ⟨c, _ | ⟨d, _ | ⟨e, _ | ⟨f, xs⟩⟩⟩⟩⟩⟩) hxs <;> try cases hxs
    rw [faultsFrom, faultsFrom, faultsFrom, faultsFrom, faultsFrom, faultsFrom, Option.or_none]
    change fault? (A a >>= fun x => B b >>= fun y => C c >>= fun z => D d >>= fun x' =>
        E e >>= fun y' => pure (k x y z x' y')) =
      (A a).fault?.or ((B b).fault?.or ((C c).fault?.or ((D d).fault?.or (E e).fault?)))
    exact fault?_bind fun _ => fault?_bind fun _ => fault?_bind fun _ => fault?_bind fun _ =>
      fault?_map _ _

end Readers

end Reports

/-! ## Objects -/

/-- The error for the first place that is spoiled in the member of a key, if there is one. -/
def memberFault (changes : Changes) (fields : List (String × Shape))
    (members : List (String × Json)) (key : String) : Option ReadError :=
  (((member? key members).map (placesAt (.member key) (member? key fields))).getD []).findSome?
    (faultAt changes)

section Members

variable {s t : Shape} {x : Json} {changes : Changes} {fields : List (String × Shape)}
  {members : List (String × Json)} {key : String}

/-- What is spoiled first in a member that is there is what is spoiled first in its value. -/
theorem memberFault_eq (ht : member? key fields = some t) (hx : member? key members = some x) :
    memberFault changes fields members key =
      (places t x).findSome? (faultAt (changes.past (.member key))) := by
  rw [memberFault, hx, Option.map_some, Option.getD_some, ht, findSome?_placesAt]

/-- What is spoiled first in an object, if not the object itself, is in the first of its members
in which something is spoiled. -/
theorem findSome?_places_obj (hroot : changes [] = none) (s : Shape)
    (members : List (String × Json)) :
    (places s (.obj members)).findSome? (faultAt changes) =
      (s.used members).findSome? fun f => memberFault changes (s.used members) members f.1 := by
  have hnone : (root s).findSome? (faultAt changes) = none := by
    rw [List.findSome?_eq_none_iff]
    rintro ⟨p, kind⟩ hp
    obtain ⟨rfl, -⟩ := mem_root_iff.1 hp
    simp only [faultAt, hroot, Option.bind_none]
  rw [places_obj, List.findSome?_append, hnone, Option.none_or, findSome?_flatMap]
  rfl

/-- A reader of a member reports what is spoiled in it. -/
theorem Reports.member {n : Nat} {f : Json → Option ReadError} (h : Reports n t f)
    (ht : member? key (s.used members) = some t) (hx : member? key members = some x)
    (hsize : sizeOf (obj members) < n + 1) (hvalid : (obj members).Valid) (hnone : f x = none)
    (hspoils : Spoils s (.obj members) changes) :
    f (x.patched (changes.past (.member key))) =
      memberFault changes (s.used members) members key := by
  rw [memberFault_eq ht hx]
  have hmem : (key, x) ∈ members := mem_of_member? hx
  have hvalid : x.Valid := by
    cases hvalid with
    | obj _ h => exact h _ hmem
  refine h x ?_ hvalid hnone _ (hspoils.past (child?_obj_eq_some_iff.2 ⟨key, rfl, ht, hx⟩))
  exact Nat.lt_of_lt_of_le (sizeOf_lt_of_mem_members hmem) (Nat.le_of_lt_succ hsize)

/-- The value of a key after changes is the changed value. -/
theorem member?_patchedMembers_of_some (hx : member? key members = some x) :
    member? key (patchedMembers changes members) =
      some (x.patched (changes.past (.member key))) := by
  rw [member?_patchedMembers, hx, Option.map_some]

/-- Where no node stands in a member, it stays as it is. -/
theorem Spoils.member?_eq (h : Spoils s (.obj members) changes)
    (ht : member? key (s.used members) = some t) (hbarren : t.isBarren = true) :
    member? key (patchedMembers changes members) = member? key members := by
  rw [member?_patchedMembers]
  cases hx : member? key members with
  | none => rfl
  | some x =>
    have hchild := child?_obj_eq_some_iff.2 ⟨key, rfl, ht, hx⟩
    rw [Option.map_some, (h.past hchild).patched_eq (kindAt?_of_isBarren hbarren x)]

/-- Nothing is spoiled in a member in which no node stands. -/
theorem memberFault_of_isBarren (ht : member? key fields = some t) (hbarren : t.isBarren = true) :
    memberFault changes fields members key = none := by
  cases hx : member? key members with
  | none =>
    rw [memberFault, hx]
    rfl
  | some x =>
    rw [memberFault_eq ht hx, places_eq_nil (kindAt?_of_isBarren hbarren x), List.findSome?_nil]

/-- The members of an object can be looked up. -/
theorem object?_obj (place : String) (members : List (String × Json)) :
    (obj members).object? place =
      .ok fun key => ((obj members).field? key).elim (.error (.missingField key)) .ok :=
  object?_eq_ok_iff.2 ⟨⟨members, rfl, fun _ h => by cases h⟩, rfl⟩

/-- A member that is asked for and is there is found. -/
theorem elim_field?_of_member? (e : ReadError) (hx : member? key members = some x) :
    ((obj members).field? key).elim (.error e) Except.ok = .ok ⟨x, sizeOf_lt_of_member? hx⟩ :=
  elim_field?_eq_ok_iff.2 (fieldOf?_eq_some_iff.2 hx)

end Members

/-- Reading the members of an object fails as the first that fails. -/
theorem fault?_fields {α : Type} (place : String) (A : Json → Reading α)
    (members : List (String × Json)) :
    fault? (do
      (← (obj members).fields place).mapM fun (m : String × Part (obj members)) => do
        return (m.1, ← A m.2.1)) =
      members.findSome? fun m => (A m.2).fault? := by
  have hparts (parts : List (String × Part (obj members)))
      (hval : parts.map (fun m => (m.1, m.2.1)) = members) :
      fault? (parts.mapM fun m => do return (m.1, ← A m.2.1)) =
        members.findSome? fun m => (A m.2).fault? := by
    have hmap : (parts.map fun m => (m.1, m.2.1)).findSome? (fun m => (A m.2).fault?) =
        parts.findSome? fun m => (A m.2.1).fault? := List.findSome?_map
    rw [hval] at hmap
    rw [fault?_mapM, hmap]
    exact findSome?_congr fun m _ => fault?_map _ _
  refine hparts _ ?_
  rw [List.map_map]
  exact List.attach_map_subtype_val members

namespace Reports

variable {n : Nat} {s : Shape}

/-- A dictionary is read entry by entry, in the order of the keys. -/
theorem dictionary (place : String) {α : Type} {A : Json → Reading α}
    (h : Reports n s fun x => (A x).fault?) :
    Reports n (.dictionary s) fun v => fault? (do
      (← v.fields place).mapM fun (m : String × Part v) => do return (m.1, ← A m.2.1)) := by
  intro v hsize hvalid hv changes hspoils
  cases v with
  | obj members =>
    have hkeys : Ascending members := by
      cases hvalid with
      | obj hkeys _ => exact hkeys
    have hused : (Shape.dictionary s).used members = members.map fun m => (m.1, s) := rfl
    have hshapes : Ascending (members.map fun m => (m.1, s)) := by
      rw [ascending_iff_keys, List.map_map]
      exact ascending_iff_keys.1 hkeys
    have hroot : changes [] = none := hspoils.eq_none rfl
    beta_reduce at hv ⊢
    rw [fault?_fields, List.findSome?_eq_none_iff] at hv
    rw [patched_obj hroot, fault?_fields, patchedMembers_eq_map, findSome?_places_obj hroot, hused,
      List.findSome?_map, List.findSome?_map]
    refine findSome?_congr fun m hm => ?_
    exact h.member (s := .dictionary s) (hshapes.member?_eq_some_iff.2 (List.mem_map_of_mem hm))
      (hkeys.member?_eq_some_iff.2 hm) (Nat.lt_succ_of_lt hsize) hvalid (hv m hm) hspoils
  | _ => cases hv

end Reports

end Json

end Transclude
