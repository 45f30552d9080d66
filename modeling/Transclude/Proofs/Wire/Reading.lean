import Transclude.Proofs.Wire.Recognition
import Transclude.Wire.Shape

/-!
# When a step of reading succeeds

A reader takes a value apart step by step.  Each kind of step succeeds on the values of one kind,
and it hands on the parts that make up such a value.

Main results:

- Theorems {lit}`Reading.bind_eq_ok_iff`, {lit}`Reading.mapM_eq_ok_iff`: a sequence of steps
  succeeds when each of them does.
- Theorems {lit}`Json.exists_elements_iff`, {lit}`Json.exists_pair_iff`,
  {lit}`Json.exists_triple_iff`, {lit}`Json.exists_quintuple_iff`: arrays are taken apart into
  their elements.
- Theorems {lit}`Json.tagAndContent_eq_ok_iff`, {lit}`Json.object?_eq_ok_iff`: nodes and objects
  are taken apart into their members.
-/

namespace Transclude

/-! ## Steps of a reader -/

namespace Reading

variable {α β : Type}

/-- A step that succeeds hands its result on. -/
theorem ok_bind (a : α) (f : α → Reading β) : (Except.ok a >>= f) = f a :=
  rfl

/-- A sequence succeeds when both of its steps do. -/
theorem bind_eq_ok_iff {x : Reading α} {f : α → Reading β} {b : β} :
    (x >>= f) = .ok b ↔ ∃ a, x = .ok a ∧ f a = .ok b := by
  cases x with
  | error e => simp [bind, Except.bind]
  | ok a => simp [ok_bind]

/-- Doing nothing gives what it is told to. -/
theorem pure_eq_ok_iff {a b : α} : (pure a : Reading α) = .ok b ↔ a = b :=
  ⟨Except.ok.inj, congrArg _⟩

/-- Reading one element after the other succeeds when reading each of them does. -/
theorem mapM_eq_ok_iff {f : α → Reading β} {xs : List α} {ys : List β} :
    xs.mapM f = .ok ys ↔ List.Forall₂ (fun y x => f x = .ok y) ys xs := by
  induction xs generalizing ys with
  | nil => cases ys <;> simp [pure_eq_ok_iff]
  | cons x xs ih =>
    simp only [List.mapM_cons, bind_eq_ok_iff, pure_eq_ok_iff, ih]
    cases ys with
    | nil => simp
    | cons y ys => simp

end Reading

open Reading

namespace Json

variable {v : Json} {place : String}

/-! ## Leaves -/

/-- A string is read from itself. -/
theorem asString_eq_ok_iff {text : String} : v.asString place = .ok text ↔ v = .str text := by
  cases v <;> simp [asString]

/-- A truth value is read from itself. -/
theorem asBool_eq_ok_iff {b : Bool} : v.asBool place = .ok b ↔ v = .bool b := by
  cases v <;> simp [asBool]

/-- An integer of 64 bits is read from itself, not from a larger one and not from a double. -/
theorem asInt_eq_ok_iff {n : Int64} : v.asInt place = .ok n ↔ v = .int n := by
  cases v with
  | num k =>
    cases k with
    | int k =>
      simp only [asInt, Json.int, num.injEq, Number.int.injEq]
      constructor
      · intro h
        split at h
        · next hk =>
          rw [← Except.ok.inj h, Int64.toInt_ofInt_of_le hk.1 hk.2]
        · cases h
      · rintro rfl
        rw [if_pos ⟨n.le_toInt, n.toInt_lt⟩, Int64.ofInt_toInt]
    | double x => simp [asInt, Json.int]
  | _ => simp [asInt, Json.int]

/-- A natural number of 32 bits is read from itself. -/
theorem asSmallNat_eq_ok_iff {n : UInt32} :
    v.asSmallNat place = .ok n ↔ v = .num (.int n.toNat) := by
  cases v with
  | num k =>
    cases k with
    | int k =>
      simp only [asSmallNat, num.injEq, Number.int.injEq]
      constructor
      · intro h
        split at h
        · next hk =>
          rw [← Except.ok.inj h, UInt32.toNat_ofNat']
          omega
        · cases h
      · rintro rfl
        have hlt := n.toNat_lt
        rw [if_pos (by omega), Int.toNat_natCast, UInt32.ofNat_toNat]
    | double x => simp [asSmallNat]
  | _ => simp [asSmallNat]

/-- A width is read from any number. -/
theorem asDouble_eq_ok_iff {x : Binary64} :
    v.asDouble place = .ok x ↔ ∃ n, v = .num n ∧ n.toDouble = x := by
  cases v with
  | num n => cases n <;> simp [asDouble, Number.toDouble]
  | _ => simp [asDouble]

/-! ## Arrays

The parts that a value is taken apart into come with a bound on their size, which says nothing
once they are known to be parts. -/

/-- An array is read element by element. -/
theorem elements_mapM_eq_ok_iff (place : String) {α : Type} {f : Json → Reading α} {as : List α} :
    (do (← v.elements place).mapM fun (x : Part v) => f x.1) = .ok as ↔
      IsList (fun a x => f x = .ok a) as v := by
  rw [bind_eq_ok_iff]
  cases v with
  | arr xs =>
    have hmapM : ∀ ys : List (Part (arr xs)), ys.map Subtype.val = xs →
        (ys.mapM (fun x => f x.1) = .ok as ↔ IsList (fun a x => f x = .ok a) as (arr xs)) := by
      intro ys hys
      simp only [IsList, arr.injEq, exists_eq_left', mapM_eq_ok_iff, ← hys,
        List.forall₂_map_right_iff]
    simp only [elements, Except.ok.injEq, exists_eq_left']
    refine hmapM _ ?_
    rw [List.map_map]
    exact List.attach_map_subtype_val xs
  | _ => simp [elements, IsList]

/-- An array is read element by element, and then reading goes on. -/
theorem exists_elements_iff {α : Type} {f : Json → Reading α} {Q : List α → Prop} :
    (∃ xs, v.elements place = .ok xs ∧
      ∃ as, xs.mapM (fun (x : Part v) => f x.1) = .ok as ∧ Q as) ↔
      ∃ as, IsList (fun a x => f x = .ok a) as v ∧ Q as := by
  simp only [← elements_mapM_eq_ok_iff place, bind_eq_ok_iff]
  constructor
  · rintro ⟨xs, hxs, as, has, hQ⟩
    exact ⟨as, ⟨xs, hxs, has⟩, hQ⟩
  · rintro ⟨as, ⟨xs, hxs, has⟩, hQ⟩
    exact ⟨xs, hxs, as, has, hQ⟩

/-- A pair is read from an array of two elements. -/
theorem exists_pair_iff {Q : Json → Json → Prop} :
    (∃ a, ∃ (ha : sizeOf a < sizeOf v), ∃ b, ∃ (hb : sizeOf b < sizeOf v),
      v.pair place = .ok (⟨a, ha⟩, ⟨b, hb⟩) ∧ Q a b) ↔
      ∃ a b, v = .arr [a, b] ∧ Q a b := by
  constructor
  · rintro ⟨a, ha, b, hb, h, hQ⟩
    unfold pair at h
    split at h
    · cases h
      exact ⟨a, b, rfl, hQ⟩
    · unfold notTuple at h
      split at h <;> cases h
  · rintro ⟨a, b, rfl, hQ⟩
    exact ⟨a, sizeOf_lt_of_mem (by simp), b, sizeOf_lt_of_mem (by simp), rfl, hQ⟩

/-- A triple is read from an array of three elements. -/
theorem exists_triple_iff {Q : Json → Json → Json → Prop} :
    (∃ a, ∃ (ha : sizeOf a < sizeOf v), ∃ b, ∃ (hb : sizeOf b < sizeOf v),
      ∃ c, ∃ (hc : sizeOf c < sizeOf v),
      v.triple place = .ok (⟨a, ha⟩, ⟨b, hb⟩, ⟨c, hc⟩) ∧ Q a b c) ↔
      ∃ a b c, v = .arr [a, b, c] ∧ Q a b c := by
  constructor
  · rintro ⟨a, ha, b, hb, c, hc, h, hQ⟩
    unfold triple at h
    split at h
    · cases h
      exact ⟨a, b, c, rfl, hQ⟩
    · unfold notTuple at h
      split at h <;> cases h
  · rintro ⟨a, b, c, rfl, hQ⟩
    exact ⟨a, sizeOf_lt_of_mem (by simp), b, sizeOf_lt_of_mem (by simp), c,
      sizeOf_lt_of_mem (by simp), rfl, hQ⟩

/-- A quintuple is read from an array of five elements. -/
theorem exists_quintuple_iff {Q : Json → Json → Json → Json → Json → Prop} :
    (∃ a, ∃ (ha : sizeOf a < sizeOf v), ∃ b, ∃ (hb : sizeOf b < sizeOf v),
      ∃ c, ∃ (hc : sizeOf c < sizeOf v), ∃ d, ∃ (hd : sizeOf d < sizeOf v),
      ∃ e, ∃ (he : sizeOf e < sizeOf v),
      v.quintuple place = .ok (⟨a, ha⟩, ⟨b, hb⟩, ⟨c, hc⟩, ⟨d, hd⟩, ⟨e, he⟩) ∧ Q a b c d e) ↔
      ∃ a b c d e, v = .arr [a, b, c, d, e] ∧ Q a b c d e := by
  constructor
  · rintro ⟨a, ha, b, hb, c, hc, d, hd, e, he, h, hQ⟩
    unfold quintuple at h
    split at h
    · cases h
      exact ⟨a, b, c, d, e, rfl, hQ⟩
    · unfold notTuple at h
      split at h <;> cases h
  · rintro ⟨a, b, c, d, e, rfl, hQ⟩
    exact ⟨a, sizeOf_lt_of_mem (by simp), b, sizeOf_lt_of_mem (by simp), c,
      sizeOf_lt_of_mem (by simp), d, sizeOf_lt_of_mem (by simp), e,
      sizeOf_lt_of_mem (by simp), rfl, hQ⟩

/-- A tuple of two, element by element. -/
theorem isTuple_pair_iff {R S : Json → Prop} :
    IsTuple [R, S] v ↔ ∃ a b, v = .arr [a, b] ∧ R a ∧ S b := by
  constructor
  · rintro ⟨xs, rfl, _ | ⟨ha, _ | ⟨hb, _ | _⟩⟩⟩
    exact ⟨_, _, rfl, ha, hb⟩
  · rintro ⟨a, b, rfl, ha, hb⟩
    exact ⟨_, rfl, .cons ha (.cons hb .nil)⟩

/-- A tuple of three, element by element. -/
theorem isTuple_triple_iff {R S T : Json → Prop} :
    IsTuple [R, S, T] v ↔ ∃ a b c, v = .arr [a, b, c] ∧ R a ∧ S b ∧ T c := by
  constructor
  · rintro ⟨xs, rfl, _ | ⟨ha, _ | ⟨hb, _ | ⟨hc, _ | _⟩⟩⟩⟩
    exact ⟨_, _, _, rfl, ha, hb, hc⟩
  · rintro ⟨a, b, c, rfl, ha, hb, hc⟩
    exact ⟨_, rfl, .cons ha (.cons hb (.cons hc .nil))⟩

/-- A tuple of five, element by element. -/
theorem isTuple_quintuple_iff {R S T U V : Json → Prop} :
    IsTuple [R, S, T, U, V] v ↔
      ∃ a b c d e, v = .arr [a, b, c, d, e] ∧ R a ∧ S b ∧ T c ∧ U d ∧ V e := by
  constructor
  · rintro ⟨xs, rfl, _ | ⟨ha, _ | ⟨hb, _ | ⟨hc, _ | ⟨hd, _ | ⟨he, _ | _⟩⟩⟩⟩⟩⟩
    exact ⟨_, _, _, _, _, rfl, ha, hb, hc, hd, he⟩
  · rintro ⟨a, b, c, d, e, rfl, ha, hb, hc, hd, he⟩
    exact ⟨_, rfl, .cons ha (.cons hb (.cons hc (.cons hd (.cons he .nil))))⟩

/-! ## Objects -/

/-- A key is found with its value. -/
theorem fieldOf?_eq_some_iff {members : List (String × Json)} {key : String}
    {x : Part (obj members)} :
    fieldOf? members key = some x ↔ member? key members = some x.1 := by
  obtain ⟨x, hx⟩ := x
  simp only [fieldOf?, Option.map_eq_some_iff, Subtype.mk.injEq]
  constructor
  · rintro ⟨⟨a, ha⟩, -, rfl⟩
    exact ha
  · intro h
    exact ⟨⟨x, h⟩, Option.mem_attach _ _, rfl⟩

/-- The value of a key, if this is an object that has it. -/
def field? : (v : Json) → String → Option (Part v)
  | .obj members, key => fieldOf? members key
  | _, _ => none

/-- An object has a certain member if the key is found and its value is as asked for. -/
theorem isRecord_cons_iff {key : String} {R : Json → Prop} {Rs : List (String × (Json → Prop))} :
    IsRecord ((key, R) :: Rs) v ↔
      (∃ x, v.field? key = some x ∧ R x.1) ∧ IsRecord Rs v := by
  cases v with
  | obj members =>
    simp only [IsRecord, obj.injEq, exists_eq_left', List.forall_mem_cons, field?,
      fieldOf?_eq_some_iff]
    refine and_congr_left' ⟨?_, ?_⟩
    · rintro ⟨x, hx, hR⟩
      exact ⟨⟨x, sizeOf_lt_of_member? hx⟩, hx, hR⟩
    · rintro ⟨x, hx, hR⟩
      exact ⟨x.1, hx, hR⟩
  | _ => simp [IsRecord]

/-- Members may be looked up in objects. -/
theorem object?_eq_ok_iff {field : String → Reading (Part v)} :
    v.object? place = .ok field ↔
      IsRecord [] v ∧ field = fun key => (v.field? key).elim (.error (.missingField key)) .ok := by
  cases v with
  | obj members =>
    have hobject : (obj members).object? place = .ok fun key =>
        ((obj members).field? key).elim (.error (.missingField key)) .ok := by
      apply congrArg Except.ok
      ext key
      rw [field?]
      cases fieldOf? members key <;> rfl
    simp only [hobject, Except.ok.injEq, IsRecord, List.not_mem_nil, false_implies,
      implies_true, and_true, obj.injEq, exists_eq', true_and]
    exact eq_comm
  | _ => simp [object?, IsRecord]

/-- An object is read member by member, in the order in which the members stand. -/
theorem fields_mapM_eq_ok_iff (place : String) {α : Type} {f : Json → Reading α}
    {entries : List (String × α)} :
    (do (← v.fields place).mapM fun (m : String × Part v) => do
      return (m.1, ← f m.2.1)) = .ok entries ↔
      IsDictionary (fun a x => f x = .ok a) entries v := by
  rw [bind_eq_ok_iff]
  cases v with
  | obj members =>
    have hmapM : ∀ ms : List (String × Part (obj members)),
        ms.map (fun m => (m.1, m.2.1)) = members →
        ((ms.mapM fun m => do return (m.1, ← f m.2.1)) = .ok entries ↔
          IsDictionary (fun a x => f x = .ok a) entries (obj members)) := by
      intro ms hms
      have hentry : ∀ (e : String × α) (m : String × Part (obj members)),
          (do return (m.1, ← f m.2.1) : Reading (String × α)) = .ok e ↔
            e.1 = m.1 ∧ f m.2.1 = .ok e.2 := by
        rintro ⟨key, a⟩ m
        simp only [bind_eq_ok_iff, pure_eq_ok_iff, Prod.mk.injEq]
        constructor
        · rintro ⟨b, hb, hkey, rfl⟩
          exact ⟨hkey.symm, hb⟩
        · rintro ⟨hkey, ha⟩
          exact ⟨a, ha, hkey.symm, rfl⟩
      simp only [IsDictionary, obj.injEq, exists_eq_left', mapM_eq_ok_iff, hentry, ← hms,
        List.forall₂_map_right_iff]
    simp only [fields, Except.ok.injEq, exists_eq_left']
    refine hmapM _ ?_
    rw [List.map_map]
    exact List.attach_map_subtype_val members
  | _ => simp [fields, IsDictionary]

/-- A key that has to be there is found. -/
theorem elim_field?_eq_ok_iff {content : Option (Part v)} {e : ReadError} {x : Part v} :
    content.elim (.error e) Except.ok = .ok x ↔ content = some x := by
  cases content <;> simp

/-- A node is read as its tag and its content. -/
theorem tagAndContent_eq_ok_iff {tag : String} {content : Option (Part v)} :
    v.tagAndContent place = .ok (tag, content) ↔ IsTagged tag v ∧ content = v.field? "c" := by
  cases v with
  | obj members =>
    have htagged : IsTagged tag (obj members) ↔ member? "t" members = some (.str tag) := by
      simp [IsTagged, IsRecord]
    rw [htagged, tagAndContent]
    split
    · next tag' h => simp [h, field?, eq_comm]
    · next h =>
      constructor
      · intro h'
        cases h'
      · rintro ⟨htag, -⟩
        exact absurd htag (h tag)
  | _ => simp [tagAndContent, IsTagged, IsRecord]

/-- A content that has to be there is found. -/
theorem required_eq_ok_iff {tag : String} {content : Option (Part v)} {c : Part v} :
    required tag content = .ok c ↔ content = some c := by
  cases content <;> simp [required]

/-- A node with a content is tagged, and its content is as asked for. -/
theorem isNode_iff {tag : String} {R : Json → Prop} :
    IsNode tag R v ↔ IsTagged tag v ∧ ∃ c, v.field? "c" = some c ∧ R c.1 :=
  isRecord_cons_iff.trans and_comm

end Json

end Transclude
