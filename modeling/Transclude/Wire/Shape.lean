import Transclude.Json.Basic
import Transclude.Wire.ReadError

/-!
# Shapes of values

Taking a value apart as its place asks for.  The parts come with the fact that they are smaller
than the whole, which is what recursion over a value rests on.

Main results:

- Definitions {lit}`Json.elements`, {lit}`Json.pair`, {lit}`Json.triple`,
  {lit}`Json.quintuple`: arrays of any or of a fixed length.
- Definitions {lit}`Json.fields`, {lit}`Json.tagAndContent`: objects and nodes.
- Theorem {lit}`Json.sizeOf_lt_of_member?`: the value of a key is smaller than its object.
-/

namespace Transclude

/-- The outcome of reading. -/
abbrev Reading := Except ReadError

namespace Json

/-- A value smaller than another one, such as its elements and members are. -/
abbrev Part (v : Json) := {x : Json // sizeOf x < sizeOf v}

/-- An element is smaller than its array. -/
theorem sizeOf_lt_of_mem {x : Json} {xs : List Json} (h : x ∈ xs) :
    sizeOf x < sizeOf (arr xs) := by
  have := List.sizeOf_lt_of_mem h
  simp only [arr.sizeOf_spec]
  omega

/-- A member's value is smaller than its object. -/
theorem sizeOf_lt_of_mem_members {k : String} {x : Json} {members : List (String × Json)}
    (h : (k, x) ∈ members) : sizeOf x < sizeOf (obj members) := by
  have := List.sizeOf_lt_of_mem h
  simp only [obj.sizeOf_spec, Prod.mk.sizeOf_spec] at *
  omega

/-- A found member is one of the members. -/
theorem mem_of_member? {α : Type} {key : String} {x : α} {members : List (String × α)}
    (h : member? key members = some x) : (key, x) ∈ members := by
  induction members with
  | nil => simp [member?] at h
  | cons m rest ih =>
    rw [member?] at h
    split at h
    · next heq =>
      subst heq
      simp only [Option.some.injEq] at h
      simp [← h]
    · exact List.mem_cons_of_mem _ (ih h)

/-- The value of a key is smaller than its object. -/
theorem sizeOf_lt_of_member? {key : String} {x : Json} {members : List (String × Json)}
    (h : member? key members = some x) : sizeOf x < sizeOf (obj members) :=
  sizeOf_lt_of_mem_members (mem_of_member? h)

/-! ## Leaves -/

/-- A string. -/
def asString (place : String) : Json → Reading String
  | .str s => .ok s
  | _ => .error (.invalidType (.notString place))

/-- An integer of 64 bits. -/
def asInt (place : String) : Json → Reading Int64
  | .num (.int n) =>
    if -0x8000000000000000 ≤ n ∧ n < 0x8000000000000000 then .ok (Int64.ofInt n)
    else .error (.invalidType (.notInteger place))
  | _ => .error (.invalidType (.notInteger place))

/-- A number, an integer being rounded to the nearest double. -/
def asDouble (place : String) : Json → Reading Binary64
  | .num (.int n) => .ok (.ofInt n)
  | .num (.double x) => .ok x
  | _ => .error (.invalidType (.notNumber place))

/-- A truth value. -/
def asBool (place : String) : Json → Reading Bool
  | .bool b => .ok b
  | _ => .error (.invalidType (.notBoolean place))

/-- A natural number of 32 bits. -/
def asSmallNat (place : String) : Json → Reading UInt32
  | .num (.int n) =>
    if 0 ≤ n ∧ n < 0x100000000 then .ok (UInt32.ofNat n.toNat)
    else .error (.invalidType (.notSmallIntegers place))
  | _ => .error (.invalidType (.notSmallIntegers place))

/-! ## Arrays -/

/-- The elements of an array. -/
def elements (place : String) (v : Json) : Reading (List (Part v)) :=
  match v with
  | .arr xs => .ok (xs.attach.map fun x => ⟨x.1, sizeOf_lt_of_mem x.2⟩)
  | _ => .error (.invalidType (.notArray place))

/-- The error for an array of the wrong length, or for a value that is none. -/
def notTuple {α : Type} (place : String) (expected : Nat) : Json → Reading α
  | .arr xs => .error (.invalidType (.wrongLength place expected xs.length))
  | _ => .error (.invalidType (.notArray place))

/-- The two elements of a pair. -/
def pair (place : String) (v : Json) : Reading (Part v × Part v) :=
  match v with
  | .arr [a, b] => .ok (⟨a, sizeOf_lt_of_mem (by simp)⟩, ⟨b, sizeOf_lt_of_mem (by simp)⟩)
  | v => notTuple place 2 v

/-- The three elements of a triple. -/
def triple (place : String) (v : Json) : Reading (Part v × Part v × Part v) :=
  match v with
  | .arr [a, b, c] =>
    .ok (⟨a, sizeOf_lt_of_mem (by simp)⟩, ⟨b, sizeOf_lt_of_mem (by simp)⟩,
      ⟨c, sizeOf_lt_of_mem (by simp)⟩)
  | v => notTuple place 3 v

/-- The five elements of a quintuple. -/
def quintuple (place : String) (v : Json) :
    Reading (Part v × Part v × Part v × Part v × Part v) :=
  match v with
  | .arr [a, b, c, d, e] =>
    .ok (⟨a, sizeOf_lt_of_mem (by simp)⟩, ⟨b, sizeOf_lt_of_mem (by simp)⟩,
      ⟨c, sizeOf_lt_of_mem (by simp)⟩, ⟨d, sizeOf_lt_of_mem (by simp)⟩,
      ⟨e, sizeOf_lt_of_mem (by simp)⟩)
  | v => notTuple place 5 v

/-! ## Objects -/

/-- The members of an object, in key order. -/
def fields (place : String) (v : Json) : Reading (List (String × Part v)) :=
  match v with
  | .obj members =>
    .ok (members.attach.map fun m => (m.1.1, ⟨m.1.2, sizeOf_lt_of_mem_members m.2⟩))
  | _ => .error (.invalidType (.notObject place))

/-- The value of a key in an object. -/
def fieldOf? (members : List (String × Json)) (key : String) : Option (Part (obj members)) :=
  (member? key members).attach.map fun x => ⟨x.1, sizeOf_lt_of_member? x.2⟩

/-- A way to look up the keys of an object, each of which has to be there. -/
def object? (place : String) (v : Json) : Reading (String → Reading (Part v)) :=
  match v with
  | .obj members => .ok fun key =>
    match fieldOf? members key with
    | some x => .ok x
    | none => .error (.missingField key)
  | _ => .error (.invalidType (.notObject place))

/-- The tag of a node, and its content if there is any. -/
def tagAndContent (place : String) (v : Json) : Reading (String × Option (Part v)) :=
  match v with
  | .obj members =>
    match member? "t" members with
    | some (.str tag) => .ok (tag, fieldOf? members "c")
    | _ => .error (.missingField "t")
  | _ => .error (.invalidType (.notObject place))

/-- The content of a node that has to have one. -/
def required {v : Json} (tag : String) : Option (Part v) → Reading (Part v)
  | some x => .ok x
  | none => .error (.missingContent tag)

end Json

end Transclude
