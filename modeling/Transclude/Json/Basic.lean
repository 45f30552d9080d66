import Transclude.Number.Binary64

/-!
# JSON values

The values of the data format, with objects kept in one canonical form: their keys ascend by
code point and no key occurs twice.

Main results:

- Theorem {lit}`keys_insertMember`: inserting a member adds its key and no other.
- Theorem {lit}`ascending_insertMember`: inserting a member keeps the keys ascending.
- Theorem {lit}`ascending_canonical`: the members of a built object have ascending keys.
-/

namespace Transclude

/-- A number is an integer as long as it is written as one and fits 64 bits. -/
inductive Number where
  | int (n : Int)
  | double (x : Binary64)
  deriving DecidableEq, Repr, Inhabited

/-- A value; {lit}`Json.object` builds the objects. -/
inductive Json where
  | null
  | bool (b : Bool)
  | num (n : Number)
  | str (s : String)
  | arr (elements : List Json)
  | obj (members : List (String × Json))
  deriving Inhabited

namespace Json

/-! ## Members in key order -/

/-- Insert a member in front of the first greater key; a member of the same key is replaced. -/
def insertMember {α : Type} (key : String) (value : α) :
    List (String × α) → List (String × α)
  | [] => [(key, value)]
  | (k, v) :: rest =>
    if key < k then (key, value) :: (k, v) :: rest
    else if key = k then (key, value) :: rest
    else (k, v) :: insertMember key value rest

/-- The members in key order, the last one of each key. -/
def canonical {α : Type} (members : List (String × α)) : List (String × α) :=
  members.foldl (fun sorted m => insertMember m.1 m.2 sorted) []

/-- The object with the given members, of which the last one of each key counts. -/
def object (members : List (String × Json)) : Json :=
  .obj (canonical members)

/-- The value of a key. -/
def member? {α : Type} (key : String) : List (String × α) → Option α
  | [] => none
  | (k, v) :: rest => if k = key then some v else member? key rest

/-- Each key is less than all later ones. -/
def Ascending {α : Type} (members : List (String × α)) : Prop :=
  members.Pairwise fun a b => a.1 < b.1

/-- Inserting a member adds its key and no other. -/
theorem keys_insertMember {α : Type} (key : String) (value : α) (members : List (String × α))
    (k : String) :
    k ∈ (insertMember key value members).map Prod.fst ↔
      k = key ∨ k ∈ members.map Prod.fst := by
  induction members with
  | nil => simp [insertMember]
  | cons m rest ih =>
    obtain ⟨k', v⟩ := m
    rw [insertMember]
    split
    · simp
    · split
      · next h => subst h; simp
      · simp only [List.map_cons, List.mem_cons, ih]
        constructor <;> rintro (h | h | h) <;> simp [h]

/-- Inserting a member keeps the keys ascending. -/
theorem ascending_insertMember {α : Type} (key : String) (value : α)
    {members : List (String × α)} (h : Ascending members) :
    Ascending (insertMember key value members) := by
  induction members with
  | nil => simp [insertMember, Ascending]
  | cons m rest ih =>
    obtain ⟨k, v⟩ := m
    obtain ⟨hk, hrest⟩ := List.pairwise_cons.1 h
    rw [insertMember]
    split
    · next hlt =>
      refine List.pairwise_cons.2 ⟨fun b hb => ?_, h⟩
      rcases List.mem_cons.1 hb with rfl | hb
      · exact hlt
      · exact String.lt_trans hlt (hk b hb)
    · next hnlt =>
      split
      · next heq =>
        subst heq
        exact List.pairwise_cons.2 ⟨hk, hrest⟩
      · next hne =>
        refine List.pairwise_cons.2 ⟨fun b hb => ?_, ih hrest⟩
        have hmem : b.1 ∈ (insertMember key value rest).map Prod.fst :=
          List.mem_map.2 ⟨b, hb, rfl⟩
        rcases (keys_insertMember key value rest b.1).1 hmem with hb | hb
        · show k < b.1
          rw [hb]
          exact Decidable.byContradiction fun hnot =>
            hne (String.le_antisymm (String.not_lt.1 hnot) (String.not_lt.1 hnlt))
        · obtain ⟨c, hc, hcb⟩ := List.mem_map.1 hb
          exact hcb ▸ hk c hc

/-- The members of a built object have ascending keys. -/
theorem ascending_canonical {α : Type} (members : List (String × α)) :
    Ascending (canonical members) := by
  suffices ∀ sorted : List (String × α), Ascending sorted →
      Ascending (members.foldl (fun sorted m => insertMember m.1 m.2 sorted) sorted) from
    this [] List.Pairwise.nil
  induction members with
  | nil => exact fun _ h => h
  | cons m rest ih => exact fun sorted h => ih _ (ascending_insertMember m.1 m.2 h)

end Json

end Transclude
