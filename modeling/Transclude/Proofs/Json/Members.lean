import Mathlib.Data.List.Perm.Basic
import Mathlib.Data.List.Pairwise
import Transclude.Wire.Shape

/-!
# Members in ascending order

A list of members with ascending keys is known by what it gives for each key.

Main results:

- Theorem {lit}`Json.Ascending.member?_eq_some_iff`: a key gives the value that it stands with.
- Theorem {lit}`Json.Ascending.ext`: two lists that give the same for every key are equal.
- Theorem {lit}`Json.canonical_of_ascending`: ascending members are canonical already.
-/

namespace Transclude.Json

variable {α : Type}

/-! ## Looking up keys -/

/-- The keys decide whether members ascend. -/
theorem ascending_iff_keys {members : List (String × α)} :
    Ascending members ↔ (members.map Prod.fst).Pairwise (· < ·) :=
  List.pairwise_map.symm

instance (members : List (String × α)) : Decidable (Ascending members) :=
  decidable_of_iff _ ascending_iff_keys.symm

/-- A key smaller than all others is not among them. -/
theorem member?_eq_none_of_lt {key : String} {members : List (String × α)}
    (h : ∀ m ∈ members, key < m.1) : member? key members = none := by
  cases hkey : member? key members with
  | none => rfl
  | some x => exact absurd (h _ (mem_of_member? hkey)) (String.lt_irrefl key)

/-- A key gives nothing exactly when it is no key of a member. -/
theorem member?_eq_none_iff {key : String} {members : List (String × α)} :
    member? key members = none ↔ key ∉ members.map Prod.fst := by
  induction members with
  | nil => simp [member?]
  | cons m rest ih =>
    obtain ⟨k, x⟩ := m
    rw [member?, List.map_cons, List.mem_cons]
    by_cases hk : k = key
    · simp [hk]
    · simp [hk, Ne.symm hk, ih]

/-- Among ascending members a key gives the value that it stands with. -/
theorem Ascending.member?_eq_some_iff {members : List (String × α)} (h : Ascending members)
    {key : String} {x : α} : member? key members = some x ↔ (key, x) ∈ members := by
  refine ⟨mem_of_member?, fun hmem => ?_⟩
  induction members with
  | nil => cases hmem
  | cons m rest ih =>
    obtain ⟨hhead, hrest⟩ := List.pairwise_cons.1 h
    rw [member?]
    rcases List.mem_cons.1 hmem with rfl | htail
    · exact if_pos rfl
    · have hlt : m.1 < key := hhead _ htail
      have hne : m.1 ≠ key := fun heq => absurd (heq ▸ hlt) (String.lt_irrefl key)
      exact (if_neg hne).trans (ih hrest htail)

/-- Ascending members are distinct. -/
theorem Ascending.nodup {members : List (String × α)} (h : Ascending members) :
    members.Nodup := by
  refine List.Pairwise.imp (fun {a b} hlt heq => ?_) h
  rw [heq] at hlt
  exact String.lt_irrefl _ hlt

/-- Ascending members that give the same for every key are the same. -/
theorem Ascending.ext {xs ys : List (String × α)} (hx : Ascending xs) (hy : Ascending ys)
    (h : ∀ key, member? key xs = member? key ys) : xs = ys := by
  have hperm : xs.Perm ys := by
    rw [List.perm_ext_iff_of_nodup hx.nodup hy.nodup]
    intro m
    obtain ⟨key, x⟩ := m
    rw [← hx.member?_eq_some_iff, ← hy.member?_eq_some_iff, h]
  refine hperm.eq_of_pairwise (fun a b _ _ hab hba => ?_) hx hy
  exact absurd (String.lt_trans hab hba) (String.lt_irrefl a.1)

/-! ## Building objects -/

/-- A key greater than all others is inserted at the end. -/
theorem insertMember_of_lt {key : String} {x : α} {members : List (String × α)}
    (h : ∀ m ∈ members, m.1 < key) : insertMember key x members = members ++ [(key, x)] := by
  induction members with
  | nil => rfl
  | cons m rest ih =>
    obtain ⟨k, y⟩ := m
    have hlt : k < key := h _ List.mem_cons_self
    have hnlt : ¬ key < k := fun h' => String.lt_irrefl key (String.lt_trans h' hlt)
    have hne : key ≠ k := fun h' => String.lt_irrefl key (h' ▸ hlt)
    rw [insertMember, if_neg hnlt, if_neg hne, ih fun m hm => h m (List.mem_cons_of_mem _ hm)]
    rfl

/-- Inserting a member adds nothing else. -/
theorem mem_of_mem_insertMember {key : String} {x : α} {members : List (String × α)}
    {m : String × α} (h : m ∈ insertMember key x members) : m = (key, x) ∨ m ∈ members := by
  induction members with
  | nil => exact Or.inl (List.mem_singleton.1 h)
  | cons m' rest ih =>
    obtain ⟨k, y⟩ := m'
    rw [insertMember] at h
    split at h
    · exact List.mem_cons.1 h
    · split at h
      · rcases List.mem_cons.1 h with h | h
        · exact Or.inl h
        · exact Or.inr (List.mem_cons_of_mem _ h)
      · rcases List.mem_cons.1 h with rfl | h
        · exact Or.inr List.mem_cons_self
        · rcases ih h with h | h
          · exact Or.inl h
          · exact Or.inr (List.mem_cons_of_mem _ h)

/-- A built object has no members but those it is built of. -/
theorem mem_of_mem_canonical {members : List (String × α)} {m : String × α}
    (h : m ∈ canonical members) : m ∈ members := by
  suffices ∀ sorted : List (String × α),
      m ∈ members.foldl (fun sorted m => insertMember m.1 m.2 sorted) sorted →
      m ∈ sorted ∨ m ∈ members by
    rcases this [] h with h | h
    · cases h
    · exact h
  clear h
  induction members with
  | nil => exact fun sorted h => Or.inl h
  | cons m' rest ih =>
    intro sorted h
    rcases ih _ h with h | h
    · rcases mem_of_mem_insertMember h with rfl | h
      · exact Or.inr List.mem_cons_self
      · exact Or.inl h
    · exact Or.inr (List.mem_cons_of_mem _ h)

/-- Ascending members are canonical already. -/
theorem canonical_of_ascending {members : List (String × α)} (h : Ascending members) :
    canonical members = members := by
  suffices ∀ sorted : List (String × α), Ascending (sorted ++ members) →
      members.foldl (fun sorted m => insertMember m.1 m.2 sorted) sorted = sorted ++ members from
    this [] h
  clear h
  induction members with
  | nil =>
    intro sorted _
    exact (List.append_nil sorted).symm
  | cons m rest ih =>
    intro sorted hasc
    have hlt : ∀ a ∈ sorted, a.1 < m.1 := fun a ha =>
      (List.pairwise_append.1 hasc).2.2 a ha m List.mem_cons_self
    rw [List.append_cons] at hasc ⊢
    rw [List.foldl_cons, insertMember_of_lt hlt, ih _ hasc]

end Transclude.Json
