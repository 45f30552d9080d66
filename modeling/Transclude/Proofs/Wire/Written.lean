import Transclude.Proofs.Wire.Grammar

/-!
# Written values and misfits

A value is written in a place if it is what a writer that follows the grammar puts there: all
members that are used and no others, and a double for a width that is finite.  A value does not
fit its place if somewhere in it an integer, a length, a tag or a member is not as the grammar
asks for.

Main results:

- Definitions {lit}`Json.Written`, {lit}`Json.Misfits`: the two notions.
- Theorem {lit}`Json.Written.normal_eq`: a written value is normal.
- Theorem {lit}`Json.Written.valid`: a written value is one of the values that there are.
- Theorem {lit}`Json.Misfits.not_written`: a value that does not fit has no normal form that is
  written.
-/

namespace Transclude.Json

/-! ## Written values -/

/-- What is written in a place. -/
inductive Written : Shape → Json → Prop where
  | text (s : String) : Written .text (.str s)
  | truth (b : Bool) : Written .truth (.bool b)
  | integer (n : Int64) : Written .integer (.int n)
  | small (n : UInt32) : Written .small (.num (.int n.toNat))
  | width (x : Binary64) : Written .width x.toJson
  | list {s : Shape} {xs : List Json} (h : ∀ x ∈ xs, Written s x) : Written (.list s) (.arr xs)
  | tuple {ss : List Shape} {xs : List Json} (hlength : ss.length = xs.length)
    (h : ∀ p ∈ ss.zip xs, Written p.1 p.2) : Written (.tuple ss) (.arr xs)
  | record {fields : List (String × Shape)} {members : List (String × Json)}
    (hfields : Ascending fields) (hkeys : fields.map Prod.fst = members.map Prod.fst)
    (h : ∀ p ∈ fields.zip members, Written p.1.2 p.2.2) : Written (.record fields) (.obj members)
  | dictionary {s : Shape} {members : List (String × Json)} (hmembers : Ascending members)
    (h : ∀ m ∈ members, Written s m.2) : Written (.dictionary s) (.obj members)
  | node {kind : Kind} {tag : String} {content : Option Shape} {members : List (String × Json)}
    (htag : member? tag kind.contents = some content)
    (hmember : member? "t" members = some (.str tag))
    (h : Written (.record (Shape.nodeFields content)) (.obj members)) :
    Written (.node kind) (.obj members)

/-- What is found under the same key in two lists with the same keys stands in the same place. -/
theorem mem_zip_of_member? {α β : Type} {xs : List (String × α)} {ys : List (String × β)}
    (hkeys : xs.map Prod.fst = ys.map Prod.fst) {key : String} {a : α} {b : β}
    (ha : member? key xs = some a) (hb : member? key ys = some b) :
    ((key, a), (key, b)) ∈ xs.zip ys := by
  induction xs generalizing ys with
  | nil => cases ha
  | cons x xs ih =>
    cases ys with
    | nil => cases hb
    | cons y ys =>
      obtain ⟨k, a'⟩ := x
      obtain ⟨k', b'⟩ := y
      obtain ⟨rfl, hrest⟩ : k = k' ∧ xs.map Prod.fst = ys.map Prod.fst := by
        simpa using hkeys
      rw [List.zip_cons_cons, List.mem_cons]
      by_cases hk : k = key
      · subst hk
        simp only [member?, if_pos, Option.some.injEq] at ha hb
        exact Or.inl (by rw [ha, hb])
      · simp only [member?, if_neg hk] at ha hb
        exact Or.inr (ih hrest ha hb)

/-- Two lists with the same keys have them at the same places. -/
theorem fst_eq_of_mem_zip {α β : Type} {xs : List (String × α)} {ys : List (String × β)}
    (hkeys : xs.map Prod.fst = ys.map Prod.fst) {x : String × α} {y : String × β}
    (h : (x, y) ∈ xs.zip ys) : x.1 = y.1 := by
  induction xs generalizing ys with
  | nil => cases h
  | cons x' xs ih =>
    cases ys with
    | nil => cases h
    | cons y' ys =>
      obtain ⟨hhead, hrest⟩ : x'.1 = y'.1 ∧ xs.map Prod.fst = ys.map Prod.fst := by
        simpa using hkeys
      rcases List.mem_cons.1 h with heq | h
      · obtain ⟨rfl, rfl⟩ := Prod.mk.inj heq
        exact hhead
      · exact ih hrest h

/-- Every element of a tuple stands in one of its places. -/
theorem exists_mem_zip {α β : Type} {xs : List α} {ys : List β} (h : xs.length = ys.length)
    {y : β} (hy : y ∈ ys) : ∃ x, (x, y) ∈ xs.zip ys := by
  rw [← List.map_snd_zip (Nat.le_of_eq h.symm)] at hy
  obtain ⟨⟨x, _⟩, hp, rfl⟩ := List.mem_map.1 hy
  exact ⟨x, hp⟩

/-! ## Written values are normal -/

/-- A list whose elements are normal is normal. -/
theorem normalList_eq_self {s : Shape} {xs : List Json} (h : ∀ x ∈ xs, normal s x = x) :
    normalList s xs = xs := by
  induction xs with
  | nil => rfl
  | cons x xs ih =>
    obtain ⟨hx, hxs⟩ := List.forall_mem_cons.1 h
    rw [normalList, hx, ih hxs]

/-- A tuple whose components are normal is normal. -/
theorem normalTuple_eq_self {ss : List Shape} {xs : List Json}
    (h : ∀ p ∈ ss.zip xs, normal p.1 p.2 = p.2) : normalTuple ss xs = xs := by
  induction xs generalizing ss with
  | nil => cases ss <;> rfl
  | cons x xs ih =>
    cases ss with
    | nil => rfl
    | cons s ss =>
      rw [List.zip_cons_cons] at h
      obtain ⟨hx, hxs⟩ := List.forall_mem_cons.1 h
      rw [normalTuple, hx, ih hxs]

/-- A dictionary whose values are normal is normal. -/
theorem normalEntries_eq_self {s : Shape} {members : List (String × Json)}
    (h : ∀ m ∈ members, normal s m.2 = m.2) : normalEntries s members = members := by
  induction members with
  | nil => rfl
  | cons m rest ih =>
    obtain ⟨hm, hrest⟩ := List.forall_mem_cons.1 h
    rw [normalEntries, hm, ih hrest]

/-- A written value is normal. -/
theorem Written.normal_eq {s : Shape} {v : Json} (h : Written s v) : normal s v = v := by
  induction h with
  | text s => rfl
  | truth b => rfl
  | integer n => rfl
  | small n => rfl
  | width x =>
    unfold Binary64.toJson
    split <;> rfl
  | list h ih => rw [normal, normalList_eq_self ih]
  | tuple hlength h ih => rw [normal, normalTuple_eq_self ih]
  | @record fields members hfields hkeys h ih =>
    have hmembers : Ascending members := ascending_iff_keys.2 (hkeys ▸ ascending_iff_keys.1 hfields)
    have hnormal : normalFields fields members = members := by
      refine (normalFields_eq_iff hfields hmembers hkeys).2 (List.forall₂_iff_zip.2 ⟨?_, ?_⟩)
      · simpa using congrArg List.length hkeys
      · intro f m hzip
        refine ⟨m.2, ?_, ih _ hzip⟩
        rw [fst_eq_of_mem_zip hkeys hzip, hmembers.member?_eq_some_iff]
        exact (List.of_mem_zip hzip).2
    simp only [normal, Shape.fields?, hnormal]
  | dictionary hmembers h ih => rw [normal, normalEntries_eq_self ih]
  | node htag hmember h ih => exact (normal_node_eq_iff htag hmember _).2 ih

/-! ## Written values are values -/

/-- A written value is one of the values that there are. -/
theorem Written.valid {s : Shape} {v : Json} (h : Written s v) : v.Valid := by
  induction h with
  | text s => exact .str s
  | truth b => exact .bool b
  | integer n =>
    have hlow := n.le_toInt
    have hhigh := n.toInt_lt
    exact .int (by omega) (by omega)
  | small n =>
    have hlt := n.toNat_lt
    exact .int (by omega) (by omega)
  | width x =>
    unfold Binary64.toJson
    split
    · next h => exact .double h
    · exact .null
  | list h ih => exact .arr ih
  | tuple hlength h ih =>
    apply Valid.arr
    intro x hx
    obtain ⟨s, hs⟩ := exists_mem_zip hlength hx
    exact ih _ hs
  | record hfields hkeys h ih =>
    refine .obj (ascending_iff_keys.2 (hkeys ▸ ascending_iff_keys.1 hfields)) fun m hm => ?_
    have hlength := congrArg List.length hkeys
    rw [List.length_map, List.length_map] at hlength
    obtain ⟨f, hf⟩ := exists_mem_zip hlength hm
    exact ih _ hf
  | dictionary hmembers h ih => exact .obj hmembers ih
  | node htag hmember h ih => exact ih

/-! ## Misfits -/

/-- Values that have, at some depth, no integer or too large a one where an integer is asked for,
an array of the wrong length, an unknown or missing tag, or an object that lacks a member. -/
inductive Misfits : Shape → Json → Prop where
  | integer {v : Json} (h : ∀ n : Int64, v ≠ .int n) : Misfits .integer v
  | small {v : Json} (h : ∀ n : UInt32, v ≠ .num (.int n.toNat)) : Misfits .small v
  | length {ss : List Shape} {xs : List Json} (h : ss.length ≠ xs.length) :
    Misfits (.tuple ss) (.arr xs)
  | untagged {kind : Kind} {members : List (String × Json)}
    (h : ∀ tag, member? "t" members ≠ some (.str tag)) : Misfits (.node kind) (.obj members)
  | unknownTag {kind : Kind} {tag : String} {members : List (String × Json)}
    (htag : member? "t" members = some (.str tag)) (h : member? tag kind.contents = none) :
    Misfits (.node kind) (.obj members)
  | missing {fields : List (String × Shape)} {key : String} {s : Shape}
    {members : List (String × Json)} (hkey : member? key fields = some s)
    (h : member? key members = none) : Misfits (.record fields) (.obj members)
  | element {s : Shape} {xs : List Json} {x : Json} (hx : x ∈ xs) (h : Misfits s x) :
    Misfits (.list s) (.arr xs)
  | component {ss : List Shape} {xs : List Json} {s : Shape} {x : Json}
    (hx : (s, x) ∈ ss.zip xs) (h : Misfits s x) : Misfits (.tuple ss) (.arr xs)
  | field {fields : List (String × Shape)} {key : String} {s : Shape}
    {members : List (String × Json)} {x : Json} (hkey : member? key fields = some s)
    (hx : member? key members = some x) (h : Misfits s x) :
    Misfits (.record fields) (.obj members)
  | entry {s : Shape} {members : List (String × Json)} {m : String × Json} (hm : m ∈ members)
    (h : Misfits s m.2) : Misfits (.dictionary s) (.obj members)
  | node {kind : Kind} {tag : String} {content : Option Shape} {members : List (String × Json)}
    (htag : member? "t" members = some (.str tag))
    (hcontent : member? tag kind.contents = some content)
    (h : Misfits (.record (Shape.nodeFields content)) (.obj members)) :
    Misfits (.node kind) (.obj members)

/-- The elements of the normal form of a list. -/
theorem normalList_eq_map (s : Shape) (xs : List Json) : normalList s xs = xs.map (normal s) := by
  induction xs with
  | nil => rfl
  | cons x xs ih => rw [normalList, ih, List.map_cons]

/-- The members of the normal form of a dictionary. -/
theorem normalEntries_eq_map (s : Shape) (members : List (String × Json)) :
    normalEntries s members = members.map fun m => (m.1, normal s m.2) := by
  induction members with
  | nil => rfl
  | cons m rest ih => rw [normalEntries, ih, List.map_cons]

/-- The normal form of a tuple has the same length. -/
theorem length_normalTuple (ss : List Shape) (xs : List Json) :
    (normalTuple ss xs).length = xs.length := by
  induction xs generalizing ss with
  | nil => cases ss <;> rfl
  | cons x xs ih =>
    cases ss with
    | nil => rfl
    | cons s ss => rw [normalTuple, List.length_cons, List.length_cons, ih]

/-- The components of the normal form of a tuple. -/
theorem mem_zip_normalTuple {ss : List Shape} {xs : List Json} {s : Shape} {x : Json}
    (h : (s, x) ∈ ss.zip xs) : (s, normal s x) ∈ ss.zip (normalTuple ss xs) := by
  induction xs generalizing ss with
  | nil => simp at h
  | cons x' xs ih =>
    cases ss with
    | nil => cases h
    | cons s' ss =>
      rw [normalTuple, List.zip_cons_cons, List.mem_cons]
      rcases List.mem_cons.1 h with heq | h
      · obtain ⟨rfl, rfl⟩ := Prod.mk.inj heq
        exact Or.inl rfl
      · exact Or.inr (ih h)

/-- A node whose tag its kind does not know is its own normal form. -/
theorem normal_node_of_unknown {kind : Kind} {members : List (String × Json)}
    (h : ∀ tag, member? "t" members = some (.str tag) → member? tag kind.contents = none) :
    normal (.node kind) (.obj members) = .obj members := by
  have hfields : Shape.fields? (.node kind) members = none := by
    simp only [Shape.fields?]
    split
    · next tag htag => rw [h tag htag, Option.map_none]
    · rfl
  simp only [normal, hfields]

/-- A value that does not fit has no normal form that is written. -/
theorem Misfits.not_written {s : Shape} {v : Json} (h : Misfits s v) :
    ¬ Written s (normal s v) := by
  induction h with
  | integer h =>
    rw [normal_integer]
    intro hw
    cases hw with
    | integer n => exact h n rfl
  | small h =>
    rw [normal_small]
    intro hw
    cases hw with
    | small n => exact h n rfl
  | @length ss xs h =>
    intro hw
    rw [normal] at hw
    cases hw with
    | tuple hlength _ => exact h (hlength.trans (length_normalTuple ss xs))
  | untagged h =>
    intro hw
    rw [normal_node_of_unknown fun tag htag => absurd htag (h tag)] at hw
    cases hw with
    | node _ hmember _ => exact h _ hmember
  | @unknownTag kind tag members htag h =>
    intro hw
    have hunknown : ∀ tag', member? "t" members = some (.str tag') →
        member? tag' kind.contents = none := by
      intro tag' htag'
      obtain rfl : tag = tag' := by simpa [htag] using htag'
      exact h
    rw [normal_node_of_unknown hunknown] at hw
    cases hw with
    | node htag' hmember _ => simp [hunknown _ hmember] at htag'
  | @missing fields key s members hkey h =>
    intro hw
    have hnormal : normal (.record fields) (.obj members) = .obj (normalFields fields members) :=
      rfl
    rw [hnormal] at hw
    cases hw with
    | record _ hkeys _ =>
      have hmem : key ∈ fields.map Prod.fst := List.mem_map.2 ⟨_, mem_of_member? hkey, rfl⟩
      rw [hkeys] at hmem
      refine member?_eq_none_iff.1 ?_ hmem
      rw [member?_normalFields, h, hkey]
      rfl
  | element hx h ih =>
    intro hw
    rw [normal, normalList_eq_map] at hw
    cases hw with
    | list h' => exact ih (h' _ (List.mem_map_of_mem hx))
  | component hx h ih =>
    intro hw
    rw [normal] at hw
    cases hw with
    | tuple _ h' => exact ih (h' _ (mem_zip_normalTuple hx))
  | @field fields key s members x hkey hx h ih =>
    intro hw
    have hnormal : normal (.record fields) (.obj members) = .obj (normalFields fields members) :=
      rfl
    rw [hnormal] at hw
    cases hw with
    | record _ hkeys h' =>
      have hx' : member? key (normalFields fields members) = some (normal s x) := by
        rw [member?_normalFields, hkey, hx]
        rfl
      exact ih (h' _ (mem_zip_of_member? hkeys hkey hx'))
  | entry hm h ih =>
    intro hw
    rw [normal, normalEntries_eq_map] at hw
    cases hw with
    | dictionary _ h' => exact ih (h' _ (List.mem_map_of_mem hm))
  | @node kind tag content members htag hcontent h ih =>
    intro hw
    -- The tag is written as it stands, so the written node is the record of the same tag.
    have hfields : Shape.fields? (.node kind) members = some (Shape.nodeFields content) := by
      simp only [Shape.fields?, htag, hcontent, Option.map_some]
    have hnormal : normal (.node kind) (.obj members) =
        .obj (normalFields (Shape.nodeFields content) members) := by
      simp only [normal, hfields]
    rw [hnormal] at hw
    cases hw with
    | node hcontent' hmember hw =>
      rw [member?_tag_normalFields, htag] at hmember
      obtain rfl := str.inj (Option.some.inj hmember)
      rw [hcontent] at hcontent'
      obtain rfl := Option.some.inj hcontent'
      exact ih hw

end Transclude.Json
