import Transclude.Proofs.Number.Binary64
import Transclude.Proofs.Wire.Written

/-!
# Recognizing written values

A predicate recognizes a written value in a place if, among the values that there are, it holds
of those with that normal form.  Predicates for arrays and objects recognize what is written for
the whole when the predicates for their parts recognize what is written for the parts.

Main results:

- Definition {lit}`Json.Recognizes`: a predicate recognizes a written value in a place, as long
  as a side condition on what is written holds.
- Theorems {lit}`Json.Recognizes.list`, {lit}`Json.Recognizes.tuple`,
  {lit}`Json.Recognizes.record`, {lit}`Json.Recognizes.dictionary`,
  {lit}`Json.Recognizes.node`, {lit}`Json.Recognizes.tagged`: one rule for every shape that has
  parts.
-/

namespace Transclude.Json

/-! ## Values by their parts -/

/-- An array whose elements are what a list asks for. -/
def IsList {α : Type} (R : α → Json → Prop) (as : List α) (v : Json) : Prop :=
  ∃ xs, v = .arr xs ∧ List.Forall₂ R as xs

/-- An array of as many elements as there are predicates, with the one for each. -/
def IsTuple (Rs : List (Json → Prop)) (v : Json) : Prop :=
  ∃ xs, v = .arr xs ∧ List.Forall₂ (fun R x => R x) Rs xs

/-- An object that has certain members, and maybe others. -/
def IsRecord (Rs : List (String × (Json → Prop))) (v : Json) : Prop :=
  ∃ members, v = .obj members ∧ ∀ f ∈ Rs, ∃ x, member? f.1 members = some x ∧ f.2 x

/-- An object whose members are what a list of entries asks for. -/
def IsDictionary {α : Type} (R : α → Json → Prop) (entries : List (String × α)) (v : Json) :
    Prop :=
  ∃ members, v = .obj members ∧ List.Forall₂ (fun e m => e.1 = m.1 ∧ R e.2 m.2) entries members

/-- An object with a tag. -/
def IsTagged (tag : String) : Json → Prop :=
  IsRecord [("t", (· = .str tag))]

/-- An object with a tag and a content. -/
def IsNode (tag : String) (R : Json → Prop) : Json → Prop :=
  IsRecord [("c", R), ("t", (· = .str tag))]

/-! ## Recognition -/

/-- Of the values that there are, a predicate holds of those that have a certain written value
for a normal form, as long as the side condition holds, and of none without it. -/
structure Recognizes (R : Json → Prop) (s : Shape) (w : Json) (P : Prop) : Prop where
  written : Written s w
  iff : ∀ v, v.Valid → (R v ↔ normal s v = w ∧ P)

/-- Recognition of a sequence, part by part. -/
inductive RecognizesEach : List (Json → Prop) → List Shape → List Json → Prop → Prop where
  | nil : RecognizesEach [] [] [] True
  | cons {R : Json → Prop} {s : Shape} {w : Json} {P Q : Prop} {Rs : List (Json → Prop)}
      {ss : List Shape} {ws : List Json} (head : Recognizes R s w P)
      (tail : RecognizesEach Rs ss ws Q) :
      RecognizesEach (R :: Rs) (s :: ss) (w :: ws) (P ∧ Q)

/-- Recognition of members, key by key. -/
inductive RecognizesFields : List (String × (Json → Prop)) → List (String × Shape) →
    List (String × Json) → Prop → Prop where
  | nil : RecognizesFields [] [] [] True
  | cons {key : String} {R : Json → Prop} {s : Shape} {w : Json} {P Q : Prop}
      {Rs : List (String × (Json → Prop))} {fields : List (String × Shape)}
      {ws : List (String × Json)} (head : Recognizes R s w P)
      (tail : RecognizesFields Rs fields ws Q) :
      RecognizesFields ((key, R) :: Rs) ((key, s) :: fields) ((key, w) :: ws) (P ∧ Q)

namespace Recognizes

variable {R : Json → Prop} {s : Shape} {w : Json} {P Q : Prop}

/-- Predicates that hold of the same values recognize the same. -/
theorem of_iff {R' : Json → Prop} (h : Recognizes R s w P) (hR : ∀ v, R' v ↔ R v) :
    Recognizes R' s w P :=
  ⟨h.written, fun v hv => (hR v).trans (h.iff v hv)⟩

/-- The side condition may be put in other words. -/
theorem congr (h : Recognizes R s w P) (hP : P ↔ Q) : Recognizes R s w Q :=
  ⟨h.written, fun v hv => (h.iff v hv).trans (and_congr_right' hP)⟩

/-! ## Leaves -/

/-- Where everything is normal, a value is recognized as itself. -/
theorem eq_self (hw : Written s w) (hs : ∀ v, normal s v = v) : Recognizes (· = w) s w True := by
  refine ⟨hw, fun v _ => ?_⟩
  rw [hs, and_true]

/-- A string is recognized as itself. -/
theorem text (t : String) : Recognizes (· = .str t) .text (.str t) True :=
  eq_self (.text t) normal_text

/-- A truth value is recognized as itself. -/
theorem truth (b : Bool) : Recognizes (· = .bool b) .truth (.bool b) True :=
  eq_self (.truth b) normal_truth

/-- An integer is recognized as itself. -/
theorem integer (n : Int64) : Recognizes (· = .int n) .integer (.int n) True :=
  eq_self (.integer n) normal_integer

/-- A small number is recognized as itself. -/
theorem small (n : UInt32) :
    Recognizes (· = .num (.int n.toNat)) .small (.num (.int n.toNat)) True :=
  eq_self (.small n) normal_small

/-- A width is recognized by its value, which has to be finite. -/
theorem width (x : Binary64) :
    Recognizes (fun v => ∃ n, v = .num n ∧ n.toDouble = x) .width x.toJson
      (x.isFinite = true) := by
  refine ⟨.width x, fun v hv => ?_⟩
  have hvalue : ∀ n, (Json.num n).Valid → n.toDouble.isFinite = true := by
    intro n hn
    cases hn with
    | int hlow hhigh => exact Binary64.isFinite_ofInt hlow hhigh
    | double h => exact h
  unfold Binary64.toJson
  cases v with
  | num n =>
    have hfinite := hvalue n hv
    constructor
    · rintro ⟨_, heq, rfl⟩
      obtain rfl := num.inj heq
      exact ⟨by rw [if_pos hfinite]; rfl, hfinite⟩
    · rintro ⟨h, hx⟩
      rw [if_pos hx] at h
      exact ⟨n, rfl, Number.double.inj (num.inj h)⟩
  | _ =>
    constructor
    · rintro ⟨_, heq, -⟩
      cases heq
    · rintro ⟨h, hx⟩
      rw [if_pos hx] at h
      simp [normal, Shape.fields?] at h

/-! ## Arrays -/

/-- No elements are recognized as the empty list. -/
theorem nil {α : Type} {R : α → Json → Prop} :
    Recognizes (IsList R []) (.list s) (.arr []) True := by
  refine ⟨.list (by simp), fun v _ => ?_⟩
  cases v with
  | arr xs =>
    cases xs with
    | nil => simp [IsList, normal, normalList]
    | cons x xs => simp [IsList, normal, normalList]
  | _ => simp [IsList, normal, Shape.fields?]

/-- A list is recognized by its first element and the list of the others. -/
theorem cons {α : Type} {R : α → Json → Prop} {a : α} {as : List α} {ws : List Json}
    (hhead : Recognizes (R a) s w P) (htail : Recognizes (IsList R as) (.list s) (.arr ws) Q) :
    Recognizes (IsList R (a :: as)) (.list s) (.arr (w :: ws)) (P ∧ Q) := by
  have hwritten : ∀ x ∈ w :: ws, Written s x := by
    refine List.forall_mem_cons.2 ⟨hhead.written, ?_⟩
    cases htail.written with
    | list h => exact h
  refine ⟨.list hwritten, fun v hv => ?_⟩
  cases hv with
  | @arr xs hxs =>
    cases xs with
    | nil => simp [IsList, normal, normalList]
    | cons x xs =>
      obtain ⟨hx, hxs⟩ := List.forall_mem_cons.1 hxs
      have htail' := htail.iff (.arr xs) (.arr hxs)
      simp only [IsList, normal, arr.injEq, exists_eq_left'] at htail' ⊢
      rw [List.forall₂_cons, hhead.iff x hx, htail', normalList, List.cons.injEq]
      exact and_and_and_comm
  | _ => simp [IsList, normal, Shape.fields?]

/-- A list is recognized by its elements. -/
theorem list {α : Type} {R : α → Json → Prop} {write : α → Json} {as : List α}
    (h : ∀ a ∈ as, Recognizes (R a) s (write a) True) :
    Recognizes (IsList R as) (.list s) (.arr (as.map write)) True := by
  induction as with
  | nil => exact nil
  | cons a as ih =>
    obtain ⟨hhead, htail⟩ := List.forall_mem_cons.1 h
    exact (cons hhead (ih htail)).congr (true_and _ ▸ Iff.rfl)

/-- The components of a tuple are recognized one by one. -/
theorem forall₂_iff_normalTuple {Rs : List (Json → Prop)} {ss : List Shape} {ws : List Json}
    (h : RecognizesEach Rs ss ws P) {xs : List Json} (hxs : ∀ x ∈ xs, x.Valid) :
    List.Forall₂ (fun R x => R x) Rs xs ↔ normalTuple ss xs = ws ∧ P := by
  induction h generalizing xs with
  | nil => cases xs <;> simp [normalTuple]
  | cons head tail ih =>
    cases xs with
    | nil => simp [normalTuple]
    | cons x xs =>
      have hhead := head.iff x (hxs x List.mem_cons_self)
      have htail := ih fun y hy => hxs y (List.mem_cons_of_mem _ hy)
      rw [List.forall₂_cons, hhead, htail, normalTuple, List.cons.injEq]
      exact and_and_and_comm

/-- Recognition of components says that they are written. -/
theorem written_components {Rs : List (Json → Prop)} {ss : List Shape} {ws : List Json}
    (h : RecognizesEach Rs ss ws P) :
    ss.length = ws.length ∧ ∀ p ∈ ss.zip ws, Written p.1 p.2 := by
  induction h with
  | nil => simp
  | cons head tail ih =>
    refine ⟨congrArg (· + 1) ih.1, ?_⟩
    rw [List.zip_cons_cons]
    exact List.forall_mem_cons.2 ⟨head.written, ih.2⟩

/-- A tuple is recognized by its components. -/
theorem tuple {Rs : List (Json → Prop)} {ss : List Shape} {ws : List Json}
    (h : RecognizesEach Rs ss ws P) : Recognizes (IsTuple Rs) (.tuple ss) (.arr ws) P := by
  obtain ⟨hlength, hwritten⟩ := written_components h
  refine ⟨.tuple hlength hwritten, fun v hv => ?_⟩
  cases hv with
  | arr hxs =>
    simp only [IsTuple, normal, arr.injEq, exists_eq_left']
    exact forall₂_iff_normalTuple h hxs
  | _ => simp [IsTuple, normal, Shape.fields?]

/-! ## Objects -/

/-- The members of an object are recognized key by key. -/
theorem forall_iff_forall₂ {Rs : List (String × (Json → Prop))}
    {fields : List (String × Shape)} {ws : List (String × Json)}
    (h : RecognizesFields Rs fields ws P) {members : List (String × Json)}
    (hmembers : ∀ m ∈ members, m.2.Valid) :
    (∀ f ∈ Rs, ∃ x, member? f.1 members = some x ∧ f.2 x) ↔
      List.Forall₂ (fun f w => ∃ x, member? f.1 members = some x ∧ normal f.2 x = w.2)
        fields ws ∧ P := by
  induction h with
  | nil => simp
  | @cons key R s w P Q Rs fields ws head tail ih =>
    have hhead : (∃ x, member? key members = some x ∧ R x) ↔
        (∃ x, member? key members = some x ∧ normal s x = w) ∧ P := by
      constructor
      · rintro ⟨x, hx, hR⟩
        obtain ⟨hnormal, hP⟩ := (head.iff x (hmembers _ (mem_of_member? hx))).1 hR
        exact ⟨⟨x, hx, hnormal⟩, hP⟩
      · rintro ⟨⟨x, hx, hnormal⟩, hP⟩
        exact ⟨x, hx, (head.iff x (hmembers _ (mem_of_member? hx))).2 ⟨hnormal, hP⟩⟩
    rw [List.forall_mem_cons, List.forall₂_cons, ih, hhead]
    exact and_and_and_comm

/-- Recognition of members says that they are written. -/
theorem written_members {Rs : List (String × (Json → Prop))} {fields : List (String × Shape)}
    {ws : List (String × Json)} (h : RecognizesFields Rs fields ws P) :
    fields.map Prod.fst = ws.map Prod.fst ∧
      ∀ p ∈ fields.zip ws, Written p.1.2 p.2.2 := by
  induction h with
  | nil => simp
  | cons head tail ih =>
    refine ⟨congrArg (_ :: ·) ih.1, ?_⟩
    rw [List.zip_cons_cons]
    exact List.forall_mem_cons.2 ⟨head.written, ih.2⟩

/-- A record is recognized by its members. -/
theorem record {Rs : List (String × (Json → Prop))} {fields : List (String × Shape)}
    {ws : List (String × Json)} (hfields : Ascending fields)
    (h : RecognizesFields Rs fields ws P) :
    Recognizes (IsRecord Rs) (.record fields) (.obj ws) P := by
  obtain ⟨hkeys, hwritten⟩ := written_members h
  refine ⟨.record hfields hkeys hwritten, fun v hv => ?_⟩
  cases hv with
  | obj hascending hmembers =>
    simp only [IsRecord, normal, Shape.fields?, obj.injEq, exists_eq_left']
    rw [normalFields_eq_iff hfields hascending hkeys]
    exact forall_iff_forall₂ h hmembers
  | _ => simp [IsRecord, normal]

/-- The entries of a dictionary are recognized one by one. -/
theorem forall₂_iff_normalEntries {α : Type} {R : α → Json → Prop} {write : α → Json}
    {P : α → Prop} {entries : List (String × α)}
    (h : ∀ e ∈ entries, Recognizes (R e.2) s (write e.2) (P e.2))
    {members : List (String × Json)} (hmembers : ∀ m ∈ members, m.2.Valid) :
    List.Forall₂ (fun e m => e.1 = m.1 ∧ R e.2 m.2) entries members ↔
      normalEntries s members = entries.map (fun e => (e.1, write e.2)) ∧
        ∀ e ∈ entries, P e.2 := by
  induction entries generalizing members with
  | nil => cases members <;> simp [normalEntries]
  | cons e entries ih =>
    cases members with
    | nil => simp [normalEntries]
    | cons m members =>
      obtain ⟨key, x⟩ := m
      have hhead : (e.1 = key ∧ R e.2 x) ↔ (key, normal s x) = (e.1, write e.2) ∧ P e.2 := by
        rw [(h e List.mem_cons_self).iff x (hmembers _ List.mem_cons_self), Prod.mk.injEq,
          and_assoc, eq_comm]
      have htail := ih (fun e he => h e (List.mem_cons_of_mem _ he))
        (fun m hm => hmembers m (List.mem_cons_of_mem _ hm))
      rw [List.forall₂_cons, hhead, htail, normalEntries, List.map_cons, List.cons.injEq,
        List.forall_mem_cons]
      exact and_and_and_comm

/-- A dictionary is recognized by its entries, whose keys have to ascend. -/
theorem dictionary {α : Type} {R : α → Json → Prop} {write : α → Json} {P : α → Prop}
    {entries : List (String × α)}
    (h : ∀ e ∈ entries, Recognizes (R e.2) s (write e.2) (P e.2)) :
    Recognizes (IsDictionary R entries) (.dictionary s)
      (object (entries.map fun e => (e.1, write e.2)))
      (Ascending entries ∧ ∀ e ∈ entries, P e.2) := by
  have hasc : Ascending entries ↔ Ascending (entries.map fun e => (e.1, write e.2)) := by
    simp only [ascending_iff_keys, List.map_map, Function.comp_def]
  have hwritten : ∀ m ∈ canonical (entries.map fun e => (e.1, write e.2)), Written s m.2 := by
    intro m hm
    obtain ⟨e, he, rfl⟩ := List.mem_map.1 (mem_of_mem_canonical hm)
    exact (h e he).written
  refine ⟨.dictionary (ascending_canonical _) hwritten, fun v hv => ?_⟩
  cases hv with
  | @obj members hkeys hmembers =>
    simp only [IsDictionary, normal, object, obj.injEq, exists_eq_left']
    rw [forall₂_iff_normalEntries h hmembers]
    constructor
    · rintro ⟨hnormal, hP⟩
      -- The members of a value ascend, and its normal form has the same keys.
      have hkeys' : Ascending (normalEntries s members) := by
        rw [ascending_iff_keys, keys_normalEntries]
        exact ascending_iff_keys.1 hkeys
      rw [hnormal] at hkeys'
      exact ⟨hnormal.trans (canonical_of_ascending hkeys').symm, hasc.2 hkeys', hP⟩
    · rintro ⟨hnormal, hentries, hP⟩
      rw [canonical_of_ascending (hasc.1 hentries)] at hnormal
      exact ⟨hnormal, hP⟩
  | _ => simp [IsDictionary, normal, object]

/-! ## Nodes -/

/-- A node is recognized by its tag and its content. -/
theorem node {kind : Kind} {tag : String} (htag : member? tag kind.contents = some (some s))
    (h : Recognizes R s w P) : Recognizes (IsNode tag R) (.node kind) (.node tag w) P := by
  have hfields : Ascending (Shape.nodeFields (some s)) :=
    ascending_iff_keys.2 (by decide : ["c", "t"].Pairwise (· < ·))
  have hrecord := record hfields (.cons h (.cons (text tag) .nil))
  refine ⟨.node htag rfl hrecord.written, fun v hv => ?_⟩
  rw [Json.node, normal_node_eq_iff htag rfl]
  exact (hrecord.congr (by simp)).iff v hv

/-- A node without content is recognized by its tag. -/
theorem tagged {kind : Kind} {tag : String} (htag : member? tag kind.contents = some none) :
    Recognizes (IsTagged tag) (.node kind) (.tagged tag) True := by
  have hfields : Ascending (Shape.nodeFields none) := List.pairwise_singleton _ _
  have hrecord := record hfields (.cons (text tag) .nil)
  refine ⟨.node htag rfl hrecord.written, fun v hv => ?_⟩
  rw [Json.tagged, normal_node_eq_iff htag rfl]
  exact (hrecord.congr (by simp)).iff v hv

end Recognizes

end Transclude.Json
