import Transclude.Proofs.Filter.ReadBack
import Transclude.Proofs.Json.Source

/-!
# The order of metadata keys

The keys of the metadata of a text, at every depth, next to those of the document that the text is
read as and to those of the text that a filter writes.  A document does not list its keys as the
text does, but by code point; where the text lists them by code point they stay in place.

Main results:

- Definition {lit}`Json.metaKeysAt?`: the keys of a text at a place of its metadata.
- Definition {lit}`Document.keysAt?`: the keys of a document at such a place.
- Theorem {lit}`Json.metaKeysAt?_sorted`: canonical form puts the keys in order everywhere.
- Theorem {lit}`Document.keysAt?_of_ofJson`: a document lists the keys as the value it is read
  from.
- Theorem {lit}`Filter.keys_of_run_expand`: the keys of a text, of its document and of the text
  that is written.
-/

namespace Transclude

/-- A step from a metadata value to one below it. -/
inductive MetaStep where
  | key (k : String)
  | index (i : Nat)
  deriving DecidableEq, Repr, Inhabited

namespace Json

/-! ## The last member of a key -/

variable {α β : Type}

/-- The value of the last member of a key. -/
def last? (key : String) (members : List (String × α)) : Option α :=
  member? key members.reverse

/-- A member of joined objects is one of the first, or else one of the second. -/
theorem member?_append (key : String) (xs ys : List (String × α)) :
    member? key (xs ++ ys) = (member? key xs).or (member? key ys) := by
  induction xs with
  | nil => simp [member?]
  | cons m xs ih =>
    rw [List.cons_append, member?, member?]
    split
    · rfl
    · exact ih

/-- The last member of a key is the last one of the rest, if there is any. -/
theorem last?_cons (key : String) (m : String × α) (members : List (String × α)) :
    last? key (m :: members) = (last? key members).or (member? key [m]) := by
  rw [last?, List.reverse_cons, member?_append, last?]

/-- Inserting a member gives its key its value and leaves all other keys alone. -/
theorem member?_insertMember (key k : String) (x : α) (members : List (String × α)) :
    member? key (insertMember k x members) =
      if k = key then some x else member? key members := by
  induction members with
  | nil => rfl
  | cons m rest ih =>
    obtain ⟨k', y⟩ := m
    rw [insertMember]
    split
    · rfl
    · split
      · next hk =>
        subst hk
        by_cases hkey : k = key <;> simp [member?, hkey]
      · next hk =>
        rw [member?, ih, member?]
        by_cases hkey : k' = key
        · have hne : k ≠ key := fun h => hk (h.trans hkey.symm)
          simp [hkey, hne]
        · simp [hkey]

/-- Among canonical members a key has the value of its last member. -/
theorem member?_canonical (key : String) (members : List (String × α)) :
    member? key (canonical members) = last? key members := by
  suffices ∀ sorted : List (String × α),
      member? key (members.foldl (fun sorted m => insertMember m.1 m.2 sorted) sorted) =
        (last? key members).or (member? key sorted) by
    rw [canonical, this []]
    simp [member?]
  induction members with
  | nil => exact fun sorted => rfl
  | cons m rest ih =>
    intro sorted
    rw [List.foldl_cons, ih, member?_insertMember, last?_cons]
    by_cases hm : m.1 = key
    · cases last? key rest <;> simp [member?, hm]
    · cases last? key rest <;> simp [member?, hm]

/-- Among ascending members the last member of a key is the only one. -/
theorem last?_of_ascending {members : List (String × α)} (h : Ascending members) (key : String) :
    last? key members = member? key members := by
  rw [← member?_canonical, canonical_of_ascending h]

/-- The member of a key after a change of all values. -/
theorem member?_map (f : α → β) (key : String) (members : List (String × α)) :
    member? key (members.map fun m => (m.1, f m.2)) = (member? key members).map f := by
  induction members with
  | nil => rfl
  | cons m rest ih =>
    rw [List.map_cons, member?, member?, ih]
    split <;> rfl

/-- The last member of a key after a change of all values. -/
theorem last?_map (f : α → β) (key : String) (members : List (String × α)) :
    last? key (members.map fun m => (m.1, f m.2)) = (last? key members).map f := by
  rw [last?, ← List.map_reverse, member?_map, last?]

/-- In a canonical form a key has the canonical form of the value of its last member. -/
theorem last?_canonical_sortedMembers (key : String) (members : List (String × Json)) :
    last? key (canonical (sortedMembers members)) = (last? key members).map sorted := by
  rw [last?_of_ascending (ascending_canonical _), member?_canonical, sortedMembers_eq, last?_map]

/-! ## Keys in order -/

/-- Keys in ascending order, each of them once. -/
def sortKeys (keys : List String) : List String :=
  (canonical (keys.map fun key => (key, ()))).map Prod.fst

/-- Where a member is inserted does not depend on values. -/
theorem insertMember_map (f : α → β) (key : String) (x : α) (members : List (String × α)) :
    insertMember key (f x) (members.map fun m => (m.1, f m.2)) =
      (insertMember key x members).map fun m => (m.1, f m.2) := by
  induction members with
  | nil => rfl
  | cons m rest ih =>
    rw [List.map_cons, insertMember, insertMember, ih]
    split
    · rfl
    · split <;> rfl

/-- Which members are canonical does not depend on values. -/
theorem canonical_map (f : α → β) (members : List (String × α)) :
    canonical (members.map fun m => (m.1, f m.2)) =
      (canonical members).map fun m => (m.1, f m.2) := by
  suffices ∀ sorted : List (String × α),
      (members.map fun m => (m.1, f m.2)).foldl (fun sorted m => insertMember m.1 m.2 sorted)
        (sorted.map fun m => (m.1, f m.2)) =
      (members.foldl (fun sorted m => insertMember m.1 m.2 sorted) sorted).map
        fun m => (m.1, f m.2) from
    this []
  induction members with
  | nil => exact fun sorted => rfl
  | cons m rest ih =>
    intro sorted
    rw [List.map_cons, List.foldl_cons, List.foldl_cons]
    dsimp only
    rw [insertMember_map, ih]

/-- The keys of canonical members are the keys of the members in order. -/
theorem keys_canonical (members : List (String × α)) :
    (canonical members).map Prod.fst = sortKeys (members.map Prod.fst) := by
  have hunit := canonical_map (fun _ => ()) members
  rw [sortKeys, List.map_map]
  change _ = (canonical (members.map fun m => (m.1, ()))).map Prod.fst
  rw [hunit, List.map_map]
  rfl

/-- Keys in order ascend. -/
theorem pairwise_sortKeys (keys : List String) : (sortKeys keys).Pairwise (· < ·) :=
  ascending_iff_keys.1 (ascending_canonical _)

/-- No key is lost or added. -/
theorem mem_sortKeys_iff {key : String} {keys : List String} :
    key ∈ sortKeys keys ↔ key ∈ keys := by
  have hnone : key ∉ sortKeys keys ↔ key ∉ keys := by
    rw [sortKeys, ← member?_eq_none_iff, member?_canonical, last?, member?_eq_none_iff]
    simp
  exact not_iff_not.1 hnone

/-- Keys that are there once are put in order, and stay as they are exactly if they ascend. -/
theorem perm_sortKeys {keys : List String} (h : keys.Nodup) :
    (sortKeys keys).Perm keys ∧ (sortKeys keys = keys ↔ keys.Pairwise (· < ·)) := by
  have hnodup : (sortKeys keys).Nodup :=
    (pairwise_sortKeys keys).imp fun hlt heq => absurd (heq ▸ hlt) (String.lt_irrefl _)
  have hperm : (sortKeys keys).Perm keys :=
    (List.perm_ext_iff_of_nodup hnodup h).2 fun _ => mem_sortKeys_iff
  refine ⟨hperm, fun heq => heq ▸ pairwise_sortKeys keys, fun hasc => ?_⟩
  refine hperm.eq_of_pairwise (fun a b _ _ hab hba => ?_) (pairwise_sortKeys keys) hasc
  exact absurd (String.lt_trans hab hba) (String.lt_irrefl a)

/-! ## Keys of a text -/

/-- What the value of a metadata value holds: members, values, or neither of them. -/
inductive Contents where
  | keyed (members : List (String × Json))
  | listed (values : List Json)
  | leaf

/-- The tag of the value of a node. -/
def tag? : Json → Option String
  | .obj fields =>
    match last? "t" fields with
    | some (.str tag) => some tag
    | _ => none
  | _ => none

/-- The content of the value of a node. -/
def content? : Json → Option Json
  | .obj fields => last? "c" fields
  | _ => none

/-- What the value of a metadata value holds. -/
def contents (v : Json) : Contents :=
  match v.content? with
  | some (.obj members) => if v.tag? = some "MetaMap" then .keyed members else .leaf
  | some (.arr values) => if v.tag? = some "MetaList" then .listed values else .leaf
  | _ => .leaf

/-- The metadata in the value of a document. -/
def documentContents : Json → Contents
  | .obj fields =>
    match last? "meta" fields with
    | some (.obj members) => .keyed members
    | _ => .leaf
  | _ => .leaf

/-- The keys at the end of a path, in the order in which they stand. -/
def Contents.keysAt? : List MetaStep → Contents → Option (List String)
  | [], .keyed members => some (members.map Prod.fst)
  | .key k :: path, .keyed members => do
    let v ← last? k members
    v.contents.keysAt? path
  | .index i :: path, .listed values => do
    let v ← values[i]?
    v.contents.keysAt? path
  | _, _ => none

/-- The keys of the metadata in the value of a document, at the end of a path. -/
def metaKeysAt? (path : List MetaStep) (v : Json) : Option (List String) :=
  v.documentContents.keysAt? path

/-- What a value holds, with every object below in canonical form. -/
def Contents.sorted : Contents → Contents
  | .keyed members => .keyed (canonical (sortedMembers members))
  | .listed values => .listed (values.map Json.sorted)
  | .leaf => .leaf

/-- Canonical form leaves the tag of a node as it is. -/
theorem tag?_sorted (v : Json) : v.sorted.tag? = v.tag? := by
  cases v with
  | obj fields =>
    rw [Json.sorted, object, tag?, tag?, last?_canonical_sortedMembers]
    rcases last? "t" fields with _ | (_ | _ | _ | _ | _ | _) <;> rfl
  | _ => rfl

/-- The content of a node is brought into canonical form with it. -/
theorem content?_sorted (v : Json) : v.sorted.content? = v.content?.map Json.sorted := by
  cases v with
  | obj fields => rw [Json.sorted, object, content?, content?, last?_canonical_sortedMembers]
  | _ => rfl

/-- So are the contents that keys are looked for in. -/
theorem contents_sorted (v : Json) : v.sorted.contents = v.contents.sorted := by
  rw [contents, contents, content?_sorted, tag?_sorted]
  rcases v.content? with _ | (_ | _ | _ | _ | values | members)
  · rfl
  · rfl
  · rfl
  · rfl
  · rfl
  · by_cases htag : v.tag? = some "MetaList" <;>
      simp [Json.sorted, htag, Contents.sorted, sortedElements_eq]
  · by_cases htag : v.tag? = some "MetaMap" <;>
      simp [Json.sorted, object, htag, Contents.sorted]

/-- So is the metadata of a document. -/
theorem documentContents_sorted (v : Json) :
    v.sorted.documentContents = v.documentContents.sorted := by
  cases v with
  | obj fields =>
    rw [Json.sorted, object, documentContents, documentContents, last?_canonical_sortedMembers]
    rcases last? "meta" fields with _ | (_ | _ | _ | _ | _ | _) <;> rfl
  | _ => rfl

/-- Canonical form puts the keys in order, at the end of every path. -/
theorem Contents.keysAt?_sorted (path : List MetaStep) (contents : Contents) :
    contents.sorted.keysAt? path = (contents.keysAt? path).map sortKeys := by
  induction path generalizing contents with
  | nil =>
    cases contents with
    | keyed members =>
      simp only [Contents.sorted, keysAt?, Option.map_some, keys_canonical, sortedMembers_eq,
        List.map_map]
      rfl
    | _ => rfl
  | cons step path ih =>
    cases contents with
    | keyed members =>
      cases step with
      | key k =>
        simp only [Contents.sorted, keysAt?, last?_canonical_sortedMembers]
        cases last? k members with
        | none => rfl
        | some v => exact (congrArg _ (contents_sorted v)).trans (ih v.contents)
      | index i => rfl
    | listed values =>
      cases step with
      | key k => rfl
      | index i =>
        simp only [Contents.sorted, keysAt?, List.getElem?_map]
        cases values[i]? with
        | none => rfl
        | some v => exact (congrArg _ (contents_sorted v)).trans (ih v.contents)
    | leaf => cases step <;> rfl

/-- So it does in the value of a document. -/
theorem metaKeysAt?_sorted (path : List MetaStep) (v : Json) :
    v.sorted.metaKeysAt? path = (v.metaKeysAt? path).map sortKeys := by
  rw [metaKeysAt?, documentContents_sorted, Contents.keysAt?_sorted, metaKeysAt?]

end Json

/-! ## Keys of a document -/

/-- The keys of the map at the end of a path, in order. -/
def MetaValue.keysAt? : List MetaStep → MetaValue → Option (List String)
  | [], .map entries => some (Meta.keys entries)
  | .key k :: path, .map entries => do
    let m ← Meta.get? entries k
    m.keysAt? path
  | .index i :: path, .list values => do
    let m ← values[i]?
    m.keysAt? path
  | _, _ => none

/-- The keys of the metadata of a document at the end of a path, in order. -/
def Document.keysAt? (path : List MetaStep) (d : Document) : Option (List String) :=
  MetaValue.keysAt? path (.map d.metadata)

/-! ## Reading keeps the keys -/

section Reading

open Json

variable {v : Json}

/-- The tag and the content of a node that is read. -/
theorem Json.parts_of_isNode {tag : String} {R : Json → Prop} (hv : v.Valid)
    (h : IsNode tag R v) :
    v.tag? = some tag ∧ ∃ x, v.content? = some x ∧ R x ∧ x.Valid := by
  obtain ⟨fields, rfl, hfields⟩ := h
  obtain ⟨hascending, hvalid⟩ : Ascending fields ∧ ∀ m ∈ fields, m.2.Valid := by
    cases hv with
    | obj hkeys hmembers => exact ⟨hkeys, hmembers⟩
  obtain ⟨t, ht, rfl⟩ := hfields ("t", (· = .str tag)) (by simp)
  obtain ⟨x, hx, hR⟩ := hfields ("c", R) (by simp)
  rw [← last?_of_ascending hascending] at ht
  rw [tag?, ht, content?, last?_of_ascending hascending]
  exact ⟨rfl, x, hx, hR, hvalid _ (mem_of_member? hx)⟩

/-- A node with another tag than those of maps and lists holds neither members nor values. -/
theorem Json.contents_of_tag {tag : String} (htag : v.tag? = some tag) (hmap : tag ≠ "MetaMap")
    (hlist : tag ≠ "MetaList") : v.contents = .leaf := by
  rw [contents, htag]
  split
  · exact if_neg fun h => hmap (Option.some.inj h)
  · exact if_neg fun h => hlist (Option.some.inj h)
  · rfl

/-- Entries and members that belong together are found by the same keys. -/
theorem Json.member?_of_forall₂ {α : Type} {Q : α → Json → Prop} {entries : List (String × α)}
    {members : List (String × Json)}
    (h : List.Forall₂ (fun e m => e.1 = m.1 ∧ Q e.2 m.2) entries members) (key : String) :
    (member? key entries = none ∧ member? key members = none) ∨
      ∃ a x, member? key entries = some a ∧ member? key members = some x ∧ Q a x := by
  induction h with
  | nil => exact .inl ⟨rfl, rfl⟩
  | @cons e m entries members hem _ ih =>
    obtain ⟨hkey, hQ⟩ := hem
    rw [member?, member?, ← hkey]
    by_cases hk : e.1 = key
    · rw [if_pos hk, if_pos hk]
      exact .inr ⟨e.2, m.2, rfl, rfl, hQ⟩
    · rw [if_neg hk, if_neg hk]
      exact ih

/-- The value of a key of the metadata is that of its first entry. -/
theorem Meta.get?_eq_member? (entries : Meta) (key : String) :
    Meta.get? entries key = member? key entries := by
  induction entries with
  | nil => rfl
  | cons e rest ih =>
    rw [Meta.get?, member?]
    by_cases hk : e.1 = key
    · simp [hk]
    · rw [if_neg hk, List.find?_cons_of_neg (by simpa using hk)]
      exact ih

/-- Entries that are read from members have their keys. -/
theorem Meta.keys_of_forall₂ {Q : MetaValue → Json → Prop} {entries : Meta}
    {members : List (String × Json)}
    (h : List.Forall₂ (fun e m => e.1 = m.1 ∧ Q e.2 m.2) entries members) :
    members.map Prod.fst = Meta.keys entries := by
  induction h with
  | nil => rfl
  | cons hem _ ih => exact congrArg₂ List.cons hem.1.symm ih

/-- Below a path, the keys of members are those of the entries that are read from them, if that
holds of each value. -/
theorem Json.keysAt?_keyed {entries : Meta} (hv : v.Valid)
    (h : MetaValue.ofJsonEntries v = .ok entries) (path : List MetaStep)
    (hbelow : ∀ k rest, path = .key k :: rest → ∀ {x : Json} {m : MetaValue}, x.Valid →
      MetaValue.ofJson x = .ok m → x.contents.keysAt? rest = m.keysAt? rest) :
    ∃ members, v = .obj members ∧
      (Contents.keyed members).keysAt? path = MetaValue.keysAt? path (.map entries) := by
  obtain ⟨members, rfl, hmembers⟩ := MetaValue.ofJsonEntries_eq_ok_iff.1 h
  obtain ⟨hascending, hvalid⟩ : Ascending members ∧ ∀ m ∈ members, m.2.Valid := by
    cases hv with
    | obj hkeys hmembers => exact ⟨hkeys, hmembers⟩
  refine ⟨members, rfl, ?_⟩
  rcases path with _ | ⟨k | i, rest⟩
  · exact congrArg some (Meta.keys_of_forall₂ (Q := fun m x => MetaValue.ofJson x = .ok m) hmembers)
  · simp only [Contents.keysAt?, MetaValue.keysAt?, last?_of_ascending hascending,
      Meta.get?_eq_member?]
    rcases member?_of_forall₂ (Q := fun m x => MetaValue.ofJson x = .ok m) hmembers k with
      ⟨hnone, hnone'⟩ | ⟨m, x, hm, hx, hread⟩
    · rw [hnone, hnone']
      rfl
    · rw [hm, hx]
      exact hbelow k rest rfl (hvalid _ (mem_of_member? hx)) hread
  · rfl

/-- Elements that belong together stand at the same positions. -/
theorem getElem?_of_forall₂ {α β : Type} {R : α → β → Prop} {as : List α} {bs : List β}
    (h : List.Forall₂ R as bs) (i : Nat) :
    (as[i]? = none ∧ bs[i]? = none) ∨ ∃ a b, as[i]? = some a ∧ bs[i]? = some b ∧ R a b := by
  induction h generalizing i with
  | nil => exact .inl ⟨rfl, rfl⟩
  | @cons a b as bs hab _ ih =>
    cases i with
    | zero => exact .inr ⟨a, b, rfl, rfl, hab⟩
    | succ i => simpa using ih i

/-- There are no keys below what is no container. -/
theorem Json.keysAt?_leaf (path : List MetaStep) : Contents.leaf.keysAt? path = none := by
  rcases path with _ | ⟨_ | _, _⟩ <;> rfl

/-- A metadata value has its keys in the order of the value that it is read from.  The tag decides
what a value holds; only below maps and lists a path goes on. -/
theorem MetaValue.keysAt?_of_ofJson (path : List MetaStep) {v : Json} {m : MetaValue}
    (hv : v.Valid) (h : MetaValue.ofJson v = .ok m) :
    v.contents.keysAt? path = m.keysAt? path := by
  have hform := MetaValue.ofJson_eq_ok_iff.1 h
  cases m with
  | map entries =>
    obtain ⟨htag, x, hx, hread, hxvalid⟩ := parts_of_isNode hv hform
    obtain ⟨members, rfl, hkeys⟩ := keysAt?_keyed hxvalid hread path
      fun k rest _ _ _ hvalid h => keysAt?_of_ofJson rest hvalid h
    have hcontents : v.contents = .keyed members := by
      rw [contents, hx]
      exact if_pos htag
    rw [hcontents, hkeys]
  | list values =>
    obtain ⟨htag, x, hx, ⟨xs, rfl, hvalues⟩, hxvalid⟩ := parts_of_isNode hv hform
    have hcontents : v.contents = .listed xs := by
      rw [contents, hx]
      exact if_pos htag
    rw [hcontents]
    rcases path with _ | ⟨k | i, rest⟩
    · rfl
    · rfl
    · simp only [Contents.keysAt?, keysAt?]
      rcases getElem?_of_forall₂ hvalues i with ⟨hnone, hnone'⟩ | ⟨m, x, hm, hx, hread⟩
      · rw [hnone, hnone']
        rfl
      · rw [hm, hx]
        have hxvalid : x.Valid := by
          cases hxvalid with
          | arr h => exact h x (List.mem_of_getElem? hx)
        exact keysAt?_of_ofJson rest hxvalid hread
  | bool | str | inlines | blocks =>
    have htag := (parts_of_isNode hv hform).1
    rw [contents_of_tag htag (by decide) (by decide), keysAt?_leaf]
    rcases path with _ | ⟨_ | _, _⟩ <;> rfl
termination_by path.length

/-- A document has its keys in the order of the value that it is read from. -/
theorem Document.keysAt?_of_ofJson {v : Json} (hv : v.Valid) {d : Document}
    (h : Document.ofJson v = .ok d) (path : List MetaStep) :
    v.metaKeysAt? path = d.keysAt? path := by
  obtain ⟨fields, rfl, hfields⟩ := Document.ofJson_eq_ok_iff.1 h
  obtain ⟨hascending, hvalid⟩ : Ascending fields ∧ ∀ m ∈ fields, m.2.Valid := by
    cases hv with
    | obj hkeys hmembers => exact ⟨hkeys, hmembers⟩
  obtain ⟨x, hx, hread⟩ :=
    hfields ("meta", (MetaValue.ofJsonEntries · = .ok d.metadata)) (by simp)
  obtain ⟨members, rfl, hkeys⟩ := keysAt?_keyed (hvalid _ (mem_of_member? hx)) hread path
    fun _ rest _ _ _ hvalid h => MetaValue.keysAt?_of_ofJson rest hvalid h
  rw [metaKeysAt?, documentContents, last?_of_ascending hascending, hx]
  exact hkeys

/-- The value of a document has the keys of its metadata, whatever blocks it has. -/
theorem Document.documentContents_toJson (d : Document) :
    d.toJson.documentContents = .keyed (canonical (MetaValue.toJsonEntries d.metadata)) :=
  rfl

/-- A document is written with the keys in the order in which it has them, and so is a document
with other blocks. -/
theorem Document.metaKeysAt?_toJson {d d' : Document} (hd : d.WellFormed)
    (hmetadata : d'.metadata = d.metadata) (path : List MetaStep) :
    d'.toJson.metaKeysAt? path = d.keysAt? path := by
  have hread : Document.ofJson d.toJson = .ok d :=
    (ofJson_eq_ok_iff_of_valid d.written_toJson.valid).2 ⟨d.represents_toJson, hd⟩
  rw [← keysAt?_of_ofJson d.written_toJson.valid hread, metaKeysAt?, metaKeysAt?,
    documentContents_toJson, documentContents_toJson, hmetadata]

end Reading

/-! ## Keys from text to text -/

namespace Filter

open Json (Legible Spells)

variable {σ : Type}

/-- The bytes of a document spell a value, in canonical form of which the document has its
keys. -/
theorem exists_spells_of_ofBytes {input : List UInt8} {d : Document}
    (h : Document.ofBytes input = .ok d) :
    ∃ text source, Utf8.decode input = .ok text ∧ Spells text source ∧
      ∀ path, d.keysAt? path = (source.metaKeysAt? path).map Json.sortKeys := by
  obtain ⟨text, v, hdecode, hparse, hdocument⟩ := Document.ofBytes_eq_ok_iff.1 h
  obtain ⟨source, hspells, -, rfl⟩ := Json.exists_spells_of_parse? hparse
  refine ⟨text, source, hdecode, hspells, fun path => ?_⟩
  rw [← Document.keysAt?_of_ofJson (Json.valid_of_parse? hparse) hdocument path,
    Json.metaKeysAt?_sorted]

/-- A text that is read spells a value, and the document has maps where that has them in its
metadata, at every depth.  A map whose keys are distinct has the same keys as in the text, but by
code point: they stand in the order of the text exactly if the text lists them by code point.  A
run of the filter that succeeds writes the keys in the order in which the document has them. -/
theorem keys_of_run_expand (options : Options) (converter : Converter (StateM σ))
    (baseDir : String) {input : List UInt8} {d : Document}
    (hread : Document.ofBytes input = .ok d) :
    ∃ text source, Utf8.decode input = .ok text ∧ Spells text source ∧
      (∀ path, (d.keysAt? path).isSome = (source.metaKeysAt? path).isSome) ∧
      (∀ path keys, source.metaKeysAt? path = some keys → keys.Nodup →
        ∃ sorted, d.keysAt? path = some sorted ∧ sorted.Perm keys ∧ sorted.Pairwise (· < ·) ∧
          (sorted = keys ↔ keys.Pairwise (· < ·))) ∧
      ∀ (sink after : Sink) (s s' : σ),
        StateT.run (run (Document.expand options converter baseDir) input sink) s =
          ((.ok (), after), s') →
        ∃ written : Json, after.received = sink.received ++ Utf8.encode written.render ∧
          ∀ path, written.metaKeysAt? path = d.keysAt? path := by
  obtain ⟨text, source, hdecode, hspells, hkeys⟩ := exists_spells_of_ofBytes hread
  refine ⟨text, source, hdecode, hspells, fun path => ?_, fun path keys hpath hnodup => ?_,
    fun sink after s s' hrun => ?_⟩
  · rw [hkeys, Option.isSome_map]
  · obtain ⟨hperm, hiff⟩ := Json.perm_sortKeys hnodup
    refine ⟨Json.sortKeys keys, ?_, hperm, Json.pairwise_sortKeys keys, hiff⟩
    rw [hkeys, hpath, Option.map_some]
  · obtain ⟨d', htransformed, hwrite⟩ := run_eq_ok_iff.1 hrun
    obtain ⟨d₀, hinput, hexpand⟩ := transformed_eq_ok_iff.1 htransformed
    obtain rfl : d = d₀ := Except.ok.inj (hread.symm.trans hinput)
    have hmetadata : d'.metadata = d.metadata := by
      have hgives : GivesOnly (fun d' : Document => d'.metadata = d.metadata)
          (d.expand options converter baseDir) :=
        GivesOnly.asserts.map (.trivial _) fun _ _ => rfl
      exact hgives s d' s' hexpand
    exact ⟨d'.toJson, Sink.received_writeAll hwrite,
      Document.metaKeysAt?_toJson (Document.wellFormed_of_ofBytes hread) hmetadata⟩

/-- The text of a map in a list is read and written with the keys in order. -/
theorem keys_of_run_expand_map :
    let d : Document :=
      ⟨[1, 17], [("list", .list [.map [("a", .bool true), ("b", .bool true)]])], [.null]⟩
    let converter : Converter (StateM Nat) := fun _ n => (.error (.notFound ""), n + 1)
    let sink := Sink.upTo none 7
    let after := (sink.writeAll d.toBytes).1
    let path : List MetaStep := [.key "list", .index 0]
    Document.ofBytes d.toBytes = .ok d ∧ d.keysAt? path = some ["a", "b"] ∧
      (∃ text source, Utf8.decode d.toBytes = .ok text ∧ Spells text source ∧
        (source.metaKeysAt? path).isSome = true) ∧
      StateT.run (run (Document.expand {} converter "") d.toBytes sink) 0 = ((.ok (), after), 0) ∧
      ∃ written : Json, after.received = Utf8.encode written.render ∧
        written.metaKeysAt? path = some ["a", "b"] := by
  intro d converter sink after path
  have hread : Document.ofBytes d.toBytes = .ok d :=
    Document.ofBytes_toBytes_of_shallow ⟨⟨[], rfl⟩, by decide, by decide⟩ (by decide) (by decide)
  have hkeys : d.keysAt? path = some ["a", "b"] := rfl
  have hexpand : StateT.run (d.expand {} converter "").run 0 = (.ok d, 0) := by cbv
  have hrun : StateT.run (run (Document.expand {} converter "") d.toBytes sink) 0 =
      ((.ok (), after), 0) :=
    run_eq_ok_iff.2 ⟨d, transformed_eq_ok_iff.2 ⟨d, hread, hexpand⟩,
      Sink.writeAll_unlimited rfl d.toBytes⟩
  obtain ⟨text, source, hdecode, hspells, hsome, -, hwritten⟩ :=
    keys_of_run_expand {} converter "" hread
  obtain ⟨written, hreceived, hwrittenKeys⟩ := hwritten sink after 0 0 hrun
  refine ⟨hread, hkeys, ⟨text, source, hdecode, hspells, ?_⟩, hrun, written, hreceived, ?_⟩
  · rw [← hsome, hkeys]
    rfl
  · rw [hwrittenKeys, hkeys]

/-- The text of a document lists two keys in falling order; the document that is read from it has
them in rising order. -/
theorem keys_of_falling_text :
    let draft : Json := .obj [("c", .bool true), ("t", .str "MetaBool")]
    let source : Json := .obj [("blocks", .arr []), ("meta", .obj [("b", draft), ("a", draft)]),
      ("pandoc-api-version", .arr [.num (.int 1), .num (.int 17)])]
    let d : Document := ⟨[1, 17], [("a", .bool true), ("b", .bool true)], []⟩
    Spells source.render source ∧ source.metaKeysAt? [] = some ["b", "a"] ∧
      Document.ofBytes (Utf8.encode source.render) = .ok d ∧ d.keysAt? [] = some ["a", "b"] ∧
      ["b", "a"].Nodup ∧ d.keysAt? [] ≠ source.metaKeysAt? [] := by
  intro draft source d
  have hdraft : draft.Scannable := Json.scannable_obj (by simp)
  have hmeta : (Json.obj [("b", draft), ("a", draft)]).Scannable :=
    Json.scannable_obj (by simp [hdraft])
  have hversion : (Json.arr [.num (.int 1), .num (.int 17)]).Scannable := by
    have hone : Legible (.int 1) := Json.legible_int (by decide) (by decide)
    have hseventeen : Legible (.int 17) := Json.legible_int (by decide) (by decide)
    exact Json.scannable_arr (by simp [Json.scannable_num, hone, hseventeen])
  have hspells : Spells source.render source := by
    refine (Json.scannable_obj ?_).spells_render
    simp [hmeta, hversion, Json.scannable_arr]
  have hrepresents : source.sorted.Represents d := by cbv
  have hread : Document.ofBytes (Utf8.encode source.render) = .ok d :=
    Document.ofBytes_encode_of_tokens hspells rfl hrepresents ⟨⟨[], rfl⟩, by decide, by decide⟩
  exact ⟨hspells, rfl, hread, rfl, by decide, by decide⟩

end Filter

end Transclude
