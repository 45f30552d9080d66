import Mathlib.Data.List.Forall2
import Transclude.Proofs.Json.Members
import Transclude.Wire.Encode

/-!
# The grammar of the written form

A shape says what stands in a place: a leaf, an array, an object.  What an object may hold beside
the members that its place uses is of no account, and neither is whether a width is written as
an integer or as a double; the normal form of a value has nothing of the kind left.

Main results:

- Definitions {lit}`Shape`, {lit}`Kind.contents`: the grammar, tag by tag.
- Definition {lit}`Json.Valid`: the values that there are; a computation decides which they are.
- Definition {lit}`Json.normal`: the normal form of a value in a place.
- Definition {lit}`Json.Represents`: the values that stand for a document.
- Theorem {lit}`Json.normalFields_eq_iff`: a normal form has the members that its place uses,
  and each of them is normal.
- Theorem {lit}`Json.normal_node_eq_iff`: with a tag of its kind, a node is a record.
-/

namespace Transclude

/-! ## Shapes -/

/-- The kinds of objects that have a tag. -/
inductive Kind where
  | block
  | inline
  | metaValue
  | quoteKind
  | mathKind
  | citationMode
  | numberStyle
  | numberDelimiter
  | alignment
  deriving DecidableEq, Repr, Inhabited

/-- What stands in a place of the written form. -/
inductive Shape where
  | text
  | truth
  /-- An integer of 64 bits with a sign. -/
  | integer
  /-- A natural number of 32 bits. -/
  | small
  /-- A number, whose value as a double counts. -/
  | width
  | list (element : Shape)
  /-- An array of fixed length. -/
  | tuple (components : List Shape)
  /-- An object of which certain members are used. -/
  | record (fields : List (String × Shape))
  /-- An object of which all members are used. -/
  | dictionary (value : Shape)
  /-- An object whose tag decides which content it has. -/
  | node (kind : Kind)
  deriving Inhabited

namespace Shape

/-- Running text. -/
def inlines : Shape :=
  .list (.node .inline)

/-- A sequence of blocks. -/
def blocks : Shape :=
  .list (.node .block)

/-- The items of a list, or the cells of a row. -/
def items : Shape :=
  .list blocks

/-- An identifier, classes and pairs. -/
def attr : Shape :=
  .tuple [.text, .list .text, .list (.tuple [.text, .text])]

/-- An address and a title. -/
def target : Shape :=
  .tuple [.text, .text]

/-- Start, style and delimiter of an ordered list. -/
def numbering : Shape :=
  .tuple [.integer, .node .numberStyle, .node .numberDelimiter]

/-- A term with its definitions. -/
def definition : Shape :=
  .tuple [inlines, items]

/-- One work cited. -/
def citation : Shape :=
  .record [("citationHash", .integer), ("citationId", .text),
    ("citationMode", .node .citationMode), ("citationNoteNum", .integer),
    ("citationPrefix", inlines), ("citationSuffix", inlines)]

/-- The entries of metadata. -/
def entries : Shape :=
  .dictionary (.node .metaValue)

/-- A document. -/
def document : Shape :=
  .record [("blocks", blocks), ("meta", entries), ("pandoc-api-version", .list .small)]

end Shape

namespace Kind

/-- The tags of a kind, each with the shape of the content that it asks for. -/
def contents : Kind → List (String × Option Shape)
  | .block =>
    [("Plain", some .inlines), ("Para", some .inlines), ("LineBlock", some (.list .inlines)),
      ("CodeBlock", some (.tuple [.attr, .text])), ("RawBlock", some (.tuple [.text, .text])),
      ("BlockQuote", some .blocks), ("OrderedList", some (.tuple [.numbering, .items])),
      ("BulletList", some .items), ("DefinitionList", some (.list .definition)),
      ("Header", some (.tuple [.integer, .attr, .inlines])), ("HorizontalRule", none),
      ("Table", some (.tuple [.inlines, .list (.node .alignment), .list .width, .items,
        .list .items])),
      ("Div", some (.tuple [.attr, .blocks])), ("Null", none)]
  | .inline =>
    [("Str", some .text), ("Emph", some .inlines), ("Strong", some .inlines),
      ("Strikeout", some .inlines), ("Superscript", some .inlines),
      ("Subscript", some .inlines), ("SmallCaps", some .inlines),
      ("Quoted", some (.tuple [.node .quoteKind, .inlines])),
      ("Cite", some (.tuple [.list .citation, .inlines])),
      ("Code", some (.tuple [.attr, .text])), ("Space", none), ("SoftBreak", none),
      ("LineBreak", none), ("Math", some (.tuple [.node .mathKind, .text])),
      ("RawInline", some (.tuple [.text, .text])),
      ("Link", some (.tuple [.attr, .inlines, .target])),
      ("Image", some (.tuple [.attr, .inlines, .target])), ("Note", some .blocks),
      ("Span", some (.tuple [.attr, .inlines]))]
  | .metaValue =>
    [("MetaMap", some .entries), ("MetaList", some (.list (.node .metaValue))),
      ("MetaBool", some .truth), ("MetaString", some .text), ("MetaInlines", some .inlines),
      ("MetaBlocks", some .blocks)]
  | .quoteKind => [("SingleQuote", none), ("DoubleQuote", none)]
  | .mathKind => [("InlineMath", none), ("DisplayMath", none)]
  | .citationMode => [("AuthorInText", none), ("SuppressAuthor", none), ("NormalCitation", none)]
  | .numberStyle =>
    [("DefaultStyle", none), ("Example", none), ("Decimal", none), ("LowerRoman", none),
      ("UpperRoman", none), ("LowerAlpha", none), ("UpperAlpha", none)]
  | .numberDelimiter =>
    [("DefaultDelim", none), ("Period", none), ("OneParen", none), ("TwoParens", none)]
  | .alignment =>
    [("AlignLeft", none), ("AlignRight", none), ("AlignCenter", none), ("AlignDefault", none)]

end Kind

/-- The members that a node with the given content uses. -/
def Shape.nodeFields : Option Shape → List (String × Shape)
  | none => [("t", .text)]
  | some content => [("c", content), ("t", .text)]

/-- The members that an object uses; those of a node depend on its tag. -/
def Shape.fields? (s : Shape) (members : List (String × Json)) :
    Option (List (String × Shape)) :=
  match s with
  | .record fields => some fields
  | .node kind =>
    match Json.member? "t" members with
    | some (.str tag) => (Json.member? tag kind.contents).map nodeFields
    | _ => none
  | _ => none

/-! ## Values and their normal form -/

/-- The value of a number as a double. -/
def Number.toDouble : Number → Binary64
  | .int n => .ofInt n
  | .double x => x

namespace Json

/-- The values that there are: the members of an object have ascending keys, a double is finite,
and an integer fits 64 bits, with a sign or without. -/
inductive Valid : Json → Prop where
  | null : Valid .null
  | bool (b : Bool) : Valid (.bool b)
  | int {n : Int} (hlow : -0x8000000000000000 ≤ n) (hhigh : n < 0x10000000000000000) :
    Valid (.num (.int n))
  | double {x : Binary64} (h : x.isFinite = true) : Valid (.num (.double x))
  | str (s : String) : Valid (.str s)
  | arr {xs : List Json} (h : ∀ x ∈ xs, Valid x) : Valid (.arr xs)
  | obj {members : List (String × Json)} (hkeys : Ascending members)
    (h : ∀ m ∈ members, Valid m.2) : Valid (.obj members)

mutual

/-- Whether a value is one of those that there are. -/
def isValid : Json → Bool
  | .null => true
  | .bool _ => true
  | .num (.int n) => -0x8000000000000000 ≤ n && n < 0x10000000000000000
  | .num (.double x) => x.isFinite
  | .str _ => true
  | .arr xs => isValidList xs
  | .obj members => decide (Ascending members) && isValidMembers members

/-- Whether the elements of an array are values that there are. -/
def isValidList : List Json → Bool
  | [] => true
  | x :: xs => isValid x && isValidList xs

/-- Whether the members of an object are values that there are. -/
def isValidMembers : List (String × Json) → Bool
  | [] => true
  | (_, x) :: rest => isValid x && isValidMembers rest

end

mutual

/-- The values that there are can be told from the others. -/
theorem isValid_iff : (v : Json) → (v.isValid = true ↔ v.Valid)
  | .null => ⟨fun _ => .null, fun _ => rfl⟩
  | .bool b => ⟨fun _ => .bool b, fun _ => rfl⟩
  | .num (.int n) => by
    rw [isValid, Bool.and_eq_true, decide_eq_true_iff, decide_eq_true_iff]
    exact ⟨fun h => .int h.1 h.2, fun | .int hlow hhigh => ⟨hlow, hhigh⟩⟩
  | .num (.double x) => ⟨fun h => .double h, fun | .double h => h⟩
  | .str s => ⟨fun _ => .str s, fun _ => rfl⟩
  | .arr xs => by
    rw [isValid, isValidList_iff xs]
    exact ⟨fun h => .arr h, fun | .arr h => h⟩
  | .obj members => by
    rw [isValid, Bool.and_eq_true, decide_eq_true_iff, isValidMembers_iff members]
    exact ⟨fun h => .obj h.1 h.2, fun | .obj hkeys h => ⟨hkeys, h⟩⟩

/-- So can the arrays whose elements are such values. -/
theorem isValidList_iff : (xs : List Json) → (isValidList xs = true ↔ ∀ x ∈ xs, Valid x)
  | [] => by simp [isValidList]
  | x :: xs => by
    rw [isValidList, Bool.and_eq_true, isValid_iff x, isValidList_iff xs, List.forall_mem_cons]

/-- So can the objects whose members are such values. -/
theorem isValidMembers_iff : (members : List (String × Json)) →
    (isValidMembers members = true ↔ ∀ m ∈ members, Valid m.2)
  | [] => by simp [isValidMembers]
  | (key, x) :: rest => by
    rw [isValidMembers, Bool.and_eq_true, isValid_iff x, isValidMembers_iff rest,
      List.forall_mem_cons]

end

instance : DecidablePred Valid :=
  fun v => decidable_of_iff (v.isValid = true) (isValid_iff v)

mutual

/-- The normal form of a value: members that its place does not use are left out, and a width
is a double.  A value that is nothing like its place is its own normal form. -/
def normal (s : Shape) : Json → Json
  | .num n =>
    match s with
    | .width => .num (.double n.toDouble)
    | _ => .num n
  | .arr xs =>
    match s with
    | .list element => .arr (normalList element xs)
    | .tuple components => .arr (normalTuple components xs)
    | _ => .arr xs
  | .obj members =>
    match s with
    | .dictionary value => .obj (normalEntries value members)
    | s =>
      match s.fields? members with
      | some fields => .obj (normalFields fields members)
      | none => .obj members
  | v => v
termination_by structural v => v

/-- The normal forms of the elements of a list. -/
def normalList (s : Shape) : List Json → List Json
  | [] => []
  | x :: xs => normal s x :: normalList s xs
termination_by structural xs => xs

/-- The normal forms of the components of a tuple; surplus ones stay as they are. -/
def normalTuple : List Shape → List Json → List Json
  | s :: ss, x :: xs => normal s x :: normalTuple ss xs
  | _, xs => xs
termination_by structural _ xs => xs

/-- The normal forms of the members that are used. -/
def normalFields (fields : List (String × Shape)) :
    List (String × Json) → List (String × Json)
  | [] => []
  | (key, x) :: rest =>
    match member? key fields with
    | some s => (key, normal s x) :: normalFields fields rest
    | none => normalFields fields rest
termination_by structural members => members

/-- The normal forms of all members. -/
def normalEntries (s : Shape) : List (String × Json) → List (String × Json)
  | [] => []
  | (key, x) :: rest => (key, normal s x) :: normalEntries s rest
termination_by structural members => members

end

/-- A value stands for a document if its normal form is the value of the document. -/
def Represents (v : Json) (d : Document) : Prop :=
  v.normal .document = d.toJson

/-! ## Members of a normal form -/

/-- Whatever stands in the place of a string is normal. -/
theorem normal_text (v : Json) : normal .text v = v := by
  cases v <;> rfl

/-- Whatever stands in the place of a truth value is normal. -/
theorem normal_truth (v : Json) : normal .truth v = v := by
  cases v <;> rfl

/-- Whatever stands in the place of an integer is normal. -/
theorem normal_integer (v : Json) : normal .integer v = v := by
  cases v <;> rfl

/-- Whatever stands in the place of a small number is normal. -/
theorem normal_small (v : Json) : normal .small v = v := by
  cases v <;> rfl

/-- A normal form gives, for a key that is used, the normal form of what the value gives. -/
theorem member?_normalFields (fields : List (String × Shape)) (members : List (String × Json))
    (key : String) :
    member? key (normalFields fields members) =
      (member? key fields).bind fun s => (member? key members).map (normal s) := by
  induction members with
  | nil => cases h : member? key fields <;> simp [normalFields, member?]
  | cons m rest ih =>
    obtain ⟨k, x⟩ := m
    by_cases hk : k = key
    · subst hk
      cases h : member? k fields with
      | none =>
        rw [h, Option.bind_none] at ih
        simp only [normalFields, h, ih, Option.bind_none]
      | some s => simp only [normalFields, h, member?, if_pos, Option.bind_some, Option.map_some]
    · cases h : member? k fields with
      | none => simp only [normalFields, h, ih, member?, if_neg hk]
      | some s => simp only [normalFields, h, ih, member?, if_neg hk]

/-- The members of a normal form are among the members of the value, by their keys. -/
theorem mem_of_mem_normalFields {fields : List (String × Shape)}
    {members : List (String × Json)} {m : String × Json}
    (h : m ∈ normalFields fields members) : ∃ m' ∈ members, m'.1 = m.1 := by
  induction members with
  | nil => cases h
  | cons m' rest ih =>
    obtain ⟨k, x⟩ := m'
    rw [normalFields] at h
    split at h
    · rcases List.mem_cons.1 h with rfl | h
      · exact ⟨(k, x), List.mem_cons_self, rfl⟩
      · obtain ⟨m', hm', heq⟩ := ih h
        exact ⟨m', List.mem_cons_of_mem _ hm', heq⟩
    · obtain ⟨m', hm', heq⟩ := ih h
      exact ⟨m', List.mem_cons_of_mem _ hm', heq⟩

/-- Leaving out members keeps the others in order. -/
theorem ascending_normalFields (fields : List (String × Shape)) {members : List (String × Json)}
    (h : Ascending members) : Ascending (normalFields fields members) := by
  induction members with
  | nil => exact h
  | cons m rest ih =>
    obtain ⟨k, x⟩ := m
    obtain ⟨hhead, hrest⟩ := List.pairwise_cons.1 h
    rw [normalFields]
    split
    · refine List.pairwise_cons.2 ⟨fun m' hm' => ?_, ih hrest⟩
      obtain ⟨m, hm, heq⟩ := mem_of_mem_normalFields hm'
      exact heq ▸ hhead m hm
    · exact ih hrest

/-- All members of a dictionary are used. -/
theorem keys_normalEntries (s : Shape) (members : List (String × Json)) :
    (normalEntries s members).map Prod.fst = members.map Prod.fst := by
  induction members with
  | nil => rfl
  | cons m rest ih => rw [normalEntries, List.map_cons, List.map_cons, ih]

/-- A normal form has the members that its place uses, and each of them is normal. -/
theorem normalFields_eq_iff {fields : List (String × Shape)} {members ws : List (String × Json)}
    (hfields : Ascending fields) (hmembers : Ascending members)
    (hkeys : fields.map Prod.fst = ws.map Prod.fst) :
    normalFields fields members = ws ↔
      List.Forall₂ (fun f w => ∃ x, member? f.1 members = some x ∧ normal f.2 x = w.2)
        fields ws := by
  have hws : Ascending ws := ascending_iff_keys.2 (hkeys ▸ ascending_iff_keys.1 hfields)
  have hlookup : normalFields fields members = ws ↔ ∀ key,
      ((member? key fields).bind fun s => (member? key members).map (normal s)) =
        member? key ws := by
    refine ⟨fun h key => ?_, fun h => ?_⟩
    · rw [← h, member?_normalFields]
    · apply (ascending_normalFields fields hmembers).ext hws
      intro key
      rw [member?_normalFields, h]
  rw [hlookup]
  clear hlookup
  -- Field by field; a key is met at most once, since the keys of both lists ascend.
  induction fields generalizing ws with
  | nil =>
    cases ws with
    | nil => simp [member?]
    | cons w ws => cases hkeys
  | cons f fields ih =>
    cases ws with
    | nil => cases hkeys
    | cons w ws =>
      obtain ⟨k, s⟩ := f
      obtain ⟨k', y⟩ := w
      obtain ⟨rfl, hrest⟩ : k = k' ∧ fields.map Prod.fst = ws.map Prod.fst := by
        simpa using hkeys
      obtain ⟨hf, hfields⟩ := List.pairwise_cons.1 hfields
      obtain ⟨hw, hws⟩ := List.pairwise_cons.1 hws
      have htail := ih hfields hrest hws
      rw [List.forall₂_cons]
      constructor
      · intro h
        refine ⟨by simpa [member?] using h k, htail.1 fun key => ?_⟩
        by_cases hk : k = key
        · subst hk
          rw [member?_eq_none_of_lt hf, member?_eq_none_of_lt hw, Option.bind_none]
        · simpa only [member?, if_neg hk] using h key
      · rintro ⟨⟨x, hx, hnormal⟩, h⟩ key
        by_cases hk : k = key
        · subst hk
          simp only [member?, if_pos, hx, Option.bind_some, Option.map_some, hnormal]
        · simpa only [member?, if_neg hk] using htail.2 h key

/-! ## Nodes -/

/-- The tag of a node is used, and it is written as it stands. -/
theorem member?_tag_normalFields (content : Option Shape) (members : List (String × Json)) :
    member? "t" (normalFields (Shape.nodeFields content) members) = member? "t" members := by
  have htext : member? "t" (Shape.nodeFields content) = some .text := by
    cases content <;> rfl
  rw [member?_normalFields, htext, Option.bind_some, funext normal_text, Option.map_id']

/-- With a tag of its kind, a node is a record. -/
theorem normal_node_eq_iff {kind : Kind} {tag : String} {content : Option Shape}
    (htag : member? tag kind.contents = some content) {ws : List (String × Json)}
    (hws : member? "t" ws = some (.str tag)) (v : Json) :
    normal (.node kind) v = .obj ws ↔
      normal (.record (Shape.nodeFields content)) v = .obj ws := by
  cases v with
  | obj members =>
    have hfields : member? "t" members = some (.str tag) →
        Shape.fields? (.node kind) members = some (Shape.nodeFields content) := by
      intro h
      simp only [Shape.fields?, h, htag, Option.map_some]
    have hrecord : normal (.record (Shape.nodeFields content)) (.obj members) =
      .obj (normalFields (Shape.nodeFields content) members) := rfl
    rw [hrecord]
    constructor
    · intro h
      suffices htag' : member? "t" members = some (.str tag) by
        simpa only [normal, hfields htag'] using h
      cases hfields' : Shape.fields? (.node kind) members with
      | none =>
        simp only [normal, hfields', obj.injEq] at h
        rw [h, hws]
      | some fields =>
        obtain ⟨content', rfl⟩ : ∃ content', fields = Shape.nodeFields content' := by
          simp only [Shape.fields?] at hfields'
          split at hfields'
          · obtain ⟨content', -, hcontent'⟩ := Option.map_eq_some_iff.1 hfields'
            exact ⟨content', hcontent'.symm⟩
          · cases hfields'
        simp only [normal, hfields', obj.injEq] at h
        rw [← member?_tag_normalFields content' members, h, hws]
    · intro h
      have htag' : member? "t" members = some (.str tag) := by
        rw [← member?_tag_normalFields content members, obj.inj h, hws]
      simpa only [normal, hfields htag'] using h
  | _ => simp [normal]

end Json

end Transclude
