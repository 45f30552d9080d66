import Transclude.Proofs.Wire.Reading
import Transclude.Wire.Decode

/-!
# What reading asks for

Each reader succeeds on the values of one form: the form of its result, whose parts are what the
readers of the parts ask for.

Main results:

- Definitions {lit}`Block.Form`, {lit}`Inline.Form`, {lit}`MetaValue.Form`: the values that are
  read as a node.
- Theorems {lit}`Block.ofJson_eq_ok_iff`, {lit}`Inline.ofJson_eq_ok_iff`,
  {lit}`MetaValue.ofJson_eq_ok_iff`: reading succeeds on these values and on no others.
- Theorem {lit}`Document.ofJson_eq_ok_iff`: so does reading a document.
-/

namespace Transclude

open Reading

open Json

variable {v : Json}

/-! ## Leaves of a document -/

/-- A choice is read from the objects that are tagged with its name. -/
theorem Choice.ofJson_eq_ok_iff {α : Type} [Choice α] {a : α} :
    Choice.ofJson v = .ok a ↔ IsTagged (Named.name a) v := by
  simp only [Choice.ofJson, bind_eq_ok_iff, Prod.exists, tagAndContent_eq_ok_iff]
  constructor
  · rintro ⟨name, content, ⟨htag, -⟩, h⟩
    split at h
    · next b hname =>
      rw [← pure_eq_ok_iff.1 h, Named.name_of_ofName? hname]
      exact htag
    · cases h
  · intro htag
    refine ⟨_, _, ⟨htag, rfl⟩, ?_⟩
    rw [Named.ofName?_name]
    rfl

/-- A key-value pair is read from a pair of strings. -/
theorem Attr.pairOfJson_eq_ok_iff {p : String × String} :
    Attr.pairOfJson v = .ok p ↔ IsTuple [(· = .str p.1), (· = .str p.2)] v := by
  obtain ⟨key, value⟩ := p
  simp only [Attr.pairOfJson, bind_eq_ok_iff, pure_eq_ok_iff, Prod.exists, Subtype.exists,
    exists_pair_iff, asString_eq_ok_iff]
  simp [isTuple_pair_iff]

/-- An attribute is read from a triple of identifier, classes and pairs. -/
theorem Attr.ofJson_eq_ok_iff {attr : Attr} :
    Attr.ofJson v = .ok attr ↔
      IsTuple [(· = .str attr.id), IsList (fun c x => x = .str c) attr.classes,
        IsList (fun p x => Attr.pairOfJson x = .ok p) attr.pairs] v := by
  obtain ⟨id, classes, pairs⟩ := attr
  simp only [Attr.ofJson, bind_eq_ok_iff, pure_eq_ok_iff, Prod.exists, Subtype.exists,
    exists_triple_iff, exists_elements_iff, asString_eq_ok_iff]
  simp [isTuple_triple_iff]

/-- A target is read from a pair of address and title. -/
theorem Target.ofJson_eq_ok_iff {target : Target} :
    Target.ofJson v = .ok target ↔
      IsTuple [(· = .str target.url), (· = .str target.title)] v := by
  obtain ⟨url, title⟩ := target
  simp only [Target.ofJson, bind_eq_ok_iff, pure_eq_ok_iff, Prod.exists, Subtype.exists,
    exists_pair_iff, asString_eq_ok_iff]
  simp [isTuple_pair_iff]

/-- The numbering of a list is read from a triple of start, style and delimiter. -/
theorem ListNumbering.ofJson_eq_ok_iff {numbering : ListNumbering} :
    ListNumbering.ofJson v = .ok numbering ↔
      IsTuple [(· = .int numbering.start), (Choice.ofJson · = .ok numbering.style),
        (Choice.ofJson · = .ok numbering.delimiter)] v := by
  obtain ⟨start, style, delimiter⟩ := numbering
  simp only [ListNumbering.ofJson, bind_eq_ok_iff, pure_eq_ok_iff, Prod.exists, Subtype.exists,
    exists_triple_iff, asInt_eq_ok_iff]
  simp [isTuple_triple_iff]

/-! ## Sequences -/

/-- Blocks are read from an array. -/
theorem Block.ofJsonList_eq_ok_iff {bs : List Block} :
    Block.ofJsonList v = .ok bs ↔ IsList (fun b x => Block.ofJson x = .ok b) bs v := by
  rw [Block.ofJsonList]
  exact elements_mapM_eq_ok_iff _

/-- Items and cells are read from an array. -/
theorem Block.ofJsonItems_eq_ok_iff {items : List (List Block)} :
    Block.ofJsonItems v = .ok items ↔
      IsList (fun item x => Block.ofJsonList x = .ok item) items v := by
  rw [Block.ofJsonItems]
  exact elements_mapM_eq_ok_iff _

/-- Inlines are read from an array. -/
theorem Inline.ofJsonList_eq_ok_iff {xs : List Inline} :
    Inline.ofJsonList v = .ok xs ↔ IsList (fun x y => Inline.ofJson y = .ok x) xs v := by
  rw [Inline.ofJsonList]
  exact elements_mapM_eq_ok_iff _

/-- A term with its definitions is read from a pair. -/
theorem Definition.ofJson_eq_ok_iff {term : List Inline} {definitions : List (List Block)} :
    Definition.ofJson v = .ok (.mk term definitions) ↔
      IsTuple [(Inline.ofJsonList · = .ok term), (Block.ofJsonItems · = .ok definitions)] v := by
  rw [Definition.ofJson]
  simp only [bind_eq_ok_iff, pure_eq_ok_iff, Prod.exists, Subtype.exists, exists_pair_iff]
  simp [isTuple_pair_iff]

/-- A citation is read from an object that has its six members. -/
theorem Citation.ofJson_eq_ok_iff {id : String} {before after : List Inline}
    {mode : CitationMode} {noteNumber hash : Int64} :
    Citation.ofJson v = .ok (.mk id before after mode noteNumber hash) ↔
      IsRecord [("citationHash", (· = .int hash)), ("citationId", (· = .str id)),
        ("citationMode", (Choice.ofJson · = .ok mode)),
        ("citationNoteNum", (· = .int noteNumber)),
        ("citationPrefix", (Inline.ofJsonList · = .ok before)),
        ("citationSuffix", (Inline.ofJsonList · = .ok after))] v := by
  rw [Citation.ofJson]
  simp only [bind_eq_ok_iff, pure_eq_ok_iff, object?_eq_ok_iff, isRecord_cons_iff,
    asString_eq_ok_iff, asInt_eq_ok_iff]
  constructor
  · rintro ⟨field, ⟨hv, rfl⟩, h⟩
    simp only [elim_field?_eq_ok_iff] at h
    obtain ⟨_, hid, _, hid', _, hbefore, _, hbefore', _, hafter, _, hafter', _, hmode, _, hmode',
      _, hnote, _, hnote', _, hhash, _, hhash', h⟩ := h
    cases h
    exact ⟨⟨_, hhash, hhash'⟩, ⟨_, hid, hid'⟩, ⟨_, hmode, hmode'⟩, ⟨_, hnote, hnote'⟩,
      ⟨_, hbefore, hbefore'⟩, ⟨_, hafter, hafter'⟩, hv⟩
  · rintro ⟨⟨_, hhash, hhash'⟩, ⟨_, hid, hid'⟩, ⟨_, hmode, hmode'⟩, ⟨_, hnote, hnote'⟩,
      ⟨_, hbefore, hbefore'⟩, ⟨_, hafter, hafter'⟩, hv⟩
    refine ⟨_, ⟨hv, rfl⟩, ?_⟩
    simp only [elim_field?_eq_ok_iff]
    exact ⟨_, hid, _, hid', _, hbefore, _, hbefore', _, hafter, _, hafter', _, hmode, _, hmode',
      _, hnote, _, hnote', _, hhash, _, hhash', rfl⟩

/-! ## Blocks -/

/-- The values that are read as a block. -/
def Block.Form : Block → Json → Prop
  | .plain content => IsNode "Plain" (Inline.ofJsonList · = .ok content)
  | .para content => IsNode "Para" (Inline.ofJsonList · = .ok content)
  | .lineBlock lines =>
    IsNode "LineBlock" (IsList (fun line x => Inline.ofJsonList x = .ok line) lines)
  | .codeBlock attr text =>
    IsNode "CodeBlock" (IsTuple [(Attr.ofJson · = .ok attr), (· = .str text)])
  | .rawBlock format text => IsNode "RawBlock" (IsTuple [(· = .str format), (· = .str text)])
  | .blockQuote content => IsNode "BlockQuote" (Block.ofJsonList · = .ok content)
  | .orderedList numbering items =>
    IsNode "OrderedList"
      (IsTuple [(ListNumbering.ofJson · = .ok numbering), (Block.ofJsonItems · = .ok items)])
  | .bulletList items => IsNode "BulletList" (Block.ofJsonItems · = .ok items)
  | .definitionList items =>
    IsNode "DefinitionList" (IsList (fun item x => Definition.ofJson x = .ok item) items)
  | .header level attr content =>
    IsNode "Header" (IsTuple [(· = .int level), (Attr.ofJson · = .ok attr),
      (Inline.ofJsonList · = .ok content)])
  | .horizontalRule => IsTagged "HorizontalRule"
  | .table caption alignments widths headers rows =>
    IsNode "Table" (IsTuple [(Inline.ofJsonList · = .ok caption),
      IsList (fun a x => Choice.ofJson x = .ok a) alignments,
      IsList (fun w x => ∃ n, x = .num n ∧ n.toDouble = w) widths,
      (Block.ofJsonItems · = .ok headers),
      IsList (fun row x => Block.ofJsonItems x = .ok row) rows])
  | .div attr content =>
    IsNode "Div" (IsTuple [(Attr.ofJson · = .ok attr), (Block.ofJsonList · = .ok content)])
  | .null => IsTagged "Null"

/-- A value that is read as a block has the tag of the block. -/
theorem Block.isTagged_of_ofJson {b : Block} (h : Block.ofJson v = .ok b) :
    IsTagged (Named.name b.tag) v := by
  rw [Block.ofJson] at h
  obtain ⟨⟨name, content⟩, hname, h⟩ := bind_eq_ok_iff.1 h
  obtain ⟨htag, rfl⟩ := tagAndContent_eq_ok_iff.1 hname
  dsimp only at h
  split at h
  · cases h
  · next tag hofName =>
    obtain rfl := Named.name_of_ofName? hofName
    suffices b.tag = tag by rwa [this]
    -- Whatever the parts are read as, the tag alone decides which node is made of them.
    cases tag <;> simp only [bind_eq_ok_iff, pure_eq_ok_iff] at h <;>
      (repeat obtain ⟨_, _, h⟩ := h) <;> rfl

/-- With the tag of a block, a value is read as the block if its content has the right form. -/
theorem Block.ofJson_eq_ok_iff_of_isTagged {b : Block} (htag : IsTagged (Named.name b.tag) v) :
    Block.ofJson v = .ok b ↔ b.Form v := by
  have hread : v.tagAndContent "Block" = .ok (Named.name b.tag, v.field? "c") :=
    tagAndContent_eq_ok_iff.2 ⟨htag, rfl⟩
  rw [Block.ofJson, hread, ok_bind]
  dsimp only
  rw [Named.ofName?_name]
  cases b <;>
    simp only [Block.tag, bind_eq_ok_iff, pure_eq_ok_iff, required_eq_ok_iff, Prod.exists,
      Subtype.exists, exists_pair_iff, exists_triple_iff, exists_quintuple_iff,
      exists_elements_iff, asString_eq_ok_iff, asInt_eq_ok_iff, asDouble_eq_ok_iff] <;>
    simp only [Block.tag, Named.name, BlockTag.name] at htag <;>
    simp [Block.Form, isNode_iff, isTuple_pair_iff, isTuple_triple_iff, isTuple_quintuple_iff,
      htag]

/-- A block is read from the values of its form. -/
theorem Block.ofJson_eq_ok_iff {b : Block} : Block.ofJson v = .ok b ↔ b.Form v := by
  have htag : b.Form v → IsTagged (Named.name b.tag) v := by
    intro h
    cases b with
    | horizontalRule | null => exact h
    | _ => exact (isNode_iff.1 h).1
  constructor
  · intro h
    exact (ofJson_eq_ok_iff_of_isTagged (isTagged_of_ofJson h)).1 h
  · intro h
    exact (ofJson_eq_ok_iff_of_isTagged (htag h)).2 h

/-! ## Inlines -/

/-- The values that are read as an inline. -/
def Inline.Form : Inline → Json → Prop
  | .str text => IsNode "Str" (· = .str text)
  | .emph content => IsNode "Emph" (Inline.ofJsonList · = .ok content)
  | .strong content => IsNode "Strong" (Inline.ofJsonList · = .ok content)
  | .strikeout content => IsNode "Strikeout" (Inline.ofJsonList · = .ok content)
  | .superscript content => IsNode "Superscript" (Inline.ofJsonList · = .ok content)
  | .subscript content => IsNode "Subscript" (Inline.ofJsonList · = .ok content)
  | .smallCaps content => IsNode "SmallCaps" (Inline.ofJsonList · = .ok content)
  | .quoted kind content =>
    IsNode "Quoted" (IsTuple [(Choice.ofJson · = .ok kind), (Inline.ofJsonList · = .ok content)])
  | .cite citations content =>
    IsNode "Cite" (IsTuple [IsList (fun c x => Citation.ofJson x = .ok c) citations,
      (Inline.ofJsonList · = .ok content)])
  | .code attr text => IsNode "Code" (IsTuple [(Attr.ofJson · = .ok attr), (· = .str text)])
  | .space => IsTagged "Space"
  | .softBreak => IsTagged "SoftBreak"
  | .lineBreak => IsTagged "LineBreak"
  | .math kind text => IsNode "Math" (IsTuple [(Choice.ofJson · = .ok kind), (· = .str text)])
  | .rawInline format text => IsNode "RawInline" (IsTuple [(· = .str format), (· = .str text)])
  | .link attr content target =>
    IsNode "Link" (IsTuple [(Attr.ofJson · = .ok attr), (Inline.ofJsonList · = .ok content),
      (Target.ofJson · = .ok target)])
  | .image attr content target =>
    IsNode "Image" (IsTuple [(Attr.ofJson · = .ok attr), (Inline.ofJsonList · = .ok content),
      (Target.ofJson · = .ok target)])
  | .note content => IsNode "Note" (Block.ofJsonList · = .ok content)
  | .span attr content =>
    IsNode "Span" (IsTuple [(Attr.ofJson · = .ok attr), (Inline.ofJsonList · = .ok content)])

/-- A value that is read as an inline has the tag of the inline. -/
theorem Inline.isTagged_of_ofJson {x : Inline} (h : Inline.ofJson v = .ok x) :
    IsTagged (Named.name x.tag) v := by
  rw [Inline.ofJson] at h
  obtain ⟨⟨name, content⟩, hname, h⟩ := bind_eq_ok_iff.1 h
  obtain ⟨htag, rfl⟩ := tagAndContent_eq_ok_iff.1 hname
  dsimp only at h
  split at h
  · cases h
  · next tag hofName =>
    obtain rfl := Named.name_of_ofName? hofName
    suffices x.tag = tag by rwa [this]
    cases tag <;> simp only [bind_eq_ok_iff, pure_eq_ok_iff] at h <;>
      (repeat obtain ⟨_, _, h⟩ := h) <;> rfl

/-- With the tag of an inline, a value is read as the inline if its content has the right
form. -/
theorem Inline.ofJson_eq_ok_iff_of_isTagged {x : Inline}
    (htag : IsTagged (Named.name x.tag) v) : Inline.ofJson v = .ok x ↔ x.Form v := by
  have hread : v.tagAndContent "Inline" = .ok (Named.name x.tag, v.field? "c") :=
    tagAndContent_eq_ok_iff.2 ⟨htag, rfl⟩
  rw [Inline.ofJson, hread, ok_bind]
  dsimp only
  rw [Named.ofName?_name]
  cases x <;>
    simp only [Inline.tag, bind_eq_ok_iff, pure_eq_ok_iff, required_eq_ok_iff, Prod.exists,
      Subtype.exists, exists_pair_iff, exists_triple_iff, exists_elements_iff,
      asString_eq_ok_iff] <;>
    simp only [Inline.tag, Named.name, InlineTag.name] at htag <;>
    simp [Inline.Form, isNode_iff, isTuple_pair_iff, isTuple_triple_iff, htag]

/-- An inline is read from the values of its form. -/
theorem Inline.ofJson_eq_ok_iff {x : Inline} : Inline.ofJson v = .ok x ↔ x.Form v := by
  have htag : x.Form v → IsTagged (Named.name x.tag) v := by
    intro h
    cases x with
    | space | softBreak | lineBreak => exact h
    | _ => exact (isNode_iff.1 h).1
  constructor
  · intro h
    exact (ofJson_eq_ok_iff_of_isTagged (isTagged_of_ofJson h)).1 h
  · intro h
    exact (ofJson_eq_ok_iff_of_isTagged (htag h)).2 h

/-! ## Metadata -/

/-- The values that are read as a metadata value. -/
def MetaValue.Form : MetaValue → Json → Prop
  | .map entries => IsNode "MetaMap" (MetaValue.ofJsonEntries · = .ok entries)
  | .list values => IsNode "MetaList" (IsList (fun m x => MetaValue.ofJson x = .ok m) values)
  | .bool b => IsNode "MetaBool" (· = .bool b)
  | .str s => IsNode "MetaString" (· = .str s)
  | .inlines content => IsNode "MetaInlines" (Inline.ofJsonList · = .ok content)
  | .blocks content => IsNode "MetaBlocks" (Block.ofJsonList · = .ok content)

/-- A value that is read as a metadata value has the tag of that. -/
theorem MetaValue.isTagged_of_ofJson {m : MetaValue} (h : MetaValue.ofJson v = .ok m) :
    IsTagged (Named.name m.tag) v := by
  rw [MetaValue.ofJson] at h
  obtain ⟨⟨name, content⟩, hname, h⟩ := bind_eq_ok_iff.1 h
  obtain ⟨htag, rfl⟩ := tagAndContent_eq_ok_iff.1 hname
  dsimp only at h
  split at h
  · cases h
  · next tag hofName =>
    obtain rfl := Named.name_of_ofName? hofName
    suffices m.tag = tag by rwa [this]
    obtain ⟨c, -, h⟩ := bind_eq_ok_iff.1 h
    cases tag <;> simp only [bind_eq_ok_iff, pure_eq_ok_iff] at h <;>
      (repeat obtain ⟨_, _, h⟩ := h) <;> rfl

/-- With the tag of a metadata value, a value is read as that if its content has the right
form. -/
theorem MetaValue.ofJson_eq_ok_iff_of_isTagged {m : MetaValue}
    (htag : IsTagged (Named.name m.tag) v) : MetaValue.ofJson v = .ok m ↔ m.Form v := by
  have hread : v.tagAndContent "MetaValue" = .ok (Named.name m.tag, v.field? "c") :=
    tagAndContent_eq_ok_iff.2 ⟨htag, rfl⟩
  rw [MetaValue.ofJson, hread, ok_bind]
  dsimp only
  rw [Named.ofName?_name]
  cases m <;>
    simp only [MetaValue.tag, bind_eq_ok_iff, pure_eq_ok_iff, required_eq_ok_iff,
      Subtype.exists, exists_elements_iff, asString_eq_ok_iff, asBool_eq_ok_iff] <;>
    simp only [MetaValue.tag, Named.name, MetaTag.name] at htag <;>
    simp [MetaValue.Form, isNode_iff, htag]

/-- A metadata value is read from the values of its form. -/
theorem MetaValue.ofJson_eq_ok_iff {m : MetaValue} : MetaValue.ofJson v = .ok m ↔ m.Form v := by
  have htag : m.Form v → IsTagged (Named.name m.tag) v := by
    intro h
    cases m <;> exact (isNode_iff.1 h).1
  constructor
  · intro h
    exact (ofJson_eq_ok_iff_of_isTagged (isTagged_of_ofJson h)).1 h
  · intro h
    exact (ofJson_eq_ok_iff_of_isTagged (htag h)).2 h

/-- The entries of metadata are read from the members of an object. -/
theorem MetaValue.ofJsonEntries_eq_ok_iff {entries : List (String × MetaValue)} :
    MetaValue.ofJsonEntries v = .ok entries ↔
      IsDictionary (fun m x => MetaValue.ofJson x = .ok m) entries v := by
  rw [MetaValue.ofJsonEntries]
  exact fields_mapM_eq_ok_iff _

/-! ## Documents -/

/-- A version is read from an array of small numbers, if the tree of that version is known. -/
theorem ApiVersion.ofJson_eq_ok_iff {version : ApiVersion} :
    ApiVersion.ofJson v = .ok version ↔
      IsList (fun n x => x = .num (.int n.toNat)) version v ∧ version.isSupported = true := by
  simp only [ApiVersion.ofJson, bind_eq_ok_iff, exists_elements_iff, asSmallNat_eq_ok_iff]
  constructor
  · rintro ⟨version', hv, h⟩
    split at h
    · next hsupported =>
      obtain rfl := pure_eq_ok_iff.1 h
      exact ⟨hv, hsupported⟩
    · cases h
  · rintro ⟨hv, hsupported⟩
    refine ⟨version, hv, ?_⟩
    rw [if_pos hsupported]
    rfl

/-- A document is read from an object that has its three members. -/
theorem Document.ofJson_eq_ok_iff {d : Document} :
    Document.ofJson v = .ok d ↔
      IsRecord [("blocks", (Block.ofJsonList · = .ok d.blocks)),
        ("meta", (MetaValue.ofJsonEntries · = .ok d.metadata)),
        ("pandoc-api-version", (ApiVersion.ofJson · = .ok d.apiVersion))] v := by
  simp only [Document.ofJson, bind_eq_ok_iff, pure_eq_ok_iff, object?_eq_ok_iff,
    isRecord_cons_iff]
  constructor
  · rintro ⟨field, ⟨hv, rfl⟩, h⟩
    simp only [elim_field?_eq_ok_iff] at h
    obtain ⟨_, hversion, _, hversion', _, hmeta, _, hmeta', _, hblocks, _, hblocks', h⟩ := h
    cases h
    exact ⟨⟨_, hblocks, hblocks'⟩, ⟨_, hmeta, hmeta'⟩, ⟨_, hversion, hversion'⟩, hv⟩
  · rintro ⟨⟨_, hblocks, hblocks'⟩, ⟨_, hmeta, hmeta'⟩, ⟨_, hversion, hversion'⟩, hv⟩
    refine ⟨_, ⟨hv, rfl⟩, ?_⟩
    simp only [elim_field?_eq_ok_iff]
    exact ⟨_, hversion, _, hversion', _, hmeta, _, hmeta', _, hblocks, _, hblocks', rfl⟩

end Transclude
