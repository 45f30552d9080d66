import Transclude.Proofs.Wire.Faults
import Transclude.Proofs.Wire.RoundTrip

/-!
# The first fault of a document

Every reader of a part of a document hands on the error of the part that fails first: a content is
read as its tag asks for, a citation with its prefix before its suffix, a document with its version
before its metadata and that before its blocks.  So of all nodes that cannot be read the first
one decides how reading a document fails.

Main results:

- Theorem {lit}`Json.Reports.node`: a reader of nodes reports what is spoiled if the readers of
  the contents do.
- Theorem {lit}`Json.nodesReport`: the readers of nodes report what is spoiled.
- Definition {lit}`Json.Place.ReadBefore`: the reading order of a document.
- Theorem {lit}`Document.ofJson_patched`: if nodes of a document are spoiled, reading fails for
  the first of them in reading order; for a version of another kind it fails before all.
-/

namespace Transclude

open Reading Json

/-! ## Nodes -/

/-- The tag and the content of a node are those of its members. -/
theorem Json.tagAndContent_of_member? (place : String) {members : List (String × Json)}
    {tag : String} {c : Json} (htag : member? "t" members = some (.str tag))
    (hc : member? "c" members = some c) :
    (obj members).tagAndContent place = .ok (tag, some ⟨c, sizeOf_lt_of_member? hc⟩) := by
  refine tagAndContent_eq_ok_iff.2 ⟨⟨members, rfl, ?_⟩, (fieldOf?_eq_some_iff.2 hc).symm⟩
  rintro f hf
  cases List.mem_singleton.1 hf
  exact ⟨_, htag, rfl⟩

/-- A node that is put together has its tag and its content. -/
theorem Json.tagAndContent_node (place tag : String) (c : Json) :
    (Json.node tag c).tagAndContent place =
      .ok (tag, some ⟨c, sizeOf_lt_of_mem_members List.mem_cons_self⟩) :=
  tagAndContent_of_member? place rfl rfl

namespace Kind

variable {kind : Kind} {v : Json}

/-- Of a node that has a content only tag and content are looked at. -/
theorem fault?_obj {members : List (String × Json)} {tag : String} {c : Json}
    (htag : member? "t" members = some (.str tag)) (hc : member? "c" members = some c) :
    kind.fault? (.obj members) = kind.fault? (.node tag c) := by
  have hread (place : String) := tagAndContent_of_member? place htag hc
  cases kind with
  | block =>
    rw [fault?, fault?, Block.ofJson, hread, Block.ofJson.eq_1 (.node tag c),
      tagAndContent_node, ok_bind, ok_bind]
    dsimp only
    cases (Named.ofName? tag : Option BlockTag) with
    | none => rfl
    | some tag => cases tag <;> rfl
  | inline =>
    rw [fault?, fault?, Inline.ofJson, hread, Inline.ofJson.eq_1 (.node tag c),
      tagAndContent_node, ok_bind, ok_bind]
    dsimp only
    cases (Named.ofName? tag : Option InlineTag) with
    | none => rfl
    | some tag => cases tag <;> rfl
  | metaValue =>
    rw [fault?, fault?, MetaValue.ofJson, hread, MetaValue.ofJson.eq_1 (.node tag c),
      tagAndContent_node, ok_bind, ok_bind]
    dsimp only
    cases (Named.ofName? tag : Option MetaTag) with
    | none => rfl
    | some tag => cases tag <;> rfl
  | _ => rfl

/-- A value that is read as a node has a tag, and a content if the tag asks for one. -/
def IsComplete (kind : Kind) (v : Json) : Prop :=
  ∃ members tag content, v = .obj members ∧ member? "t" members = some (.str tag) ∧
    member? tag kind.contents = some content ∧
    ∀ s, content = some s → ∃ c, member? "c" members = some c

/-- A node with a tag and the content that goes with it is complete. -/
theorem isComplete_of_isNode {tag : String} {R : Json → Prop} {s : Shape} (h : IsNode tag R v)
    (hs : member? tag kind.contents = some (some s)) : kind.IsComplete v := by
  obtain ⟨members, rfl, h⟩ := h
  obtain ⟨c, hc, -⟩ := h ("c", R) List.mem_cons_self
  obtain ⟨_, htag, rfl⟩ := h ("t", (· = .str tag)) (by simp)
  exact ⟨members, tag, _, rfl, htag, hs, fun _ _ => ⟨c, hc⟩⟩

/-- So is a node with a tag that asks for no content. -/
theorem isComplete_of_isTagged {tag : String} (h : IsTagged tag v)
    (hs : member? tag kind.contents = some none) : kind.IsComplete v := by
  obtain ⟨members, rfl, h⟩ := h
  obtain ⟨_, htag, rfl⟩ := h ("t", (· = .str tag)) List.mem_cons_self
  exact ⟨members, tag, _, rfl, htag, hs, fun _ h => by cases h⟩

/-- What is read as a node is complete. -/
theorem isComplete_of_fault? (htree : kind.inTree = true) (h : kind.fault? v = none) :
    kind.IsComplete v := by
  cases kind with
  | block =>
    obtain ⟨b, hb⟩ := fault?_eq_none_iff.1 h
    have hform := Block.ofJson_eq_ok_iff.1 hb
    cases b with
    | horizontalRule | null => exact isComplete_of_isTagged hform rfl
    | _ => exact isComplete_of_isNode hform rfl
  | inline =>
    obtain ⟨x, hx⟩ := fault?_eq_none_iff.1 h
    have hform := Inline.ofJson_eq_ok_iff.1 hx
    cases x with
    | space | softBreak | lineBreak => exact isComplete_of_isTagged hform rfl
    | _ => exact isComplete_of_isNode hform rfl
  | metaValue =>
    obtain ⟨m, hm⟩ := fault?_eq_none_iff.1 h
    have hform := MetaValue.ofJson_eq_ok_iff.1 hm
    cases m <;> exact isComplete_of_isNode hform rfl
  | _ => cases htree

end Kind

namespace Json

/-- The members of a node that are looked at depend on its tag. -/
theorem used_of_tag {kind : Kind} {members : List (String × Json)} {tag : String}
    {content : Option Shape} (htag : member? "t" members = some (.str tag))
    (hcontent : member? tag kind.contents = some content) :
    (Shape.node kind).used members = Shape.nodeFields content := by
  simp only [Shape.used, Shape.fields?, htag, hcontent, Option.map_some, Option.getD_some]

/-- In a node without content there is only the tag. -/
theorem child?_tagged {kind : Kind} {members : List (String × Json)}
    (hused : (Shape.node kind).used members = Shape.nodeFields none) {step : Step} {t : Shape}
    {x : Json} (hchild : child? (.node kind) (.obj members) step = some (t, x)) : t = .text := by
  obtain ⟨key, rfl, ht, -⟩ := child?_obj_eq_some_iff.1 hchild
  rw [hused] at ht
  cases List.mem_singleton.1 (mem_of_member? ht)
  rfl

namespace Reports

variable {n : Nat}

/-- A reader of nodes reports what is spoiled if for every tag the reader of the content does. -/
theorem node {kind : Kind} (htree : kind.inTree = true)
    (hcontent : ∀ tag s, member? tag kind.contents = some (some s) →
      Reports n s fun c => kind.fault? (.node tag c)) :
    Reports (n + 1) (.node kind) kind.fault? := by
  intro v hsize hvalid hv changes hspoils
  obtain ⟨members, tag, content, rfl, htag, hcontents, hc⟩ := Kind.isComplete_of_fault? htree hv
  have hused := used_of_tag htag hcontents
  cases hroot : changes [] with
  | some x =>
    have hroot? : (Shape.node kind).root? = some kind := if_pos htree
    obtain ⟨kind', e, hkind, he⟩ := hspoils [] x hroot
    obtain rfl := Option.some.inj (hroot?.symm.trans hkind)
    rw [patched_of_root hroot, places_obj, root, hroot?, he]
    simp [faultAt, hroot, he]
  | none =>
    rw [patched_obj hroot]
    cases content with
    | none =>
      -- In a node without content nothing can be spoiled.
      have hnone : changes = fun _ => none := hspoils.eq_nowhere hroot fun _ _ x hchild =>
        child?_tagged hused hchild ▸ kindAt?_of_isBarren rfl x
      rw [hnone, patchedMembers_none, hv, findSome?_faultAt_none]
    | some s =>
      obtain ⟨c, hc⟩ := hc s rfl
      have htext : member? "t" ((Shape.node kind).used members) = some .text := by
        rw [hused]
        rfl
      have htag' : member? "t" (patchedMembers changes members) = some (.str tag) :=
        (hspoils.member?_eq htext rfl).trans htag
      have hc' : member? "c" (patchedMembers changes members) =
          some (c.patched (changes.past (.member "c"))) := member?_patchedMembers_of_some hc
      have hnode : kind.fault? (.node tag c) = none := by rw [← Kind.fault?_obj htag hc, hv]
      have hshape : member? "c" ((Shape.node kind).used members) = some s := by
        rw [hused]
        rfl
      have htfault : memberFault changes [("c", s), ("t", .text)] members "t" = none :=
        memberFault_of_isBarren rfl rfl
      rw [Kind.fault?_obj htag' hc',
        (hcontent tag s hcontents).member hshape hc hsize hvalid hnode hspoils,
        findSome?_places_obj hroot, hused, Shape.nodeFields, findSome?_cons_or, findSome?_cons_or,
        htfault, List.findSome?_nil, Option.or_none, Option.or_none]

end Reports

/-! ## Readers of parts -/

/-- The readers of nodes report what is spoiled in values up to some size. -/
def NodesReport (n : Nat) : Prop :=
  ∀ kind : Kind, kind.inTree = true → Reports n (.node kind) kind.fault?

/-- A citation whose other members are read is read with its prefix before its suffix. -/
theorem fault?_citation {members : List (String × Json)} {id : String} {before after mode : Json}
    {m : CitationMode} {noteNumber hash : Int64}
    (hid : member? "citationId" members = some (.str id))
    (hbefore : member? "citationPrefix" members = some before)
    (hafter : member? "citationSuffix" members = some after)
    (hmode : member? "citationMode" members = some mode) (hm : Choice.ofJson mode = .ok m)
    (hnote : member? "citationNoteNum" members = some (.int noteNumber))
    (hhash : member? "citationHash" members = some (.int hash)) :
    (Citation.ofJson (.obj members)).fault? =
      (Inline.ofJsonList before).fault?.or (Inline.ofJsonList after).fault? := by
  rw [Citation.ofJson, object?_obj, ok_bind]
  simp only [elim_field?_of_member? _ hid, elim_field?_of_member? _ hbefore,
    elim_field?_of_member? _ hafter, elim_field?_of_member? _ hmode,
    elim_field?_of_member? _ hnote, elim_field?_of_member? _ hhash, ok_bind,
    asString_eq_ok_iff.2 rfl, asInt_eq_ok_iff.2 rfl, hm]
  exact fault?_bind fun _ => fault?_map _ _

namespace NodesReport

variable {n : Nat}

/-- If the readers of nodes report, so does the reader of running text. -/
theorem inlines (h : NodesReport n) :
    Reports n .inlines fun v => (Inline.ofJsonList v).fault? :=
  (Reports.list "Inlines" (h .inline rfl)).congr fun v => by rw [Inline.ofJsonList]

/-- So does the reader of blocks. -/
theorem blocks (h : NodesReport n) :
    Reports n .blocks fun v => (Block.ofJsonList v).fault? :=
  (Reports.list "Blocks" (h .block rfl)).congr fun v => by rw [Block.ofJsonList]

/-- So does the reader of the items of a list. -/
theorem items (h : NodesReport n) :
    Reports n .items fun v => (Block.ofJsonItems v).fault? :=
  (Reports.list "list items" h.blocks).congr fun v => by rw [Block.ofJsonItems]

/-- So does the reader of a term with its definitions. -/
theorem definition (h : NodesReport n) :
    Reports n .definition fun v => (Definition.ofJson v).fault? :=
  (Reports.pair "DefinitionList item" Definition.mk h.inlines h.items).congr fun v => by
    rw [Definition.ofJson]

/-- So does the reader of metadata entries. -/
theorem entries (h : NodesReport n) :
    Reports n .entries fun v => (MetaValue.ofJsonEntries v).fault? :=
  (Reports.dictionary "Meta" (h .metaValue rfl)).congr fun v => by
    rw [MetaValue.ofJsonEntries]

/-- So does the reader of a citation, whose other members are not spoiled. -/
theorem citation (h : NodesReport n) :
    Reports n .citation fun v => (Citation.ofJson v).fault? := by
  intro v hsize hvalid hv changes hspoils
  obtain ⟨⟨id, before, after, mode, noteNumber, hash⟩, hread⟩ := fault?_eq_none_iff.1 hv
  obtain ⟨members, rfl, hfields⟩ := Citation.ofJson_eq_ok_iff.1 hread
  simp only [List.forall_mem_cons] at hfields
  obtain ⟨⟨_, hhash, rfl⟩, ⟨_, hid, rfl⟩, ⟨_, hmode, hmode'⟩, ⟨_, hnote, rfl⟩,
    ⟨_, hbefore, hbefore'⟩, ⟨_, hafter, hafter'⟩, -⟩ := hfields
  have hroot : changes [] = none := hspoils.eq_none rfl
  have hsize : sizeOf (obj members) < n + 1 := Nat.lt_succ_of_lt hsize
  have hstays (key : String) {x : Json} (t : Shape)
      (ht : member? key (Shape.citation.used members) = some t) (hb : t.isBarren = true)
      (hx : member? key members = some x) : member? key (patchedMembers changes members) = some x :=
    (hspoils.member?_eq ht hb).trans hx
  have hnone (key : String) (t : Shape)
      (ht : member? key (Shape.citation.used members) = some t) (hb : t.isBarren = true) :
      memberFault changes (Shape.citation.used members) members key = none :=
    memberFault_of_isBarren ht hb
  have hlist : (Shape.citation.used members).findSome?
        (fun f => memberFault changes (Shape.citation.used members) members f.1) =
      (memberFault changes (Shape.citation.used members) members "citationPrefix").or
        (memberFault changes (Shape.citation.used members) members "citationSuffix") := by
    change List.findSome? _ [_, _, _, _, _, _] = _
    simp only [findSome?_cons_or, List.findSome?_nil, Option.or_none,
      hnone "citationHash" _ rfl rfl, hnone "citationId" _ rfl rfl,
      hnone "citationMode" _ rfl rfl, hnone "citationNoteNum" _ rfl rfl, Option.none_or]
  have hread := fault?_citation (hstays "citationId" _ rfl rfl hid)
    (member?_patchedMembers_of_some hbefore) (member?_patchedMembers_of_some hafter)
    (hstays "citationMode" _ rfl rfl hmode) hmode' (hstays "citationNoteNum" _ rfl rfl hnote)
    (hstays "citationHash" _ rfl rfl hhash)
  rw [patched_obj hroot, findSome?_places_obj hroot, hlist]
  exact hread.trans (congrArg₂ Option.or
    (h.inlines.member rfl hbefore hsize hvalid (fault?_eq_none_iff.2 ⟨_, hbefore'⟩) hspoils)
    (h.inlines.member rfl hafter hsize hvalid (fault?_eq_none_iff.2 ⟨_, hafter'⟩) hspoils))

/-- A block: its content is read as the tag asks for. -/
theorem block_content (h : NodesReport n) (tag : BlockTag) {s : Shape}
    (hs : member? (Named.name tag) Kind.block.contents = some (some s)) :
    Reports n s fun c => (Block.ofJson (.node (Named.name tag) c)).fault? := by
  have hbody (c : Json) := Block.ofJson.eq_1 (.node (Named.name tag) c)
  simp only [hbody, tagAndContent_node, ok_bind, Named.ofName?_name]
  cases tag <;> cases hs <;> simp only [Json.required, ok_bind]
  case plain => exact h.inlines.map _
  case para => exact h.inlines.map _
  case lineBlock =>
    exact ((Reports.list _ h.inlines).map Block.lineBlock).congr fun c => by rw [bind_assoc]
  case codeBlock => exact .barren rfl _
  case rawBlock => exact .barren rfl _
  case blockQuote => exact h.blocks.map _
  case orderedList => exact .pair _ _ (.barren rfl _) h.items
  case bulletList => exact h.items.map _
  case definitionList =>
    exact ((Reports.list _ h.definition).map Block.definitionList).congr fun c => by rw [bind_assoc]
  case header => exact .triple _ _ (.barren rfl _) (.barren rfl _) h.inlines
  case table =>
    refine (Reports.quintuple "Table" Block.table
      (B := fun x => do (← x.elements "Table alignments").mapM (Choice.ofJson ·.1))
      (C := fun x => do (← x.elements "Table widths").mapM (·.1.asDouble "Table width"))
      h.inlines (.barren rfl _) (.barren rfl _) h.items
      (Reports.list "Table rows" h.items)).congr fun c => ?_
    simp only [bind_assoc]
  case div => exact .pair _ _ (.barren rfl _) h.blocks

/-- An inline, likewise. -/
theorem inline_content (h : NodesReport n) (tag : InlineTag) {s : Shape}
    (hs : member? (Named.name tag) Kind.inline.contents = some (some s)) :
    Reports n s fun c => (Inline.ofJson (.node (Named.name tag) c)).fault? := by
  have hbody (c : Json) := Inline.ofJson.eq_1 (.node (Named.name tag) c)
  simp only [hbody, tagAndContent_node, ok_bind, Named.ofName?_name]
  cases tag <;> cases hs <;> simp only [Json.required, ok_bind]
  case str => exact .barren rfl _
  case emph => exact h.inlines.map _
  case strong => exact h.inlines.map _
  case strikeout => exact h.inlines.map _
  case superscript => exact h.inlines.map _
  case subscript => exact h.inlines.map _
  case smallCaps => exact h.inlines.map _
  case quoted => exact .pair _ _ (.barren rfl _) h.inlines
  case cite =>
    refine (Reports.pair "Cite" Inline.cite (Reports.list "Citations" h.citation)
      h.inlines).congr fun c => ?_
    simp only [bind_assoc]
  case code => exact .barren rfl _
  case math => exact .barren rfl _
  case rawInline => exact .barren rfl _
  case link => exact .triple _ _ (.barren rfl _) h.inlines (.barren rfl _)
  case image => exact .triple _ _ (.barren rfl _) h.inlines (.barren rfl _)
  case note => exact h.blocks.map _
  case span => exact .pair _ _ (.barren rfl _) h.inlines

/-- A metadata value, likewise. -/
theorem metaValue_content (h : NodesReport n) (tag : MetaTag) {s : Shape}
    (hs : member? (Named.name tag) Kind.metaValue.contents = some (some s)) :
    Reports n s fun c => (MetaValue.ofJson (.node (Named.name tag) c)).fault? := by
  have hbody (c : Json) := MetaValue.ofJson.eq_1 (.node (Named.name tag) c)
  simp only [hbody, tagAndContent_node, ok_bind, Named.ofName?_name]
  cases tag <;> cases hs <;> simp only [Json.required, ok_bind]
  case map => exact h.entries.map _
  case list =>
    exact ((Reports.list _ (h .metaValue rfl)).map MetaValue.list).congr fun c => by rw [bind_assoc]
  case bool => exact .barren rfl _
  case str => exact .barren rfl _
  case inlines => exact h.inlines.map _
  case blocks => exact h.blocks.map _

end NodesReport

/-- A node has no tag but its own. -/
theorem tag_eq_of_isTagged {tag tag' : String} {c : Json} (h : IsTagged tag (.node tag' c)) :
    tag' = tag := by
  obtain ⟨members, hmembers, h⟩ := h
  obtain ⟨_, htag, rfl⟩ := h ("t", (· = .str tag)) List.mem_cons_self
  cases hmembers
  exact Json.str.inj (Option.some.inj htag)

/-- The content of a node is read as its tag asks for. -/
theorem NodesReport.content {n : Nat} (h : NodesReport n) {kind : Kind}
    (htree : kind.inTree = true) {tag : String} {s : Shape}
    (hs : member? tag kind.contents = some (some s)) :
    Reports n s fun c => kind.fault? (.node tag c) := by
  intro c hsize hvalid hc changes hspoils
  cases kind with
  | block =>
    obtain ⟨b, hb⟩ := fault?_eq_none_iff.1 hc
    obtain rfl := tag_eq_of_isTagged (Block.isTagged_of_ofJson hb)
    exact h.block_content b.tag hs c hsize hvalid hc changes hspoils
  | inline =>
    obtain ⟨x, hx⟩ := fault?_eq_none_iff.1 hc
    obtain rfl := tag_eq_of_isTagged (Inline.isTagged_of_ofJson hx)
    exact h.inline_content x.tag hs c hsize hvalid hc changes hspoils
  | metaValue =>
    obtain ⟨m, hm⟩ := fault?_eq_none_iff.1 hc
    obtain rfl := tag_eq_of_isTagged (MetaValue.isTagged_of_ofJson hm)
    exact h.metaValue_content m.tag hs c hsize hvalid hc changes hspoils
  | _ => cases htree

/-- The readers of nodes report what is spoiled. -/
theorem nodesReport (n : Nat) : NodesReport n := by
  -- The content of a node is smaller than the node, so the bound falls at every node.
  induction n with
  | zero => exact fun kind _ v hsize => absurd hsize (Nat.not_lt_zero _)
  | succ n ih => exact fun kind htree => .node htree fun tag s hs => ih.content htree hs

/-! ## Documents -/

/-- A document whose version is read is read with its metadata before its blocks. -/
theorem fault?_document {members : List (String × Json)} {x m b : Json} {version : ApiVersion}
    (hx : member? "pandoc-api-version" members = some x)
    (hversion : ApiVersion.ofJson x = .ok version)
    (hmeta : member? "meta" members = some m) (hblocks : member? "blocks" members = some b) :
    (Document.ofJson (.obj members)).fault? =
      (MetaValue.ofJsonEntries m).fault?.or (Block.ofJsonList b).fault? := by
  rw [Document.ofJson, object?_obj, ok_bind]
  simp only [elim_field?_of_member? _ hx, elim_field?_of_member? _ hmeta,
    elim_field?_of_member? _ hblocks, ok_bind, hversion]
  exact fault?_bind fun _ => fault?_map _ _

/-- The reader of documents reports what is spoiled in one, metadata before blocks. -/
theorem fault?_patched_document {v : Json} {d : Document} (hvalid : v.Valid)
    (hread : Document.ofJson v = .ok d) {changes : Changes} (hspoils : Spoils .document v changes) :
    ∃ members m b, v = .obj members ∧ member? "meta" members = some m ∧
      member? "blocks" members = some b ∧
      (Document.ofJson (v.patched changes)).fault? =
        ((places .entries m).findSome? (faultAt (changes.past (.member "meta")))).or
          ((places .blocks b).findSome? (faultAt (changes.past (.member "blocks")))) := by
  obtain ⟨members, rfl, hfields⟩ := Document.ofJson_eq_ok_iff.1 hread
  simp only [List.forall_mem_cons] at hfields
  obtain ⟨⟨b, hblocks, hb⟩, ⟨m, hmeta, hm⟩, ⟨_, hx, hversion⟩, -⟩ := hfields
  refine ⟨members, m, b, rfl, hmeta, hblocks, ?_⟩
  have h := nodesReport (sizeOf (obj members))
  have hsize := Nat.lt_succ_self (sizeOf (obj members))
  have hversion' : member? "pandoc-api-version" (patchedMembers changes members) = _ :=
    (hspoils.member?_eq (t := .list .small) rfl rfl).trans hx
  rw [patched_obj (hspoils.eq_none rfl), fault?_document hversion' hversion
    (member?_patchedMembers_of_some hmeta) (member?_patchedMembers_of_some hblocks)]
  exact congrArg₂ Option.or
    ((h.entries.member rfl hmeta hsize hvalid (fault?_eq_none_iff.2 ⟨_, hm⟩) hspoils).trans
      (memberFault_eq rfl hmeta))
    ((h.blocks.member rfl hblocks hsize hvalid (fault?_eq_none_iff.2 ⟨_, hb⟩) hspoils).trans
      (memberFault_eq rfl hblocks))

/-- The nodes in a document are in its metadata or in its blocks. -/
theorem member_of_kindAt?_document {v : Json} {p : Place} {kind : Kind}
    (h : kindAt? .document v p = some kind) :
    (∃ q, p = .member "meta" :: q) ∨ ∃ q, p = .member "blocks" :: q := by
  obtain _ | ⟨step, p⟩ := p
  · cases h
  obtain ⟨⟨t, x⟩, hchild, hkind⟩ := Option.bind_eq_some_iff.1 h
  rcases v with _ | _ | _ | _ | xs | members <;> try cases hchild
  · obtain ⟨_, -, ht, -⟩ := child?_arr_eq_some_iff.1 hchild
    cases ht
  obtain ⟨key, rfl, ht, -⟩ := child?_obj_eq_some_iff.1 hchild
  rcases List.mem_cons.1 (mem_of_member? ht) with heq | hmem
  · cases heq
    exact .inr ⟨p, rfl⟩
  rcases List.mem_cons.1 hmem with heq | hmem
  · cases heq
    exact .inl ⟨p, rfl⟩
  · cases List.mem_singleton.1 hmem
    dsimp only at hkind
    rw [kindAt?_of_isBarren rfl] at hkind
    cases hkind

/-- Places in a document in the order in which they are read: metadata before blocks, and
otherwise by their order. -/
def Place.ReadBefore : Place → Place → Prop
  | .member k :: p, .member l :: q => k = "meta" ∧ l = "blocks" ∨ k = l ∧ Place.Before p q
  | _, _ => False

/-- If what is spoiled outside of a member is read after it, what comes first in that member comes
first in reading order. -/
theorem Spoils.exists_first_read {s t : Shape} {v x : Json} {changes : Changes} {key : String}
    (h : Spoils s v changes) (hchild : child? s v (.member key) = some (t, x))
    (ht : t.isOrdered = true) (hx : x.Valid) (hsome : ∃ q y, changes (.member key :: q) = some y)
    (hothers : ∀ q y, changes q = some y → (∃ q', q = .member key :: q') ∨
      key = "meta" ∧ ∃ q', q = .member "blocks" :: q') :
    ∃ p z kind e, changes p = some z ∧ kindAt? s v p = some kind ∧ kind.fault? z = some e ∧
      (∀ q y, changes q = some y → q = p ∨ p.ReadBefore q) ∧
      (places t x).findSome? (faultAt (changes.past (.member key))) = some e := by
  obtain ⟨q, y, hq⟩ := hsome
  obtain ⟨p, z, kind, e, hz, hkind, he, hp, hlist⟩ := (h.past hchild).exists_first ht hx hq
  refine ⟨.member key :: p, z, kind, e, hz, ?_, he, fun q y hq => ?_, hlist⟩
  · rw [kindAt?, hchild]
    exact hkind
  · obtain ⟨q, rfl⟩ | ⟨rfl, q, rfl⟩ := hothers q y hq
    · exact (hp q y hq).imp (congrArg _) fun hbefore => .inr ⟨rfl, hbefore⟩
    · exact .inr (.inl ⟨rfl, rfl⟩)

end Json

/-- An array of small numbers is refused as a version that is not supported if it does not begin
as supported ones do. -/
theorem ApiVersion.ofJson_toJson_of_not {version : ApiVersion} (h : ¬[1, 17] <+: version) :
    ApiVersion.ofJson version.toJson = .error (.unsupportedApiVersion version) := by
  have hnumbers : (do
      (← version.toJson.elements "pandoc-api-version").mapM fun x =>
        x.1.asSmallNat "pandoc-api-version entries") = Except.ok version :=
    (elements_mapM_eq_ok_iff _).2 ⟨_, rfl, List.forall₂_map_right_iff.2
      (List.forall₂_same.2 fun n _ => asSmallNat_eq_ok_iff.2 rfl)⟩
  have hunsupported : ¬version.isSupported = true := fun hversion =>
    h ((isSupported_iff.1 hversion).imp fun _ => Eq.symm)
  rw [ApiVersion.ofJson, ← bind_assoc, hnumbers, ok_bind, if_neg hunsupported]
  rfl

namespace Document

/-- If nodes of a value that is read as a document are spoiled, the value is not read any more,
and the error is that of the reader of nodes for what comes first in reading order.  A version of
another kind comes before all that: whatever else there is in the object, the error is that the
version is not supported. -/
theorem ofJson_patched :
    (∀ (v : Json) (d : Document) (changes : Changes), v.Valid → Document.ofJson v = .ok d →
      Spoils .document v changes → (∃ q y, changes q = some y) →
      ∃ p x kind e, changes p = some x ∧ kindAt? .document v p = some kind ∧
        kind.fault? x = some e ∧ (∀ q y, changes q = some y → q = p ∨ p.ReadBefore q) ∧
        Document.ofJson (v.patched changes) = .error e) ∧
    ∀ (members : List (String × Json)) (version : ApiVersion),
      member? "pandoc-api-version" members = some version.toJson → ¬[1, 17] <+: version →
      Document.ofJson (.obj members) = .error (.unsupportedApiVersion version) := by
  refine ⟨fun v d changes hvalid hread hspoils ⟨q, y, hq⟩ => ?_,
    fun members version hx hversion => ?_⟩
  · obtain ⟨members, m, b, rfl, hm, hb, hfault⟩ := fault?_patched_document hvalid hread hspoils
    have hmembers : ∀ f ∈ members, f.2.Valid := by
      cases hvalid with
      | obj _ h => exact h
    have hmeta : child? .document (.obj members) (.member "meta") = some (.entries, m) :=
      child?_obj_eq_some_iff.2 ⟨_, rfl, rfl, hm⟩
    have hblocks : child? .document (.obj members) (.member "blocks") = some (.blocks, b) :=
      child?_obj_eq_some_iff.2 ⟨_, rfl, rfl, hb⟩
    have hplace {q : Place} {y : Json} (hq : changes q = some y) :
        (∃ q', q = .member "meta" :: q') ∨ ∃ q', q = .member "blocks" :: q' := by
      obtain ⟨kind, _, hkind, -⟩ := hspoils q y hq
      exact member_of_kindAt?_document hkind
    by_cases hsome : ∃ q y, changes (.member "meta" :: q) = some y
    · obtain ⟨p, x, kind, e, hx, hkind, he, hfirst, hlist⟩ :=
        hspoils.exists_first_read hmeta rfl (hmembers _ (mem_of_member? hm)) hsome
          fun q y hq => (hplace hq).imp_right fun h => ⟨rfl, h⟩
      refine ⟨p, x, kind, e, hx, hkind, he, hfirst, ?_⟩
      rw [← fault?_eq_some_iff, hfault, hlist, Option.some_or]
    · have hin {q : Place} {y : Json} (hq : changes q = some y) :
          ∃ q', q = .member "blocks" :: q' := by
        obtain ⟨q, rfl⟩ | h := hplace hq
        · exact absurd ⟨q, y, hq⟩ hsome
        · exact h
      have hnone : changes.past (.member "meta") = fun _ => none := by
        funext q
        exact Option.eq_none_iff_forall_ne_some.2 fun y hq => hsome ⟨q, y, hq⟩
      obtain ⟨q, rfl⟩ := hin hq
      obtain ⟨p, x, kind, e, hx, hkind, he, hfirst, hlist⟩ :=
        hspoils.exists_first_read hblocks rfl (hmembers _ (mem_of_member? hb)) ⟨q, y, hq⟩
          fun q y hq => .inl (hin hq)
      refine ⟨p, x, kind, e, hx, hkind, he, hfirst, ?_⟩
      rw [← fault?_eq_some_iff, hfault, hnone, findSome?_faultAt_none, Option.none_or, hlist]
  · have hread := ApiVersion.ofJson_toJson_of_not hversion
    rw [Document.ofJson, object?_obj, ok_bind]
    simp only [elim_field?_of_member? _ hx, ok_bind, hread]
    rfl

/-- With a metadata value, an inline in the prefix of a citation and one beside the citation
spoiled, reading fails for the metadata; with another version alone, for the version. -/
theorem ofJson_patched_citation :
    let v : Json := .obj [
      ("blocks", .arr [.obj [
        ("c", .arr [.obj [
          ("c", .arr [
            .arr [.obj [
              ("citationHash", .num (.int 0)), ("citationId", .str "a"),
              ("citationMode", .obj [("t", .str "NormalCitation")]),
              ("citationNoteNum", .num (.int 0)),
              ("citationPrefix", .arr [.obj [("t", .str "Space")]]),
              ("citationSuffix", .arr [])]],
            .arr [.obj [("t", .str "Space")]]]),
          ("t", .str "Cite")]]),
        ("t", .str "Para")]]),
      ("meta", .obj [("draft", .obj [("c", .bool true), ("t", .str "MetaBool")])]),
      ("pandoc-api-version", .arr [.num (.int 1), .num (.int 17)])]
    let d : Document :=
      ⟨[1, 17], [("draft", .bool true)],
        [.para [.cite [.mk "a" [.space] [] .normal 0 0] [.space]]]⟩
    let cite : Place := [.member "blocks", .element 0, .member "c", .element 0, .member "c"]
    let changes : Changes := fun p =>
      if p ∈ [cite ++ [.element 0, .element 0, .member "citationPrefix", .element 0],
        cite ++ [.element 1, .element 0]] then some .null
      else if p = [.member "meta", .member "draft"] then some (.obj [("t", .str "Date")])
      else none
    v.Valid ∧ Document.ofJson v = .ok d ∧ Spoils .document v changes ∧
      Document.ofJson (v.patched changes) =
        .error (.unsupportedVariant "MetaValue" "Date") ∧
      Document.ofJson (.obj [("pandoc-api-version", .arr [.num (.int 1), .num (.int 18)])]) =
        .error (.unsupportedApiVersion [1, 18]) := by
  intro v d cite changes
  have hv : v.Valid := by decide
  have hread : Document.ofJson v = .ok d :=
    (ofJson_eq_ok_iff_of_valid hv).2 ⟨rfl, ⟨[], rfl⟩, by decide, by decide⟩
  have hnull : Kind.fault? .inline .null = some (.invalidType (.notObject "Inline")) := by
    rw [Kind.fault?, Inline.ofJson]
    rfl
  have hdate : Kind.fault? .metaValue (.obj [("t", .str "Date")]) =
      some (.unsupportedVariant "MetaValue" "Date") := by
    rw [Kind.fault?, MetaValue.ofJson]
    rfl
  have hspoils : Spoils .document v changes := by
    intro p x hx
    simp only [changes] at hx
    split at hx
    · next hp =>
      cases hx
      rcases List.mem_pair.1 hp with rfl | rfl <;> exact ⟨.inline, _, rfl, hnull⟩
    split at hx
    · next hp =>
      cases hx
      subst hp
      exact ⟨.metaValue, _, rfl, hdate⟩
    · cases hx
  refine ⟨hv, hread, hspoils, ?_, ofJson_patched.2 _ [1, 18] rfl (by decide)⟩
  obtain ⟨p, x, kind, e, hx, hkind, he, hfirst, herror⟩ :=
    ofJson_patched.1 v d changes hv hread hspoils ⟨[.member "meta", .member "draft"], _, rfl⟩
  have hbefore := hfirst [.member "meta", .member "draft"] _ rfl
  simp only [changes] at hx
  split at hx
  · next hp =>
    rcases List.mem_pair.1 hp with rfl | rfl <;> simp [cite, Place.ReadBefore] at hbefore
  split at hx
  · next hp =>
    subst hp
    cases hx
    cases hkind
    rw [herror, ← Option.some.inj (he.symm.trans hdate)]
  · cases hx

end Document

end Transclude
