import Transclude.Proofs.Document.WellFormed
import Transclude.Proofs.Wire.Forms

/-!
# Reading recognizes what is written

Each reader recognizes what is written for its result: of the values that there are, it reads as
a node exactly those whose normal form is the value of the node, provided that the node is
well-formed.  The proof follows the tree of the node, with one rule of recognition for each kind.

Main results:

- Theorems {lit}`Block.recognizes`, {lit}`Inline.recognizes`, {lit}`MetaValue.recognizes`: the
  readers of nodes recognize what is written for the nodes.
- Theorem {lit}`Document.recognizes`: so does the reader of documents.
-/

namespace Transclude

open Json

/-! ## Leaves -/

section Choices

variable {α : Type} [Choice α]

/-- A choice is recognized if the grammar knows its name. -/
theorem Choice.recognizes {kind : Kind} (a : α)
    (htag : member? (Named.name a) kind.contents = some none) :
    Recognizes (Choice.ofJson · = .ok a) (.node kind) (Choice.toJson a) True :=
  (Recognizes.tagged htag).of_iff fun _ => Choice.ofJson_eq_ok_iff

end Choices

/-- The marks around quoted text are recognized. -/
theorem QuoteKind.recognizes (kind : QuoteKind) :
    Recognizes (Choice.ofJson · = .ok kind) (.node .quoteKind) (Choice.toJson kind) True :=
  Choice.recognizes kind (by cases kind <;> rfl)

/-- The kinds of formulas are recognized. -/
theorem MathKind.recognizes (kind : MathKind) :
    Recognizes (Choice.ofJson · = .ok kind) (.node .mathKind) (Choice.toJson kind) True :=
  Choice.recognizes kind (by cases kind <;> rfl)

/-- The modes of citations are recognized. -/
theorem CitationMode.recognizes (mode : CitationMode) :
    Recognizes (Choice.ofJson · = .ok mode) (.node .citationMode) (Choice.toJson mode) True :=
  Choice.recognizes mode (by cases mode <;> rfl)

/-- The numerals of ordered lists are recognized. -/
theorem NumberStyle.recognizes (style : NumberStyle) :
    Recognizes (Choice.ofJson · = .ok style) (.node .numberStyle) (Choice.toJson style) True :=
  Choice.recognizes style (by cases style <;> rfl)

/-- What stands around numerals is recognized. -/
theorem NumberDelimiter.recognizes (delimiter : NumberDelimiter) :
    Recognizes (Choice.ofJson · = .ok delimiter) (.node .numberDelimiter)
      (Choice.toJson delimiter) True :=
  Choice.recognizes delimiter (by cases delimiter <;> rfl)

/-- The alignments of columns are recognized. -/
theorem Alignment.recognizes (alignment : Alignment) :
    Recognizes (Choice.ofJson · = .ok alignment) (.node .alignment) (Choice.toJson alignment)
      True :=
  Choice.recognizes alignment (by cases alignment <;> rfl)

/-- An attribute is recognized by its strings. -/
theorem Attr.recognizes (attr : Attr) :
    Recognizes (Attr.ofJson · = .ok attr) .attr attr.toJson True := by
  have hclasses : Recognizes (IsList (fun c x => x = .str c) attr.classes) (.list .text)
      (.arr (attr.classes.map .str)) True :=
    .list fun c _ => .text c
  have hpair : ∀ p : String × String, Recognizes (Attr.pairOfJson · = .ok p)
      (.tuple [.text, .text]) (.arr [.str p.1, .str p.2]) True := by
    intro p
    have h := Recognizes.tuple (.cons (.text p.1) (.cons (.text p.2) .nil))
    exact (h.congr (by simp)).of_iff fun _ => Attr.pairOfJson_eq_ok_iff
  have hpairs : Recognizes (IsList (fun p x => Attr.pairOfJson x = .ok p) attr.pairs)
      (.list (.tuple [.text, .text]))
      (.arr (attr.pairs.map fun p => .arr [.str p.1, .str p.2])) True :=
    .list fun p _ => hpair p
  have h := Recognizes.tuple (.cons (.text attr.id) (.cons hclasses (.cons hpairs .nil)))
  exact (h.congr (by simp)).of_iff fun _ => Attr.ofJson_eq_ok_iff

/-- A target is recognized by its two strings. -/
theorem Target.recognizes (target : Target) :
    Recognizes (Target.ofJson · = .ok target) .target target.toJson True := by
  have h := Recognizes.tuple (.cons (.text target.url) (.cons (.text target.title) .nil))
  exact (h.congr (by simp)).of_iff fun _ => Target.ofJson_eq_ok_iff

/-- The numbering of a list is recognized by its three parts. -/
theorem ListNumbering.recognizes (numbering : ListNumbering) :
    Recognizes (ListNumbering.ofJson · = .ok numbering) .numbering numbering.toJson True := by
  have h := Recognizes.tuple (.cons (.integer numbering.start)
    (.cons numbering.style.recognizes (.cons numbering.delimiter.recognizes .nil)))
  exact (h.congr (by simp)).of_iff fun _ => ListNumbering.ofJson_eq_ok_iff

/-- Widths are recognized if they are finite. -/
theorem Binary64.recognizesList (widths : List Binary64) :
    Recognizes (IsList (fun w x => ∃ n, x = .num n ∧ n.toDouble = w) widths) (.list .width)
      (.arr (widths.map Binary64.toJson)) (∀ w ∈ widths, w.isFinite = true) := by
  induction widths with
  | nil => exact Recognizes.nil.congr (by simp)
  | cons w ws ih => exact (Recognizes.cons (.width w) ih).congr List.forall_mem_cons.symm

/-! ## Blocks and inlines -/

mutual

/-- The form of a block recognizes what is written for the block. -/
theorem Block.form_recognizes : (b : Block) →
    Recognizes b.Form (.node .block) b.toJson (∀ w ∈ b.widths, w.isFinite = true)
  | .plain content => .node rfl (Inline.recognizesList content)
  | .para content => .node rfl (Inline.recognizesList content)
  | .lineBlock lines => .node rfl (Inline.recognizesLines lines)
  | .codeBlock attr text => by
    refine .node rfl ((Recognizes.tuple (.cons attr.recognizes
      (.cons (.text text) .nil))).congr ?_)
    simp [Block.widths]
  | .rawBlock format text => by
    refine .node rfl ((Recognizes.tuple (.cons (.text format)
      (.cons (.text text) .nil))).congr ?_)
    simp [Block.widths]
  | .blockQuote content => .node rfl (Block.recognizesList content)
  | .orderedList numbering items => by
    refine .node rfl ((Recognizes.tuple (.cons numbering.recognizes
      (.cons (Block.recognizesItems items) .nil))).congr ?_)
    simp [Block.widths]
  | .bulletList items => .node rfl (Block.recognizesItems items)
  | .definitionList items => .node rfl (Definition.recognizesList items)
  | .header level attr content => by
    refine .node rfl ((Recognizes.tuple (.cons (.integer level) (.cons attr.recognizes
      (.cons (Inline.recognizesList content) .nil)))).congr ?_)
    simp [Block.widths]
  | .horizontalRule => (Recognizes.tagged rfl).congr (by simp [Block.widths])
  | .table caption alignments widths headers rows => by
    have halignments : Recognizes (IsList (fun a x => Choice.ofJson x = .ok a) alignments)
        (.list (.node .alignment)) (.arr (alignments.map Choice.toJson)) True :=
      .list fun a _ => a.recognizes
    refine .node rfl ((Recognizes.tuple (.cons (Inline.recognizesList caption)
      (.cons halignments (.cons (Binary64.recognizesList widths)
        (.cons (Block.recognizesItems headers)
          (.cons (Block.recognizesRows rows) .nil)))))).congr ?_)
    simp [Block.widths, or_imp, forall_and]
  | .div attr content => by
    refine .node rfl ((Recognizes.tuple (.cons attr.recognizes
      (.cons (Block.recognizesList content) .nil))).congr ?_)
    simp [Block.widths]
  | .null => (Recognizes.tagged rfl).congr (by simp [Block.widths])

/-- The reader of a sequence of blocks recognizes what is written for it. -/
theorem Block.recognizesList : (as : List Block) →
    Recognizes (Block.ofJsonList · = .ok as) .blocks (.arr (Block.toJsonList as))
      (∀ w ∈ Block.widthsList as, w.isFinite = true)
  | [] => by
    refine .of_iff (Recognizes.nil.congr ?_) fun _ => Block.ofJsonList_eq_ok_iff
    simp [Block.widthsList]
  | a :: as => by
    have htail := (Block.recognizesList as).of_iff fun _ => Block.ofJsonList_eq_ok_iff.symm
    have hhead := (Block.form_recognizes a).of_iff fun _ => Block.ofJson_eq_ok_iff
    refine .of_iff ((Recognizes.cons hhead htail).congr ?_) fun _ => Block.ofJsonList_eq_ok_iff
    exact List.forall_mem_append.symm

/-- The reader of items and cells recognizes what is written for them. -/
theorem Block.recognizesItems : (as : List (List Block)) →
    Recognizes (Block.ofJsonItems · = .ok as) .items (.arr (Block.toJsonItems as))
      (∀ w ∈ Block.widthsItems as, w.isFinite = true)
  | [] => by
    refine .of_iff (Recognizes.nil.congr ?_) fun _ => Block.ofJsonItems_eq_ok_iff
    simp [Block.widthsItems]
  | a :: as => by
    have htail := (Block.recognizesItems as).of_iff fun _ => Block.ofJsonItems_eq_ok_iff.symm
    refine .of_iff ((Recognizes.cons (Block.recognizesList a) htail).congr ?_)
      fun _ => Block.ofJsonItems_eq_ok_iff
    exact List.forall_mem_append.symm

/-- Rows are recognized one by one. -/
theorem Block.recognizesRows : (as : List (List (List Block))) →
    Recognizes (IsList (fun row x => Block.ofJsonItems x = .ok row) as)
      (.list .items) (.arr (Block.toJsonRows as))
      (∀ w ∈ Block.widthsRows as, w.isFinite = true)
  | [] => Recognizes.nil.congr (by simp [Block.widthsRows])
  | a :: as => (Recognizes.cons (Block.recognizesItems a) (Block.recognizesRows as)).congr
    List.forall_mem_append.symm

/-- The reader of a term with its definitions recognizes what is written for it. -/
theorem Definition.recognizes : (d : Definition) →
    Recognizes (Definition.ofJson · = .ok d) .definition d.toJson
      (∀ w ∈ d.widths, w.isFinite = true)
  | .mk term definitions => by
    refine .of_iff ((Recognizes.tuple (.cons (Inline.recognizesList term)
      (.cons (Block.recognizesItems definitions) .nil))).congr ?_)
      fun _ => Definition.ofJson_eq_ok_iff
    simp [Definition.widths, or_imp, forall_and]

/-- Definitions are recognized one by one. -/
theorem Definition.recognizesList : (as : List Definition) →
    Recognizes (IsList (fun item x => Definition.ofJson x = .ok item) as)
      (.list .definition) (.arr (Definition.toJsonList as))
      (∀ w ∈ Definition.widthsList as, w.isFinite = true)
  | [] => Recognizes.nil.congr (by simp [Definition.widthsList])
  | a :: as => (Recognizes.cons (Definition.recognizes a) (Definition.recognizesList as)).congr
    List.forall_mem_append.symm

/-- The form of an inline recognizes what is written for the inline. -/
theorem Inline.form_recognizes : (x : Inline) →
    Recognizes x.Form (.node .inline) x.toJson (∀ w ∈ x.widths, w.isFinite = true)
  | .str text => (Recognizes.node rfl (.text text)).congr (by simp [Inline.widths])
  | .emph content => .node rfl (Inline.recognizesList content)
  | .strong content => .node rfl (Inline.recognizesList content)
  | .strikeout content => .node rfl (Inline.recognizesList content)
  | .superscript content => .node rfl (Inline.recognizesList content)
  | .subscript content => .node rfl (Inline.recognizesList content)
  | .smallCaps content => .node rfl (Inline.recognizesList content)
  | .quoted kind content => by
    refine .node rfl ((Recognizes.tuple (.cons kind.recognizes
      (.cons (Inline.recognizesList content) .nil))).congr ?_)
    simp [Inline.widths]
  | .cite citations content => by
    refine .node rfl ((Recognizes.tuple (.cons (Citation.recognizesList citations)
      (.cons (Inline.recognizesList content) .nil))).congr ?_)
    simp [Inline.widths, or_imp, forall_and]
  | .code attr text => by
    refine .node rfl ((Recognizes.tuple (.cons attr.recognizes
      (.cons (.text text) .nil))).congr ?_)
    simp [Inline.widths]
  | .space => (Recognizes.tagged rfl).congr (by simp [Inline.widths])
  | .softBreak => (Recognizes.tagged rfl).congr (by simp [Inline.widths])
  | .lineBreak => (Recognizes.tagged rfl).congr (by simp [Inline.widths])
  | .math kind text => by
    refine .node rfl ((Recognizes.tuple (.cons kind.recognizes
      (.cons (.text text) .nil))).congr ?_)
    simp [Inline.widths]
  | .rawInline format text => by
    refine .node rfl ((Recognizes.tuple (.cons (.text format)
      (.cons (.text text) .nil))).congr ?_)
    simp [Inline.widths]
  | .link attr content target => by
    refine .node rfl ((Recognizes.tuple (.cons attr.recognizes
      (.cons (Inline.recognizesList content) (.cons target.recognizes .nil)))).congr ?_)
    simp [Inline.widths]
  | .image attr content target => by
    refine .node rfl ((Recognizes.tuple (.cons attr.recognizes
      (.cons (Inline.recognizesList content) (.cons target.recognizes .nil)))).congr ?_)
    simp [Inline.widths]
  | .note content => .node rfl (Block.recognizesList content)
  | .span attr content => by
    refine .node rfl ((Recognizes.tuple (.cons attr.recognizes
      (.cons (Inline.recognizesList content) .nil))).congr ?_)
    simp [Inline.widths]

/-- The reader of running text recognizes what is written for it. -/
theorem Inline.recognizesList : (as : List Inline) →
    Recognizes (Inline.ofJsonList · = .ok as) .inlines (.arr (Inline.toJsonList as))
      (∀ w ∈ Inline.widthsList as, w.isFinite = true)
  | [] => by
    refine .of_iff (Recognizes.nil.congr ?_) fun _ => Inline.ofJsonList_eq_ok_iff
    simp [Inline.widthsList]
  | a :: as => by
    have htail := (Inline.recognizesList as).of_iff fun _ => Inline.ofJsonList_eq_ok_iff.symm
    have hhead := (Inline.form_recognizes a).of_iff fun _ => Inline.ofJson_eq_ok_iff
    refine .of_iff ((Recognizes.cons hhead htail).congr ?_) fun _ => Inline.ofJsonList_eq_ok_iff
    exact List.forall_mem_append.symm

/-- Lines are recognized one by one. -/
theorem Inline.recognizesLines : (as : List (List Inline)) →
    Recognizes (IsList (fun line x => Inline.ofJsonList x = .ok line) as)
      (.list .inlines) (.arr (Inline.toJsonLines as))
      (∀ w ∈ Inline.widthsLines as, w.isFinite = true)
  | [] => Recognizes.nil.congr (by simp [Inline.widthsLines])
  | a :: as => (Recognizes.cons (Inline.recognizesList a) (Inline.recognizesLines as)).congr
    List.forall_mem_append.symm

/-- The reader of citations recognizes what is written for a citation. -/
theorem Citation.recognizes : (c : Citation) →
    Recognizes (Citation.ofJson · = .ok c) .citation c.toJson
      (∀ w ∈ c.widths, w.isFinite = true)
  | .mk id before after mode noteNumber hash => by
    have hfields : Ascending [("citationHash", Shape.integer), ("citationId", .text),
        ("citationMode", .node .citationMode), ("citationNoteNum", .integer),
        ("citationPrefix", .inlines), ("citationSuffix", .inlines)] :=
      ascending_iff_keys.2 (by decide)
    refine .of_iff ((Recognizes.record hfields (.cons (.integer hash) (.cons (.text id)
      (.cons mode.recognizes (.cons (.integer noteNumber) (.cons (Inline.recognizesList before)
        (.cons (Inline.recognizesList after) .nil))))))).congr ?_)
      fun _ => Citation.ofJson_eq_ok_iff
    simp [Citation.widths, or_imp, forall_and]

/-- Citations are recognized one by one. -/
theorem Citation.recognizesList : (as : List Citation) →
    Recognizes (IsList (fun c x => Citation.ofJson x = .ok c) as)
      (.list .citation) (.arr (Citation.toJsonList as))
      (∀ w ∈ Citation.widthsList as, w.isFinite = true)
  | [] => Recognizes.nil.congr (by simp [Citation.widthsList])
  | a :: as => (Recognizes.cons (Citation.recognizes a) (Citation.recognizesList as)).congr
    List.forall_mem_append.symm

end

/-- The reader of blocks recognizes what is written for a block. -/
theorem Block.recognizes (b : Block) :
    Recognizes (Block.ofJson · = .ok b) (.node .block) b.toJson
      (∀ w ∈ b.widths, w.isFinite = true) :=
  b.form_recognizes.of_iff fun _ => Block.ofJson_eq_ok_iff

/-- The reader of inlines recognizes what is written for an inline. -/
theorem Inline.recognizes (x : Inline) :
    Recognizes (Inline.ofJson · = .ok x) (.node .inline) x.toJson
      (∀ w ∈ x.widths, w.isFinite = true) :=
  x.form_recognizes.of_iff fun _ => Inline.ofJson_eq_ok_iff

/-! ## Metadata -/

namespace MetaValue

/-- All widths in a metadata value are finite, and all keys ascend. -/
def WellFormed (m : MetaValue) : Prop :=
  (∀ w ∈ m.widths, w.isFinite = true) ∧ ∀ keys ∈ m.keyLists, keys.Pairwise (· < ·)

/-- All widths in metadata are finite, and all keys ascend. -/
def WellFormedEntries (entries : List (String × MetaValue)) : Prop :=
  (∀ w ∈ widthsEntries entries, w.isFinite = true) ∧
    ∀ keys ∈ Meta.keys entries :: keyListsEntries entries, keys.Pairwise (· < ·)

/-- Metadata is well-formed if its values are and its own keys ascend. -/
theorem wellFormedEntries_iff {entries : List (String × MetaValue)} :
    WellFormedEntries entries ↔ Ascending entries ∧ ∀ e ∈ entries, e.2.WellFormed := by
  have hvalues : (∀ e ∈ entries, e.2.WellFormed) ↔
      (∀ w ∈ widthsEntries entries, w.isFinite = true) ∧
        ∀ keys ∈ keyListsEntries entries, keys.Pairwise (· < ·) := by
    induction entries with
    | nil => simp [widthsEntries, keyListsEntries]
    | cons e rest ih =>
      obtain ⟨key, m⟩ := e
      rw [List.forall_mem_cons, ih, widthsEntries, keyListsEntries, List.forall_mem_append,
        List.forall_mem_append]
      exact and_and_and_comm
  rw [hvalues, WellFormedEntries, List.forall_mem_cons, ascending_iff_keys, and_left_comm]
  rfl

/-- The reader of metadata recognizes what is written for it, if the readers of its values do. -/
theorem recognizesEntries_of_forall {entries : List (String × MetaValue)}
    (h : ∀ e ∈ entries, Recognizes (MetaValue.ofJson · = .ok e.2) (.node .metaValue) e.2.toJson
      e.2.WellFormed) :
    Recognizes (MetaValue.ofJsonEntries · = .ok entries) .entries (.object (toJsonEntries entries))
      (WellFormedEntries entries) := by
  have hentries : toJsonEntries entries = entries.map fun e => (e.1, e.2.toJson) := by
    clear h
    induction entries with
    | nil => rfl
    | cons e rest ih => rw [toJsonEntries, ih, List.map_cons]
  rw [hentries]
  exact ((Recognizes.dictionary h).congr wellFormedEntries_iff.symm).of_iff
    fun _ => ofJsonEntries_eq_ok_iff

mutual

/-- The form of a metadata value recognizes what is written for that. -/
theorem form_recognizes : (m : MetaValue) →
    Recognizes m.Form (.node .metaValue) m.toJson m.WellFormed
  | .map entries => .node rfl (recognizesEntries_of_forall (recognizes_of_mem entries))
  | .list values => .node rfl (recognizesList values)
  | .bool b => (Recognizes.node rfl (.truth b)).congr (by simp [WellFormed, widths, keyLists])
  | .str s => (Recognizes.node rfl (.text s)).congr (by simp [WellFormed, widths, keyLists])
  | .inlines content => by
    refine .node rfl ((Inline.recognizesList content).congr ?_)
    simp [WellFormed, widths, keyLists]
  | .blocks content => by
    refine .node rfl ((Block.recognizesList content).congr ?_)
    simp [WellFormed, widths, keyLists]

/-- Metadata values are recognized one by one. -/
theorem recognizesList : (ms : List MetaValue) →
    Recognizes (IsList (fun m x => MetaValue.ofJson x = .ok m) ms) (.list (.node .metaValue))
      (.arr (toJsonList ms)) ((∀ w ∈ widthsList ms, w.isFinite = true) ∧
        ∀ keys ∈ keyListsList ms, keys.Pairwise (· < ·))
  | [] => Recognizes.nil.congr (by simp [widthsList, keyListsList])
  | m :: ms => by
    have hhead := (form_recognizes m).of_iff fun _ => MetaValue.ofJson_eq_ok_iff
    refine (Recognizes.cons hhead (recognizesList ms)).congr ?_
    rw [widthsList, keyListsList, List.forall_mem_append, List.forall_mem_append]
    exact and_and_and_comm

/-- The values of metadata are recognized. -/
theorem recognizes_of_mem : (entries : List (String × MetaValue)) → ∀ e ∈ entries,
    Recognizes (MetaValue.ofJson · = .ok e.2) (.node .metaValue) e.2.toJson e.2.WellFormed
  | [], _, he => nomatch he
  | (key, m) :: rest, e, he => by
    rcases List.mem_cons.1 he with rfl | he
    · exact (form_recognizes m).of_iff fun _ => MetaValue.ofJson_eq_ok_iff
    · exact recognizes_of_mem rest e he

end

/-- The reader of metadata values recognizes what is written for one. -/
theorem recognizes (m : MetaValue) :
    Recognizes (MetaValue.ofJson · = .ok m) (.node .metaValue) m.toJson m.WellFormed :=
  m.form_recognizes.of_iff fun _ => ofJson_eq_ok_iff

/-- The reader of metadata recognizes what is written for it. -/
theorem recognizesEntries (entries : List (String × MetaValue)) :
    Recognizes (MetaValue.ofJsonEntries · = .ok entries) .entries (.object (toJsonEntries entries))
      (WellFormedEntries entries) :=
  recognizesEntries_of_forall fun e _ => e.2.recognizes

end MetaValue

/-! ## Documents -/

/-- A version is recognized if its tree is known. -/
theorem ApiVersion.recognizes (version : ApiVersion) :
    Recognizes (ApiVersion.ofJson · = .ok version) (.list .small) version.toJson
      (version.isSupported = true) := by
  have h : Recognizes (IsList (fun n x => x = .num (.int n.toNat)) version) (.list .small)
      version.toJson True :=
    .list fun n _ => .small n
  refine ⟨h.written, fun v hv => ?_⟩
  rw [ApiVersion.ofJson_eq_ok_iff, h.iff v hv, and_true]

/-- The reader of documents recognizes what is written for a document, if that is
well-formed. -/
theorem Document.recognizes (d : Document) :
    Recognizes (Document.ofJson · = .ok d) .document d.toJson d.WellFormed := by
  have hfields : Ascending [("blocks", Shape.blocks), ("meta", .entries),
      ("pandoc-api-version", .list .small)] :=
    ascending_iff_keys.2 (by decide)
  have hrecord := Recognizes.record hfields (.cons (Block.recognizesList d.blocks)
    (.cons (MetaValue.recognizesEntries d.metadata)
      (.cons (ApiVersion.recognizes d.apiVersion) .nil)))
  refine (hrecord.congr ?_).of_iff fun _ => Document.ofJson_eq_ok_iff
  constructor
  · rintro ⟨hblocks, ⟨hwidths, hkeys⟩, hversion, -⟩
    exact {
      version := ApiVersion.isSupported_iff.1 hversion
      finite := List.forall_mem_append.2 ⟨hwidths, hblocks⟩
      ascending := hkeys
    }
  · intro h
    obtain ⟨hwidths, hblocks⟩ := List.forall_mem_append.1 h.finite
    exact ⟨hblocks, ⟨hwidths, h.ascending⟩, ApiVersion.isSupported_iff.2 h.version, trivial⟩

end Transclude
