import Transclude.Document.Equality
import Transclude.Document.Metadata
import Transclude.Proofs.Number.Binary64

/-!
# Well-formed documents

A document that can be written and read again: its version is known, its table widths are
numbers, and its metadata lists keys in order.

Main results:

- Definition {lit}`Document.WellFormed`: the three conditions.
- Definitions {lit}`Document.widths`, {lit}`Document.keyLists`: the table widths and the lists of
  keys that occur anywhere in a document.
- Theorem {lit}`Document.WellFormed.same_self`: a well-formed document equals itself.
- Theorem {lit}`Document.keyLists_of_same`: equal documents have the same keys.
-/

namespace Transclude

/-! ## Widths -/

mutual

/-- The table widths that occur in a block. -/
def Block.widths : Block → List Binary64
  | .plain content => Inline.widthsList content
  | .para content => Inline.widthsList content
  | .lineBlock lines => Inline.widthsLines lines
  | .codeBlock _ _ => []
  | .rawBlock _ _ => []
  | .blockQuote content => Block.widthsList content
  | .orderedList _ items => Block.widthsItems items
  | .bulletList items => Block.widthsItems items
  | .definitionList items => Definition.widthsList items
  | .header _ _ content => Inline.widthsList content
  | .horizontalRule => []
  | .table caption _ widths headers rows =>
    Inline.widthsList caption ++ (widths ++ (Block.widthsItems headers ++ Block.widthsRows rows))
  | .div _ content => Block.widthsList content
  | .null => []

/-- The table widths that occur in a sequence of blocks. -/
def Block.widthsList : List Block → List Binary64
  | [] => []
  | b :: bs => Block.widths b ++ Block.widthsList bs

/-- The table widths that occur in items or cells. -/
def Block.widthsItems : List (List Block) → List Binary64
  | [] => []
  | item :: items => Block.widthsList item ++ Block.widthsItems items

/-- The table widths that occur in rows. -/
def Block.widthsRows : List (List (List Block)) → List Binary64
  | [] => []
  | row :: rows => Block.widthsItems row ++ Block.widthsRows rows

/-- The table widths that occur in a term and its definitions. -/
def Definition.widths : Definition → List Binary64
  | .mk term definitions => Inline.widthsList term ++ Block.widthsItems definitions

/-- The table widths that occur in a definition list. -/
def Definition.widthsList : List Definition → List Binary64
  | [] => []
  | d :: ds => Definition.widths d ++ Definition.widthsList ds

/-- The table widths that occur in an inline. -/
def Inline.widths : Inline → List Binary64
  | .str _ => []
  | .emph content => Inline.widthsList content
  | .strong content => Inline.widthsList content
  | .strikeout content => Inline.widthsList content
  | .superscript content => Inline.widthsList content
  | .subscript content => Inline.widthsList content
  | .smallCaps content => Inline.widthsList content
  | .quoted _ content => Inline.widthsList content
  | .cite citations content => Citation.widthsList citations ++ Inline.widthsList content
  | .code _ _ => []
  | .space => []
  | .softBreak => []
  | .lineBreak => []
  | .math _ _ => []
  | .rawInline _ _ => []
  | .link _ content _ => Inline.widthsList content
  | .image _ content _ => Inline.widthsList content
  | .note content => Block.widthsList content
  | .span _ content => Inline.widthsList content

/-- The table widths that occur in running text. -/
def Inline.widthsList : List Inline → List Binary64
  | [] => []
  | x :: xs => Inline.widths x ++ Inline.widthsList xs

/-- The table widths that occur in lines. -/
def Inline.widthsLines : List (List Inline) → List Binary64
  | [] => []
  | line :: lines => Inline.widthsList line ++ Inline.widthsLines lines

/-- The table widths that occur before and after a citation. -/
def Citation.widths : Citation → List Binary64
  | .mk _ before after _ _ _ => Inline.widthsList before ++ Inline.widthsList after

/-- The table widths that occur in citations. -/
def Citation.widthsList : List Citation → List Binary64
  | [] => []
  | c :: cs => Citation.widths c ++ Citation.widthsList cs

end

mutual

/-- The table widths that occur in a metadata value. -/
def MetaValue.widths : MetaValue → List Binary64
  | .map entries => MetaValue.widthsEntries entries
  | .list values => MetaValue.widthsList values
  | .bool _ => []
  | .str _ => []
  | .inlines content => Inline.widthsList content
  | .blocks content => Block.widthsList content

/-- The table widths that occur in a list of metadata values. -/
def MetaValue.widthsList : List MetaValue → List Binary64
  | [] => []
  | m :: ms => MetaValue.widths m ++ MetaValue.widthsList ms

/-- The table widths that occur in metadata. -/
def MetaValue.widthsEntries : List (String × MetaValue) → List Binary64
  | [] => []
  | (_, m) :: rest => MetaValue.widths m ++ MetaValue.widthsEntries rest

end

/-- The table widths that occur in a document. -/
def Document.widths (d : Document) : List Binary64 :=
  MetaValue.widthsEntries d.metadata ++ Block.widthsList d.blocks

/-! ## Keys -/

mutual

/-- The lists of keys of the maps in a metadata value. -/
def MetaValue.keyLists : MetaValue → List (List String)
  | .map entries => Meta.keys entries :: MetaValue.keyListsEntries entries
  | .list values => MetaValue.keyListsList values
  | .bool _ => []
  | .str _ => []
  | .inlines _ => []
  | .blocks _ => []

/-- The lists of keys of the maps in a list of metadata values. -/
def MetaValue.keyListsList : List MetaValue → List (List String)
  | [] => []
  | m :: ms => MetaValue.keyLists m ++ MetaValue.keyListsList ms

/-- The lists of keys of the maps below some entries. -/
def MetaValue.keyListsEntries : List (String × MetaValue) → List (List String)
  | [] => []
  | (_, m) :: rest => MetaValue.keyLists m ++ MetaValue.keyListsEntries rest

end

/-- The lists of keys of the metadata of a document, at every depth. -/
def Document.keyLists (d : Document) : List (List String) :=
  Meta.keys d.metadata :: MetaValue.keyListsEntries d.metadata

/-! ## Well-formedness -/

/-- The version is 1.17 or a revision of it, all table widths are finite, and all keys ascend by
code point. -/
structure Document.WellFormed (d : Document) : Prop where
  version : ∃ revision, d.apiVersion = 1 :: 17 :: revision
  finite : ∀ w ∈ d.widths, w.isFinite = true
  ascending : ∀ keys ∈ d.keyLists, keys.Pairwise (· < ·)

/-- The tree is known for version 1.17 and its revisions. -/
theorem ApiVersion.isSupported_iff {version : ApiVersion} :
    version.isSupported = true ↔ ∃ revision, version = 1 :: 17 :: revision := by
  unfold ApiVersion.isSupported ApiVersion.current
  rcases version with _ | ⟨a, _ | ⟨b, revision⟩⟩
  · simp
  · simp
  · simp

/-! ## A well-formed document equals itself -/

namespace Binary64

/-- Finite widths equal themselves. -/
theorem sameList_self {xs : List Binary64} (h : ∀ x ∈ xs, x.isFinite = true) :
    sameList xs xs = true := by
  induction xs with
  | nil => rfl
  | cons x xs ih =>
    obtain ⟨hx, hxs⟩ := List.forall_mem_cons.1 h
    rw [sameList, numEq_self hx, ih hxs, Bool.and_self]

/-- Widths that equal finite ones are finite. -/
theorem isFinite_of_sameList {xs ys : List Binary64} (h : sameList xs ys = true)
    (hxs : ∀ x ∈ xs, x.isFinite = true) : ∀ y ∈ ys, y.isFinite = true := by
  induction xs generalizing ys with
  | nil =>
    cases ys with
    | nil => simp
    | cons y ys => simp [sameList] at h
  | cons x xs ih =>
    cases ys with
    | nil => simp
    | cons y ys =>
      rw [sameList, Bool.and_eq_true] at h
      obtain ⟨hx, hxs⟩ := List.forall_mem_cons.1 hxs
      exact List.forall_mem_cons.2 ⟨isFinite_eq_of_numEq h.1 ▸ hx, ih h.2 hxs⟩

/-- Equality of lists of widths goes part by part. -/
theorem sameList_append {as bs as' bs' : List Binary64} (ha : sameList as as' = true)
    (hb : sameList bs bs' = true) : sameList (as ++ bs) (as' ++ bs') = true := by
  induction as generalizing as' with
  | nil =>
    cases as' with
    | nil => exact hb
    | cons a' as' => simp [sameList] at ha
  | cons a as ih =>
    cases as' with
    | nil => simp [sameList] at ha
    | cons a' as' =>
      rw [sameList, Bool.and_eq_true] at ha
      rw [List.cons_append, List.cons_append, sameList, ha.1, ih ha.2, Bool.and_self]

end Binary64

mutual

/-- A block whose widths are finite equals itself. -/
theorem Block.same_self : (b : Block) → (∀ w ∈ b.widths, w.isFinite = true) →
    Block.same b b = true
  | .plain content, h => Inline.sameList_self content h
  | .para content, h => Inline.sameList_self content h
  | .lineBlock lines, h => Inline.sameLines_self lines h
  | .codeBlock attr text, _ => by simp [Block.same]
  | .rawBlock format text, _ => by simp [Block.same]
  | .blockQuote content, h => Block.sameList_self content h
  | .orderedList numbering items, h => by
    rw [Block.same, Block.sameItems_self items h, Bool.and_true]
    exact beq_self_eq_true numbering
  | .bulletList items, h => Block.sameItems_self items h
  | .definitionList items, h => Definition.sameList_self items h
  | .header level attr content, h => by
    rw [Block.same, Inline.sameList_self content h]
    simp
  | .horizontalRule, _ => rfl
  | .table caption alignments widths headers rows, h => by
    simp only [Block.widths, List.forall_mem_append] at h
    obtain ⟨hcaption, hwidths, hheaders, hrows⟩ := h
    rw [Block.same, Inline.sameList_self caption hcaption, Binary64.sameList_self hwidths,
      Block.sameItems_self headers hheaders, Block.sameRows_self rows hrows]
    simp
  | .div attr content, h => by
    rw [Block.same, Block.sameList_self content h]
    simp
  | .null, _ => rfl

/-- So does a sequence of blocks. -/
theorem Block.sameList_self : (bs : List Block) →
    (∀ w ∈ Block.widthsList bs, w.isFinite = true) → Block.sameList bs bs = true
  | [], _ => rfl
  | b :: bs, h => by
    obtain ⟨hb, hbs⟩ := List.forall_mem_append.1 h
    rw [Block.sameList, Block.same_self b hb, Block.sameList_self bs hbs, Bool.and_self]

/-- So do the items of a list. -/
theorem Block.sameItems_self : (items : List (List Block)) →
    (∀ w ∈ Block.widthsItems items, w.isFinite = true) → Block.sameItems items items = true
  | [], _ => rfl
  | item :: items, h => by
    obtain ⟨hitem, hitems⟩ := List.forall_mem_append.1 h
    rw [Block.sameItems, Block.sameList_self item hitem, Block.sameItems_self items hitems,
      Bool.and_self]

/-- So do the rows of a table. -/
theorem Block.sameRows_self : (rows : List (List (List Block))) →
    (∀ w ∈ Block.widthsRows rows, w.isFinite = true) → Block.sameRows rows rows = true
  | [], _ => rfl
  | row :: rows, h => by
    obtain ⟨hrow, hrows⟩ := List.forall_mem_append.1 h
    rw [Block.sameRows, Block.sameItems_self row hrow, Block.sameRows_self rows hrows,
      Bool.and_self]

/-- So does a term with its definitions. -/
theorem Definition.same_self : (d : Definition) → (∀ w ∈ d.widths, w.isFinite = true) →
    Definition.same d d = true
  | .mk term definitions, h => by
    obtain ⟨hterm, hdefinitions⟩ := List.forall_mem_append.1 h
    rw [Definition.same, Inline.sameList_self term hterm,
      Block.sameItems_self definitions hdefinitions, Bool.and_self]

/-- So does a definition list. -/
theorem Definition.sameList_self : (ds : List Definition) →
    (∀ w ∈ Definition.widthsList ds, w.isFinite = true) → Definition.sameList ds ds = true
  | [], _ => rfl
  | d :: ds, h => by
    obtain ⟨hd, hds⟩ := List.forall_mem_append.1 h
    rw [Definition.sameList, Definition.same_self d hd, Definition.sameList_self ds hds,
      Bool.and_self]

/-- An inline whose widths are finite equals itself. -/
theorem Inline.same_self : (x : Inline) → (∀ w ∈ x.widths, w.isFinite = true) →
    Inline.same x x = true
  | .str text, _ => beq_self_eq_true text
  | .emph content, h => Inline.sameList_self content h
  | .strong content, h => Inline.sameList_self content h
  | .strikeout content, h => Inline.sameList_self content h
  | .superscript content, h => Inline.sameList_self content h
  | .subscript content, h => Inline.sameList_self content h
  | .smallCaps content, h => Inline.sameList_self content h
  | .quoted kind content, h => by
    rw [Inline.same, Inline.sameList_self content h]
    simp
  | .cite citations content, h => by
    obtain ⟨hcitations, hcontent⟩ := List.forall_mem_append.1 h
    rw [Inline.same, Citation.sameList_self citations hcitations,
      Inline.sameList_self content hcontent, Bool.and_self]
  | .code attr text, _ => by simp [Inline.same]
  | .space, _ => rfl
  | .softBreak, _ => rfl
  | .lineBreak, _ => rfl
  | .math kind text, _ => by simp [Inline.same]
  | .rawInline format text, _ => by simp [Inline.same]
  | .link attr content target, h => by
    rw [Inline.same, Inline.sameList_self content h]
    simp
  | .image attr content target, h => by
    rw [Inline.same, Inline.sameList_self content h]
    simp
  | .note content, h => Block.sameList_self content h
  | .span attr content, h => by
    rw [Inline.same, Inline.sameList_self content h]
    simp

/-- So does running text. -/
theorem Inline.sameList_self : (xs : List Inline) →
    (∀ w ∈ Inline.widthsList xs, w.isFinite = true) → Inline.sameList xs xs = true
  | [], _ => rfl
  | x :: xs, h => by
    obtain ⟨hx, hxs⟩ := List.forall_mem_append.1 h
    rw [Inline.sameList, Inline.same_self x hx, Inline.sameList_self xs hxs, Bool.and_self]

/-- So do the lines of a line block. -/
theorem Inline.sameLines_self : (lines : List (List Inline)) →
    (∀ w ∈ Inline.widthsLines lines, w.isFinite = true) → Inline.sameLines lines lines = true
  | [], _ => rfl
  | line :: lines, h => by
    obtain ⟨hline, hlines⟩ := List.forall_mem_append.1 h
    rw [Inline.sameLines, Inline.sameList_self line hline, Inline.sameLines_self lines hlines,
      Bool.and_self]

/-- So does a citation. -/
theorem Citation.same_self : (c : Citation) → (∀ w ∈ c.widths, w.isFinite = true) →
    Citation.same c c = true
  | .mk id before after mode noteNumber hash, h => by
    obtain ⟨hbefore, hafter⟩ := List.forall_mem_append.1 h
    rw [Citation.same, Inline.sameList_self before hbefore, Inline.sameList_self after hafter]
    simp

/-- So does a list of citations. -/
theorem Citation.sameList_self : (cs : List Citation) →
    (∀ w ∈ Citation.widthsList cs, w.isFinite = true) → Citation.sameList cs cs = true
  | [], _ => rfl
  | c :: cs, h => by
    obtain ⟨hc, hcs⟩ := List.forall_mem_append.1 h
    rw [Citation.sameList, Citation.same_self c hc, Citation.sameList_self cs hcs, Bool.and_self]

end

mutual

/-- A metadata value whose widths are finite equals itself. -/
theorem MetaValue.same_self : (m : MetaValue) → (∀ w ∈ m.widths, w.isFinite = true) →
    MetaValue.same m m = true
  | .map entries, h => MetaValue.sameEntries_self entries h
  | .list values, h => MetaValue.sameList_self values h
  | .bool b, _ => beq_self_eq_true b
  | .str s, _ => beq_self_eq_true s
  | .inlines content, h => Inline.sameList_self content h
  | .blocks content, h => Block.sameList_self content h

/-- So does a list of metadata values. -/
theorem MetaValue.sameList_self : (ms : List MetaValue) →
    (∀ w ∈ MetaValue.widthsList ms, w.isFinite = true) → MetaValue.sameList ms ms = true
  | [], _ => rfl
  | m :: ms, h => by
    obtain ⟨hm, hms⟩ := List.forall_mem_append.1 h
    rw [MetaValue.sameList, MetaValue.same_self m hm, MetaValue.sameList_self ms hms,
      Bool.and_self]

/-- So do the entries of a map. -/
theorem MetaValue.sameEntries_self : (entries : List (String × MetaValue)) →
    (∀ w ∈ MetaValue.widthsEntries entries, w.isFinite = true) →
    MetaValue.sameEntries entries entries = true
  | [], _ => rfl
  | (key, m) :: rest, h => by
    obtain ⟨hm, hrest⟩ := List.forall_mem_append.1 h
    rw [MetaValue.sameEntries, MetaValue.same_self m hm, MetaValue.sameEntries_self rest hrest]
    simp

end

/-! ## Equal documents have the same keys -/

mutual

/-- Equal metadata values have the same keys. -/
theorem MetaValue.keyLists_of_same : (a b : MetaValue) → MetaValue.same a b = true →
    a.keyLists = b.keyLists
  | .map entries, b, h => by
    cases b with
    | map entries' =>
      obtain ⟨hkeys, hlists⟩ := MetaValue.keyLists_of_sameEntries entries entries' h
      rw [MetaValue.keyLists, MetaValue.keyLists, hkeys, hlists]
    | _ => exact absurd h Bool.false_ne_true
  | .list values, b, h => by
    cases b with
    | list values' => exact MetaValue.keyLists_of_sameList values values' h
    | _ => exact absurd h Bool.false_ne_true
  | .bool _, b, h => by
    cases b with
    | bool _ => rfl
    | _ => exact absurd h Bool.false_ne_true
  | .str _, b, h => by
    cases b with
    | str _ => rfl
    | _ => exact absurd h Bool.false_ne_true
  | .inlines _, b, h => by
    cases b with
    | inlines _ => rfl
    | _ => exact absurd h Bool.false_ne_true
  | .blocks _, b, h => by
    cases b with
    | blocks _ => rfl
    | _ => exact absurd h Bool.false_ne_true

/-- So do equal lists of metadata values. -/
theorem MetaValue.keyLists_of_sameList : (as bs : List MetaValue) →
    MetaValue.sameList as bs = true →
    MetaValue.keyListsList as = MetaValue.keyListsList bs
  | [], [], _ => rfl
  | [], _ :: _, h => absurd h Bool.false_ne_true
  | _ :: _, [], h => absurd h Bool.false_ne_true
  | a :: as, b :: bs, h => by
    obtain ⟨hhead, htail⟩ := Bool.and_eq_true_iff.1 h
    rw [MetaValue.keyListsList, MetaValue.keyListsList, MetaValue.keyLists_of_same a b hhead,
      MetaValue.keyLists_of_sameList as bs htail]

/-- So do equal entries, and the values in them. -/
theorem MetaValue.keyLists_of_sameEntries : (as bs : List (String × MetaValue)) →
    MetaValue.sameEntries as bs = true →
    Meta.keys as = Meta.keys bs ∧
      MetaValue.keyListsEntries as = MetaValue.keyListsEntries bs
  | [], [], _ => ⟨rfl, rfl⟩
  | [], _ :: _, h => absurd h Bool.false_ne_true
  | _ :: _, [], h => absurd h Bool.false_ne_true
  | (key, a) :: as, (key', b) :: bs, h => by
    simp only [MetaValue.sameEntries, Bool.and_eq_true, beq_iff_eq] at h
    obtain ⟨⟨hkey, hhead⟩, htail⟩ := h
    obtain ⟨hkeys, hlists⟩ := MetaValue.keyLists_of_sameEntries as bs htail
    constructor
    · rw [Meta.keys, List.map_cons, hkey]
      exact congrArg _ hkeys
    · rw [MetaValue.keyListsEntries, MetaValue.keyListsEntries, hlists,
        MetaValue.keyLists_of_same a b hhead]

end

/-! ## Documents -/

namespace Document

/-- A well-formed document equals itself. -/
theorem WellFormed.same_self {d : Document} (h : d.WellFormed) : (d == d) = true := by
  obtain ⟨hmeta, hblocks⟩ := List.forall_mem_append.1 h.finite
  show Document.same d d = true
  rw [Document.same, MetaValue.sameEntries_self d.metadata hmeta,
    Block.sameList_self d.blocks hblocks]
  simp

/-- Equal documents have the same keys. -/
theorem keyLists_of_same {a b : Document} (h : (a == b) = true) : a.keyLists = b.keyLists := by
  have hsame : Document.same a b = true := h
  simp only [Document.same, Bool.and_eq_true] at hsame
  obtain ⟨hkeys, hlists⟩ := MetaValue.keyLists_of_sameEntries _ _ hsame.1.2
  rw [keyLists, keyLists, hkeys, hlists]

end Document

end Transclude
