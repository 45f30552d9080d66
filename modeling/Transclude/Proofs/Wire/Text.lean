import Transclude.Proofs.Json.Text
import Transclude.Proofs.Text.Utf8
import Transclude.Proofs.Wire.RoundTrip
import Transclude.Wire.Text

/-!
# Documents survive as bytes

The only doubles in the value of a document are its table widths.  So the bytes of a well-formed
document are read as that document, if its value nests no deeper than a text may and the number
reader gives back its widths.

Main results:

- Theorem {lit}`Document.mem_widths_of_mem_doubles`: the doubles of a document are widths.
- Theorem {lit}`Document.ofText_toText`: the text of a document is read as the document.
- Theorem {lit}`Document.ofBytes_toBytes`: so are its bytes.
-/

namespace Transclude

namespace Json

/-! ## Doubles of leaves -/

@[simp] theorem doubles_node (tag : String) (content : Json) :
    (node tag content).doubles = content.doubles := by
  simp [node, doubles, memberDoubles]

@[simp] theorem doubles_tagged (tag : String) : (tagged tag).doubles = [] := by
  simp [tagged, doubles, memberDoubles]

@[simp] theorem doubles_int (n : Int64) : (int n).doubles = [] := by
  simp [int, doubles]

@[simp] theorem doubles_str (s : String) : (str s).doubles = [] := by
  simp [doubles]

@[simp] theorem doubles_bool (b : Bool) : (bool b).doubles = [] := by
  simp [doubles]

@[simp] theorem doubles_arr (elements : List Json) :
    (arr elements).doubles = elementDoubles elements := by
  rw [doubles]

@[simp] theorem doubles_obj (members : List (String × Json)) :
    (obj members).doubles = memberDoubles members := by
  rw [doubles]

attribute [simp] elementDoubles memberDoubles

/-- Elements without doubles have none together. -/
theorem elementDoubles_map_eq_nil {α : Type} {f : α → Json} (h : ∀ a, (f a).doubles = [])
    (as : List α) : elementDoubles (as.map f) = [] := by
  induction as with
  | nil => rfl
  | cons a as ih => simp [h, ih]

end Json

open Json

@[simp] theorem Choice.doubles_toJson {α : Type} [Choice α] (a : α) :
    (Choice.toJson a).doubles = [] :=
  doubles_tagged _

/-- Attributes hold texts only. -/
@[simp] theorem Attr.doubles_toJson (attr : Attr) : attr.toJson.doubles = [] := by
  have hclasses := elementDoubles_map_eq_nil doubles_str attr.classes
  have hpairs := elementDoubles_map_eq_nil (f := fun (pair : String × String) =>
    .arr [.str pair.1, .str pair.2]) (by simp) attr.pairs
  simp [Attr.toJson, hclasses, hpairs]

@[simp] theorem Target.doubles_toJson (target : Target) : target.toJson.doubles = [] := by
  simp [Target.toJson]

@[simp] theorem ListNumbering.doubles_toJson (numbering : ListNumbering) :
    numbering.toJson.doubles = [] := by
  simp [ListNumbering.toJson]

/-- The doubles among written widths are the finite ones. -/
theorem Binary64.elementDoubles_toJson (widths : List Binary64) :
    elementDoubles (widths.map Binary64.toJson) = widths.filter Binary64.isFinite := by
  induction widths with
  | nil => rfl
  | cons x widths ih =>
    cases hx : x.isFinite with
    | true => simp [Binary64.toJson, hx, ih, doubles]
    | false => simp [Binary64.toJson, hx, ih, doubles]

/-! ## Doubles of nodes -/

mutual

/-- The doubles of a block are its finite widths. -/
theorem Block.doubles_toJson : (b : Block) →
    b.toJson.doubles = b.widths.filter Binary64.isFinite
  | .plain content => by simp [Block.toJson, Block.widths, Inline.doubles_toJsonList content]
  | .para content => by simp [Block.toJson, Block.widths, Inline.doubles_toJsonList content]
  | .lineBlock lines => by simp [Block.toJson, Block.widths, Inline.doubles_toJsonLines lines]
  | .codeBlock attr text => by simp [Block.toJson, Block.widths]
  | .rawBlock format text => by simp [Block.toJson, Block.widths]
  | .blockQuote content => by simp [Block.toJson, Block.widths, Block.doubles_toJsonList content]
  | .orderedList numbering items => by
    simp [Block.toJson, Block.widths, Block.doubles_toJsonItems items]
  | .bulletList items => by simp [Block.toJson, Block.widths, Block.doubles_toJsonItems items]
  | .definitionList items => by
    simp [Block.toJson, Block.widths, Definition.doubles_toJsonList items]
  | .header level attr content => by
    simp [Block.toJson, Block.widths, Inline.doubles_toJsonList content]
  | .horizontalRule => by simp [Block.toJson, Block.widths]
  | .table caption alignments widths headers rows => by
    simp [Block.toJson, Block.widths, Inline.doubles_toJsonList caption,
      elementDoubles_map_eq_nil (Choice.doubles_toJson (α := Alignment)),
      Binary64.elementDoubles_toJson, Block.doubles_toJsonItems headers,
      Block.doubles_toJsonRows rows]
  | .div attr content => by simp [Block.toJson, Block.widths, Block.doubles_toJsonList content]
  | .null => by simp [Block.toJson, Block.widths]

/-- So are the doubles of a sequence of blocks. -/
theorem Block.doubles_toJsonList : (bs : List Block) →
    elementDoubles (Block.toJsonList bs) = (Block.widthsList bs).filter Binary64.isFinite
  | [] => by simp [Block.toJsonList, Block.widthsList]
  | b :: bs => by
    simp [Block.toJsonList, Block.widthsList, Block.doubles_toJson b, Block.doubles_toJsonList bs]

/-- So are the doubles of the items of a list. -/
theorem Block.doubles_toJsonItems : (items : List (List Block)) →
    elementDoubles (Block.toJsonItems items) = (Block.widthsItems items).filter Binary64.isFinite
  | [] => by simp [Block.toJsonItems, Block.widthsItems]
  | item :: items => by
    simp [Block.toJsonItems, Block.widthsItems, Block.doubles_toJsonList item,
      Block.doubles_toJsonItems items]

/-- So are the doubles of the rows of a table. -/
theorem Block.doubles_toJsonRows : (rows : List (List (List Block))) →
    elementDoubles (Block.toJsonRows rows) = (Block.widthsRows rows).filter Binary64.isFinite
  | [] => by simp [Block.toJsonRows, Block.widthsRows]
  | row :: rows => by
    simp [Block.toJsonRows, Block.widthsRows, Block.doubles_toJsonItems row,
      Block.doubles_toJsonRows rows]

/-- The doubles of a term with its definitions are their finite widths. -/
theorem Definition.doubles_toJson : (d : Definition) →
    d.toJson.doubles = d.widths.filter Binary64.isFinite
  | .mk term definitions => by
    simp [Definition.toJson, Definition.widths, Inline.doubles_toJsonList term,
      Block.doubles_toJsonItems definitions]

/-- So are the doubles of a definition list. -/
theorem Definition.doubles_toJsonList : (ds : List Definition) →
    elementDoubles (Definition.toJsonList ds) =
      (Definition.widthsList ds).filter Binary64.isFinite
  | [] => by simp [Definition.toJsonList, Definition.widthsList]
  | d :: ds => by
    simp [Definition.toJsonList, Definition.widthsList, Definition.doubles_toJson d,
      Definition.doubles_toJsonList ds]

/-- The doubles of an inline are its finite widths. -/
theorem Inline.doubles_toJson : (x : Inline) →
    x.toJson.doubles = x.widths.filter Binary64.isFinite
  | .str text => by simp [Inline.toJson, Inline.widths]
  | .emph content => by simp [Inline.toJson, Inline.widths, Inline.doubles_toJsonList content]
  | .strong content => by simp [Inline.toJson, Inline.widths, Inline.doubles_toJsonList content]
  | .strikeout content => by
    simp [Inline.toJson, Inline.widths, Inline.doubles_toJsonList content]
  | .superscript content => by
    simp [Inline.toJson, Inline.widths, Inline.doubles_toJsonList content]
  | .subscript content => by
    simp [Inline.toJson, Inline.widths, Inline.doubles_toJsonList content]
  | .smallCaps content => by
    simp [Inline.toJson, Inline.widths, Inline.doubles_toJsonList content]
  | .quoted kind content => by
    simp [Inline.toJson, Inline.widths, Inline.doubles_toJsonList content]
  | .cite citations content => by
    simp [Inline.toJson, Inline.widths, Citation.doubles_toJsonList citations,
      Inline.doubles_toJsonList content]
  | .code attr text => by simp [Inline.toJson, Inline.widths]
  | .space => by simp [Inline.toJson, Inline.widths]
  | .softBreak => by simp [Inline.toJson, Inline.widths]
  | .lineBreak => by simp [Inline.toJson, Inline.widths]
  | .math kind text => by simp [Inline.toJson, Inline.widths]
  | .rawInline format text => by simp [Inline.toJson, Inline.widths]
  | .link attr content target => by
    simp [Inline.toJson, Inline.widths, Inline.doubles_toJsonList content]
  | .image attr content target => by
    simp [Inline.toJson, Inline.widths, Inline.doubles_toJsonList content]
  | .note content => by simp [Inline.toJson, Inline.widths, Block.doubles_toJsonList content]
  | .span attr content => by
    simp [Inline.toJson, Inline.widths, Inline.doubles_toJsonList content]

/-- So are the doubles of running text. -/
theorem Inline.doubles_toJsonList : (xs : List Inline) →
    elementDoubles (Inline.toJsonList xs) = (Inline.widthsList xs).filter Binary64.isFinite
  | [] => by simp [Inline.toJsonList, Inline.widthsList]
  | x :: xs => by
    simp [Inline.toJsonList, Inline.widthsList, Inline.doubles_toJson x,
      Inline.doubles_toJsonList xs]

/-- So are the doubles of the lines of a line block. -/
theorem Inline.doubles_toJsonLines : (lines : List (List Inline)) →
    elementDoubles (Inline.toJsonLines lines) = (Inline.widthsLines lines).filter Binary64.isFinite
  | [] => by simp [Inline.toJsonLines, Inline.widthsLines]
  | line :: lines => by
    simp [Inline.toJsonLines, Inline.widthsLines, Inline.doubles_toJsonList line,
      Inline.doubles_toJsonLines lines]

/-- The doubles of a citation are the finite widths of its prefix and its suffix. -/
theorem Citation.doubles_toJson : (c : Citation) →
    c.toJson.doubles = c.widths.filter Binary64.isFinite
  | .mk id before after mode noteNumber hash => by
    simp [Citation.toJson, Citation.widths, Inline.doubles_toJsonList before,
      Inline.doubles_toJsonList after]

/-- So are the doubles of a list of citations. -/
theorem Citation.doubles_toJsonList : (cs : List Citation) →
    elementDoubles (Citation.toJsonList cs) = (Citation.widthsList cs).filter Binary64.isFinite
  | [] => by simp [Citation.toJsonList, Citation.widthsList]
  | c :: cs => by
    simp [Citation.toJsonList, Citation.widthsList, Citation.doubles_toJson c,
      Citation.doubles_toJsonList cs]

end

mutual

/-- The doubles of a metadata value are among its widths. -/
theorem MetaValue.mem_widths_of_mem_doubles : (m : MetaValue) →
    ∀ x ∈ m.toJson.doubles, x ∈ m.widths
  | .map entries => by
    intro x hx
    rw [MetaValue.toJson, doubles_node, object, doubles_obj, mem_memberDoubles_iff] at hx
    obtain ⟨member, hmember, hx⟩ := hx
    exact MetaValue.mem_widths_of_mem_entries entries member (mem_of_mem_canonical hmember) x hx
  | .list values => by
    intro x hx
    rw [MetaValue.toJson, doubles_node, doubles_arr] at hx
    exact MetaValue.mem_widths_of_mem_elements values x hx
  | .bool b => by simp [MetaValue.toJson]
  | .str s => by simp [MetaValue.toJson]
  | .inlines content => by
    simp +contextual [MetaValue.toJson, MetaValue.widths, Inline.doubles_toJsonList content]
  | .blocks content => by
    simp +contextual [MetaValue.toJson, MetaValue.widths, Block.doubles_toJsonList content]

/-- The doubles of a list of metadata values are widths. -/
theorem MetaValue.mem_widths_of_mem_elements : (ms : List MetaValue) →
    ∀ x ∈ elementDoubles (MetaValue.toJsonList ms), x ∈ MetaValue.widthsList ms
  | [] => by simp [MetaValue.toJsonList]
  | m :: ms => by
    intro x hx
    rw [MetaValue.toJsonList, elementDoubles] at hx
    rw [MetaValue.widthsList, List.mem_append]
    rcases List.mem_append.1 hx with hx | hx
    · exact Or.inl (MetaValue.mem_widths_of_mem_doubles m x hx)
    · exact Or.inr (MetaValue.mem_widths_of_mem_elements ms x hx)

/-- The doubles of metadata entries are widths. -/
theorem MetaValue.mem_widths_of_mem_entries : (entries : List (String × MetaValue)) →
    ∀ member ∈ MetaValue.toJsonEntries entries, ∀ x ∈ member.2.doubles,
      x ∈ MetaValue.widthsEntries entries
  | [] => by simp [MetaValue.toJsonEntries]
  | (key, m) :: rest => by
    intro member hmember x hx
    rw [MetaValue.widthsEntries, List.mem_append]
    rcases List.mem_cons.1 hmember with rfl | hmember
    · exact Or.inl (MetaValue.mem_widths_of_mem_doubles m x hx)
    · exact Or.inr (MetaValue.mem_widths_of_mem_entries rest member hmember x hx)

end

/-! ## Documents -/

namespace Document

/-- The doubles of a document are among its widths. -/
theorem mem_widths_of_mem_doubles (d : Document) : ∀ x ∈ d.toJson.doubles, x ∈ d.widths := by
  intro x hx
  have hversion : elementDoubles (d.apiVersion.map fun n => .num (.int n.toNat)) = [] :=
    elementDoubles_map_eq_nil (by simp [doubles]) d.apiVersion
  simp only [Document.toJson, doubles_obj, memberDoubles, doubles_arr, ApiVersion.toJson, hversion,
    Block.doubles_toJsonList, List.append_nil, List.mem_append] at hx
  rw [widths, List.mem_append]
  rcases hx with hx | hx
  · exact Or.inr (List.mem_filter.1 hx).1
  · rw [Meta.toJson, object, doubles_obj, mem_memberDoubles_iff] at hx
    obtain ⟨member, hmember, hx⟩ := hx
    exact Or.inl (MetaValue.mem_widths_of_mem_entries d.metadata member
      (mem_of_mem_canonical hmember) x hx)

/-- A document with legible widths is readable. -/
theorem readable_toJson (d : Document) (hwidths : ∀ w ∈ d.widths, Legible (.double w)) :
    d.toJson.Readable :=
  fun x hx => hwidths x (d.mem_widths_of_mem_doubles x hx)

/-- The text of a well-formed document is read as the document. -/
theorem ofText_toText {d : Document} (hd : d.WellFormed) (hdepth : d.toJson.depth ≤ depthLimit)
    (hwidths : ∀ w ∈ d.widths, Legible (.double w)) : ofText d.toText = .ok d := by
  have hvalid : d.toJson.Valid := d.written_toJson.valid
  rw [ofText, toText, parse?_render hvalid (d.readable_toJson hwidths) hdepth]
  exact (ofJson_eq_ok_iff_of_valid hvalid).2 ⟨d.represents_toJson, hd⟩

/-- A well-formed document whose value nests at most 127 containers, and whose widths are read
back by the number reader as they are, is read again from its bytes as the document that it is,
which equals itself. -/
theorem ofBytes_toBytes {d : Document} (hd : d.WellFormed) (hdepth : d.toJson.depth ≤ 127)
    (hwidths : ∀ w ∈ d.widths,
      Token.scanNumber (numberSpelling (.double w)) = some (.num (.double w), [])) :
    ofBytes d.toBytes = .ok d ∧ (d == d) = true := by
  refine ⟨?_, hd.same_self⟩
  rw [ofBytes, toBytes, Utf8.decode_encode]
  exact ofText_toText hd hdepth hwidths

/-- Control characters, quotes, backslashes, characters of every length in bytes, the least and
the greatest integer and a width survive. -/
theorem ofBytes_toBytes_escapes :
    let d : Document :=
      ⟨[1, 17, 5], [("\x00\"\\", .str "\x1f\n😀"), ("draft", .map [("é", .bool true)])],
        [.orderedList ⟨-9223372036854775808, .decimal, .period⟩
            [[.header 9223372036854775807 .empty [.note [.plain [.str "\u007f\uffff"]]]]],
          .table [] [.left] [⟨0x3fe0000000000000⟩] [] []]⟩
    d.WellFormed ∧ d.toJson.depth ≤ 127 ∧
      (∀ w ∈ d.widths,
        Token.scanNumber (numberSpelling (.double w)) = some (.num (.double w), [])) ∧
      ofBytes d.toBytes = .ok d ∧ (d == d) = true := by
  intro d
  have hd : d.WellFormed := ⟨⟨[5], rfl⟩, by decide, by decide⟩
  have hdepth : d.toJson.depth ≤ 127 := by decide
  have hwidths : ∀ w ∈ d.widths,
      Token.scanNumber (numberSpelling (.double w)) = some (.num (.double w), []) := by
    decide +kernel
  exact ⟨hd, hdepth, hwidths, ofBytes_toBytes hd hdepth hwidths⟩

end Document

end Transclude
