import Mathlib
import Transclude.Proofs.Expansion.Collecting
import Transclude.Proofs.Expansion.Extent
import Transclude.Proofs.Filter.Runs
import Transclude.Proofs.Json.Limit
import Transclude.Proofs.Json.Valid
import Transclude.Proofs.Wire.Text

/-!
# Reading what a filter writes

A filter that expands a document writes one that is read again, as the document that expansion
gave, as long as it does not nest deeper than the reader goes.  The writer has no such limit, and
each included file adds its division and itself, so documents within the limit may be expanded to
one beyond it.

Main results:

- Theorem {lit}`Document.wellFormed_of_ofBytes`: whatever is read is well-formed.
- Theorem {lit}`Filter.run_expand_readBack`: what is written is read back if it nests at most 127
  containers, and not at all otherwise.
- Theorem {lit}`Filter.run_expand_too_deep`: small files in each other that nest too deeply.
-/

namespace Transclude

/-- A width that is scanned again is a number. -/
theorem Binary64.isFinite_of_legible {w : Binary64} (h : Json.Legible (.double w)) :
    w.isFinite = true := by
  cases hfinite : w.isFinite with
  | true => rfl
  | false =>
    have hspelling : Json.numberSpelling (.double w) = ['n', 'u', 'l', 'l'] := by
      simp [Json.numberSpelling, hfinite]
    have hnone : Json.Token.scanNumber ['n', 'u', 'l', 'l'] = none := by decide
    rw [Json.Legible, hspelling, hnone] at h
    cases h

namespace Document

open Json (Legible depthLimit elementDepth)

/-! ## Documents from bytes -/

/-- Bytes are read as a document in three steps: as a text, as a value and as a document. -/
theorem ofBytes_eq_ok_iff {input : List UInt8} {d : Document} :
    ofBytes input = .ok d ↔
      ∃ text v, Utf8.decode input = .ok text ∧ Json.parse? text = some v ∧ ofJson v = .ok d := by
  unfold ofBytes ofText
  constructor
  · intro h
    split at h
    · next text hdecode =>
      split at h
      · next v hparse => exact ⟨text, v, hdecode, hparse, h⟩
      · cases h
    · cases h
  · rintro ⟨text, v, hdecode, hparse, hread⟩
    rw [hdecode]
    dsimp only
    rw [hparse]
    exact hread

/-- The bytes of a text are read by way of its tokens and of the value that these are read as. -/
theorem ofBytes_encode_of_tokens {text : String} {tokens : List Json.Token} {v : Json}
    {d : Document} (hscan : Json.Token.scanAll text.toList = some tokens)
    (hvalue : Json.ofTokens? tokens = some v) (hrepresents : v.Represents d) (hd : d.WellFormed) :
    ofBytes (Utf8.encode text) = .ok d := by
  have hparse : Json.parse? text = some v := by
    rw [Json.parse?, hscan]
    exact hvalue
  exact ofBytes_eq_ok_iff.2 ⟨text, v, Utf8.decode_encode text, hparse,
    (ofJson_eq_ok_iff_of_valid (Json.valid_of_parse? hparse)).2 ⟨hrepresents, hd⟩⟩

/-- Whatever is read from bytes is well-formed. -/
theorem wellFormed_of_ofBytes {input : List UInt8} {d : Document} (h : ofBytes input = .ok d) :
    d.WellFormed := by
  obtain ⟨text, v, -, hparse, hread⟩ := ofBytes_eq_ok_iff.1 h
  exact ((ofJson_eq_ok_iff_of_valid (Json.valid_of_parse? hparse)).1 hread).2

/-- A document that nests deeper than the reader goes is not read from its bytes. -/
theorem ofBytes_toBytes_of_deep {d : Document} (hdepth : depthLimit < d.toJson.depth)
    (hwidths : ∀ w ∈ d.widths, Legible (.double w)) :
    ofBytes d.toBytes = .error .invalidJson := by
  rw [ofBytes, toBytes, Utf8.decode_encode]
  dsimp only
  rw [ofText, toText, Json.parse?_render_eq_none d.written_toJson.valid
    (d.readable_toJson hwidths) hdepth]

/-- A document within that limit is. -/
theorem ofBytes_toBytes_of_shallow {d : Document} (hd : d.WellFormed)
    (hdepth : d.toJson.depth ≤ depthLimit) (hwidths : ∀ w ∈ d.widths, Legible (.double w)) :
    ofBytes d.toBytes = .ok d := by
  rw [ofBytes, toBytes, Utf8.decode_encode]
  exact ofText_toText hd hdepth hwidths

/-! ## Other blocks in the same document -/

/-- With other blocks, a document is well-formed if the widths in these are numbers. -/
theorem WellFormed.withBlocks {d : Document} (hd : d.WellFormed) {bs : List Block}
    (hbs : ∀ w ∈ Block.widthsList bs, w.isFinite = true) :
    ({ d with blocks := bs } : Document).WellFormed where
  version := hd.version
  finite := List.forall_mem_append.2 ⟨(List.forall_mem_append.1 hd.finite).1, hbs⟩
  ascending := hd.ascending

/-- A document nests two containers around its blocks. -/
theorem elementDepth_add_two_le (d : Document) :
    elementDepth (Block.toJsonList d.blocks) + 2 ≤ d.toJson.depth := by
  simp only [toJson, Json.depth, Json.memberDepth]
  omega

/-- A document nests deeper by no more than its blocks do. -/
theorem depth_withBlocks_le {d : Document} {bs : List Block} {more : Nat}
    (h : elementDepth (Block.toJsonList bs) ≤ elementDepth (Block.toJsonList d.blocks) + more) :
    ({ d with blocks := bs } : Document).toJson.depth ≤ d.toJson.depth + more := by
  simp only [toJson, Json.depth, Json.memberDepth]
  omega

end Document

namespace Expansion

open Json (Legible elementDepth)

variable {σ : Type} {options : Options} {converter : Converter (StateM σ)} {baseDir : String}
  {d d' : Document} {s s' : σ} {given : List Document}

/-- What is known of all documents that a run collects may be assumed of the converter. -/
theorem expand_collecting (accept : Document → Prop) [DecidablePred accept]
    (hrun : StateT.run (d.expand options converter.collecting baseDir).run (s, []) =
      (.ok d', s', given))
    (hgiven : ∀ document ∈ given, accept document) :
    StateT.run (d.expand options (converter.admitting accept) baseDir).run s = (.ok d', s') :=
  (admitted_expand accept options converter baseDir d s [] d' s' given hrun hgiven).2

/-- An expanded document is the document with other blocks. -/
theorem givesOnly_expand {post : List Block → Prop}
    (h : GivesOnly post (blocks options converter baseDir d.blocks)) :
    GivesOnly (fun d' : Document => ∃ bs, post bs ∧ d' = { d with blocks := bs })
      (d.expand options converter baseDir) :=
  GivesOnly.asserts.map h fun bs hbs => ⟨bs, hbs, rfl⟩

/-- An expanded document is well-formed and has legible widths, if the document and all files in
it have. -/
theorem wellFormed_of_expand (hd : d.WellFormed)
    (hrun : StateT.run (d.expand options converter.collecting baseDir).run (s, []) =
      (.ok d', s', given))
    (hwidths : ∀ document ∈ d :: given, ∀ w ∈ document.widths, Legible (.double w)) :
    d'.WellFormed ∧ ∀ w ∈ d'.widths, Legible (.double w) := by
  classical
  obtain ⟨hmetadata, hblocks⟩ :=
    List.forall_mem_append.1 (hwidths d List.mem_cons_self)
  have hadmitted := expand_collecting
    (fun document => ∀ w ∈ document.widths, Legible (.double w)) hrun
    fun document hdocument => hwidths document (List.mem_cons_of_mem d hdocument)
  have hfiles (request : Request) (s : σ) (document : Document) (s' : σ)
      (hanswer : StateT.run (converter.admitting
        (fun document => ∀ w ∈ document.widths, Legible (.double w)) request) s =
          (.ok document, s')) :
      ∀ w ∈ Block.widthsList document.blocks, Legible (.double w) := by
    have hdocument : ∀ w ∈ document.widths, Legible (.double w) :=
      Converter.accept_of_admitting _ hanswer
    exact (List.forall_mem_append.1 hdocument).2
  have hexpanded : GivesOnly (fun d' => ∃ bs, (∀ w ∈ Block.widthsList bs, Legible (.double w)) ∧
      d' = { d with blocks := bs }) (d.expand options (converter.admitting _) baseDir) :=
    givesOnly_expand (givesOnly_widths hfiles hblocks baseDir)
  obtain ⟨bs, hbs, rfl⟩ := hexpanded s d' s' hadmitted
  exact ⟨hd.withBlocks fun w hw => Binary64.isFinite_of_legible (hbs w hw),
    List.forall_mem_append.2 ⟨hmetadata, hbs⟩⟩

/-- An expanded document nests deeper than the document by at most {lit}`k` containers for each
file that may be open, if no file in it nests more than {lit}`k + 3`. -/
theorem depth_expand_le {k : Nat}
    (hrun : StateT.run (d.expand options converter.collecting baseDir).run (s, []) =
      (.ok d', s', given))
    (hdepth : ∀ document ∈ given, document.toJson.depth ≤ k + 3) :
    d'.toJson.depth ≤ d.toJson.depth + options.maxDepth * k := by
  have hadmitted := expand_collecting (fun document => document.toJson.depth ≤ k + 3) hrun hdepth
  have hblocks (request : Request) (s : σ) (document : Document) (s' : σ)
      (hanswer : StateT.run (converter.admitting (fun document => document.toJson.depth ≤ k + 3)
        request) s = (.ok document, s')) :
      elementDepth (Block.toJsonList document.blocks) ≤ k + 1 := by
    have hdocument : document.toJson.depth ≤ k + 3 := Converter.accept_of_admitting _ hanswer
    have hinner := document.elementDepth_add_two_le
    omega
  have hexpanded : GivesOnly (fun d' => ∃ bs, elementDepth (Block.toJsonList bs) ≤
      elementDepth (Block.toJsonList d.blocks) + options.maxDepth * k ∧
        d' = { d with blocks := bs }) (d.expand options (converter.admitting _) baseDir) :=
    givesOnly_expand (givesOnly_depth hblocks baseDir d.blocks)
  obtain ⟨bs, hbs, rfl⟩ := hexpanded s d' s' hadmitted
  exact Document.depth_withBlocks_le hbs

end Expansion

namespace Filter

open Json (Legible)

variable {σ : Type}

/-- If a run of the filter succeeds, it writes what expansion gave, and this is read back as what
it is, equal to itself, if it nests at most 127 containers; beyond that the reader refuses it.  It
nests deeper than the input by at most {lit}`k` containers for each file that may be open, if no
file nests more than {lit}`k + 3`.

The widths of tables in the input and in the files have to be read back as they are; without
tables there are none. -/
theorem run_expand_readBack (options : Options) (converter : Converter (StateM σ))
    (baseDir : String) {input : List UInt8} {sink after : Sink} {s s' : σ} {given : List Document}
    (hrun : StateT.run (run (Document.expand options converter.collecting baseDir) input sink)
      (s, []) = ((.ok (), after), (s', given)))
    (hwidths : ∀ d, Document.ofBytes input = .ok d →
      ∀ document ∈ d :: given, ∀ w ∈ document.widths, Legible (.double w)) :
    ∃ d d', Document.ofBytes input = .ok d ∧
      StateT.run (d.expand options converter baseDir).run s = (.ok d', s') ∧
      after.received = sink.received ++ d'.toBytes ∧
      (d'.toJson.depth ≤ 127 → Document.ofBytes d'.toBytes = .ok d' ∧ (d' == d') = true) ∧
      (127 < d'.toJson.depth → Document.ofBytes d'.toBytes = .error .invalidJson) ∧
      ∀ k, (∀ document ∈ given, document.toJson.depth ≤ k + 3) →
        d'.toJson.depth ≤ d.toJson.depth + options.maxDepth * k := by
  obtain ⟨d', htransformed, hwrite⟩ := run_eq_ok_iff.1 hrun
  obtain ⟨d, hinput, hexpand⟩ := transformed_eq_ok_iff.1 htransformed
  have hplain := Expansion.expand_collecting (fun _ => True) hexpand fun _ _ => trivial
  rw [Converter.admitting_true] at hplain
  have hd : d.WellFormed := Document.wellFormed_of_ofBytes hinput
  obtain ⟨hd', hwidths'⟩ := Expansion.wellFormed_of_expand hd hexpand (hwidths d hinput)
  exact ⟨d, d', hinput, hplain, Sink.received_writeAll hwrite,
    fun hdepth => ⟨Document.ofBytes_toBytes_of_shallow hd' hdepth hwidths', hd'.same_self⟩,
    fun hdepth => Document.ofBytes_toBytes_of_deep hdepth hwidths',
    fun k hgiven => Expansion.depth_expand_le hexpand hgiven⟩

/-- A file with a table inside a note, written byte by byte. -/
theorem run_expand_readBack_note :
    let input : Document :=
      ⟨[1, 17], [("title", .str "t")], [.para [.note [.codeBlock (.ofClasses ["include"]) "a"]]]⟩
    let file : Document := ⟨[1, 17, 5], [], [.table [] [.left] [⟨0x3fe0000000000000⟩] [] []]⟩
    let converter : Converter (StateM Nat) := fun _ calls => (.ok file, calls + 1)
    let output : Document :=
      { input with blocks := [.para [.note [.div (.ofClasses ["included"]) file.blocks]]] }
    let sink := Sink.upTo none 1
    let after := (sink.writeAll output.toBytes).1
    StateT.run (run (Document.expand {} converter.collecting "") input.toBytes sink) (0, []) =
        ((.ok (), after), (1, [file])) ∧
      (∀ d, Document.ofBytes input.toBytes = .ok d →
        ∀ document ∈ [d, file], ∀ w ∈ document.widths, Legible (.double w)) ∧
      after.received = output.toBytes ∧ Document.ofBytes output.toBytes = .ok output := by
  intro input file converter output sink after
  have hinput : Document.ofBytes input.toBytes = .ok input :=
    Document.ofBytes_toBytes_of_shallow ⟨⟨[], rfl⟩, by decide, by decide⟩ (by decide) (by decide)
  have hlegible : ∀ document ∈ [input, file], ∀ w ∈ document.widths, Legible (.double w) := by
    decide +kernel
  have hwidths : ∀ d, Document.ofBytes input.toBytes = .ok d →
      ∀ document ∈ [d, file], ∀ w ∈ document.widths, Legible (.double w) := by
    intro d hd
    rw [hinput] at hd
    cases hd
    exact hlegible
  have hdepth : output.toJson.depth ≤ 127 := by decide
  have hexpand : StateT.run (input.expand {} converter.collecting "").run (0, []) =
      (.ok output, (1, [file])) := by cbv
  have hwrite : sink.writeAll output.toBytes = (after, true) :=
    Sink.writeAll_unlimited rfl output.toBytes
  have hrun : StateT.run (run (Document.expand {} converter.collecting "") input.toBytes sink)
      (0, []) = ((.ok (), after), (1, [file])) :=
    run_eq_ok_iff.2 ⟨output, transformed_eq_ok_iff.2 ⟨input, hinput, hexpand⟩, hwrite⟩
  obtain ⟨d, d', hd, hd', hreceived, hread, -⟩ :=
    run_expand_readBack {} converter "" hrun hwidths
  rw [hinput] at hd
  cases hd
  have houtput : d' = output := by
    have hsame : StateT.run (input.expand {} converter "").run 0 = (.ok output, 1) := by cbv
    rw [hsame] at hd'
    cases hd'
    rfl
  subst houtput
  exact ⟨hrun, hwidths, hreceived.trans (List.nil_append _), (hread hdepth).1⟩

/-- A block inside quotations. -/
def quoted : Nat → Block → Block
  | 0, b => b
  | n + 1, b => .blockQuote [quoted n b]

/-- Each quotation nests two containers. -/
theorem depth_quoted (n : Nat) (b : Block) :
    (quoted n b).toJson.depth = b.toJson.depth + 2 * n := by
  induction n with
  | zero => rfl
  | succ n ih =>
    simp only [quoted, Block.toJson, Block.toJsonList, Json.depth_node, Json.depth_arr,
      Json.elementDepth, ih]
    omega

theorem widths_quoted (n : Nat) (b : Block) : (quoted n b).widths = b.widths := by
  induction n with
  | zero => rfl
  | succ n ih => simp only [quoted, Block.widths, Block.widthsList, List.append_nil, ih]

/-- The document of one block inside quotations. -/
def quotation (n : Nat) (b : Block) : Document :=
  ⟨[1, 17], [], [quoted n b]⟩

/-- A quotation of a block without tables is read again unless it nests too deeply. -/
theorem ofBytes_quotation (n : Nat) {b : Block} (hb : b.widths = []) :
    Document.ofBytes (quotation n b).toBytes =
      if b.toJson.depth + 2 * n + 2 ≤ 127 then .ok (quotation n b) else .error .invalidJson := by
  have hwidths : (quotation n b).widths = [] := by
    simp [quotation, Document.widths, MetaValue.widthsEntries, Block.widthsList, widths_quoted, hb]
  have hdepth : (quotation n b).toJson.depth = b.toJson.depth + 2 * n + 2 := by
    simp [quotation, Document.toJson, Block.toJsonList, ApiVersion.toJson, Meta.toJson,
      MetaValue.toJsonEntries, Json.object, Json.canonical, Json.depth, Json.memberDepth,
      Json.elementDepth, depth_quoted]
  split
  · next hfits =>
    have hwellFormed : (quotation n b).WellFormed := {
      version := ⟨[], rfl⟩
      finite := by simp [hwidths]
      ascending := by simp [quotation, Document.keyLists, Meta.keys, MetaValue.keyListsEntries]
    }
    exact Document.ofBytes_toBytes_of_shallow hwellFormed (hdepth ▸ hfits) (by simp [hwidths])
  · next hexceeds =>
    exact Document.ofBytes_toBytes_of_deep (hdepth ▸ Nat.lt_of_not_le hexceeds) (by simp [hwidths])

/-- A directive inside 31 quotations, and a file that is nothing but 31 quotations.  Both are
read, and the run succeeds, but what it writes nests 130 containers and is not read. -/
theorem run_expand_too_deep :
    let input := quotation 31 (.codeBlock (.ofClasses ["include"]) "a")
    let file := quotation 31 .null
    let converter : Converter (StateM Unit) := fun _ => pure (.ok file)
    let output := quotation 31 (Expansion.container {} file.blocks)
    let after := ((Sink.upTo none 1).writeAll output.toBytes).1
    Document.ofBytes file.toBytes = .ok file ∧
      StateT.run (run (Document.expand {} converter "") input.toBytes (.upTo none 1)) () =
        ((.ok (), after), ()) ∧
      Document.ofBytes after.received = .error .invalidJson := by
  intro input file converter output after
  have hinput : Document.ofBytes input.toBytes = .ok input := ofBytes_quotation 31 rfl
  have hfile : Document.ofBytes file.toBytes = .ok file := ofBytes_quotation 31 rfl
  have hincluded : (Expansion.container {} file.blocks).toJson.depth = 66 := by
    have hnull : Block.null.toJson.depth = 1 := by decide
    simp [Expansion.depth_container, file, quotation, Block.toJsonList, Json.elementDepth,
      depth_quoted, hnull]
  have houtput : Document.ofBytes output.toBytes = .error .invalidJson := by
    rw [ofBytes_quotation, hincluded]
    · rfl
    · simp [file, quotation, Expansion.container, Block.widths, Block.widthsList, widths_quoted]
  have hexpand : StateT.run (input.expand {} converter "").run () = (.ok output, ()) := by cbv
  have hwrite : (Sink.upTo none 1).writeAll output.toBytes = (after, true) :=
    Sink.writeAll_unlimited rfl output.toBytes
  have hreceived : after.received = output.toBytes :=
    (Sink.received_writeAll hwrite).trans (List.nil_append _)
  have hrun : StateT.run (run (Document.expand {} converter "") input.toBytes (.upTo none 1)) () =
      ((.ok (), after), ()) :=
    run_eq_ok_iff.2 ⟨output, transformed_eq_ok_iff.2 ⟨input, hinput, hexpand⟩, hwrite⟩
  rw [hreceived]
  exact ⟨hfile, hrun, houtput⟩

end Filter

end Transclude
