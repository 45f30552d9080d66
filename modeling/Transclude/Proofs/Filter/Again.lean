import Transclude.Proofs.Expansion.Idempotence
import Transclude.Proofs.Filter.ReadBack
import Transclude.Proofs.Json.Decimals
import Transclude.Proofs.Json.Source

/-!
# A filter run on its own output

A filter that has no directive to replace writes the document that it has read, and reads that
again.  What the first run drops or puts in order is not there for the second one.  Only widths may
change again: they are printed with as many digits as tell them apart, and not every such decimal
is read as the number nearest to it.  Widths of at most fifteen digits do not change.

Main results:

- Theorem {lit}`Json.depth_normal_le`: what is dropped does not make a value nest deeper.
- Theorem {lit}`Document.depth_le_of_ofBytes`: whatever is read nests no deeper than a text may.
- Theorem {lit}`Document.ofBytes_toBytes_of_decimals`: documents with widths of few digits.
- Theorem {lit}`Filter.run_expand_again`: a run that has nothing to do, and a run on its output.
- Theorem {lit}`Filter.run_expand_again_of_decimals`: such runs on a document with widths of few
  digits.
-/

namespace Transclude

namespace Json

/-! ## The depth of normal forms -/

mutual

/-- A normal form nests no deeper than the value. -/
theorem depth_normal_le (s : Shape) : (v : Json) → (normal s v).depth ≤ v.depth
  | .null | .bool _ | .str _ => Nat.le_refl _
  | .num n => by
    unfold normal
    split <;> exact Nat.le_refl _
  | .arr xs => by
    unfold normal
    split
    · next element => exact Nat.succ_le_succ (elementDepth_normalList_le element xs)
    · next components => exact Nat.succ_le_succ (elementDepth_normalTuple_le components xs)
    · exact Nat.le_refl _
  | .obj members => by
    unfold normal
    split
    · next value => exact Nat.succ_le_succ (memberDepth_normalEntries_le value members)
    · split
      · next fields _ => exact Nat.succ_le_succ (memberDepth_normalFields_le fields members)
      · exact Nat.le_refl _

/-- Nor do the elements of a list. -/
theorem elementDepth_normalList_le (s : Shape) : (xs : List Json) →
    elementDepth (normalList s xs) ≤ elementDepth xs
  | [] => Nat.le_refl _
  | x :: xs => max_le_max (depth_normal_le s x) (elementDepth_normalList_le s xs)

/-- Nor do the components of a tuple. -/
theorem elementDepth_normalTuple_le : (ss : List Shape) → (xs : List Json) →
    elementDepth (normalTuple ss xs) ≤ elementDepth xs
  | [], [] | [], _ :: _ | _ :: _, [] => Nat.le_refl _
  | s :: ss, x :: xs => max_le_max (depth_normal_le s x) (elementDepth_normalTuple_le ss xs)

/-- Nor do the members of a record, some of which are dropped. -/
theorem memberDepth_normalFields_le (fields : List (String × Shape)) :
    (members : List (String × Json)) →
    memberDepth (normalFields fields members) ≤ memberDepth members
  | [] => Nat.le_refl _
  | (_, x) :: rest => by
    have hrest := memberDepth_normalFields_le fields rest
    rw [normalFields]
    split
    · next s _ => exact max_le_max (depth_normal_le s x) hrest
    · exact hrest.trans (Nat.le_max_right _ _)

/-- Nor do the entries of a dictionary. -/
theorem memberDepth_normalEntries_le (s : Shape) : (members : List (String × Json)) →
    memberDepth (normalEntries s members) ≤ memberDepth members
  | [] => Nat.le_refl _
  | (_, x) :: rest => max_le_max (depth_normal_le s x) (memberDepth_normalEntries_le s rest)

end

end Json

namespace Document

open Json (Legible depthLimit)

/-- Whatever is read from bytes nests no deeper than a text may. -/
theorem depth_le_of_ofBytes {input : List UInt8} {d : Document} (h : ofBytes input = .ok d) :
    d.toJson.depth ≤ depthLimit := by
  obtain ⟨text, v, -, hparse, hread⟩ := ofBytes_eq_ok_iff.1 h
  have hnormal : v.normal .document = d.toJson :=
    ((ofJson_eq_ok_iff_of_valid (Json.valid_of_parse? hparse)).1 hread).1
  calc d.toJson.depth
      = (v.normal .document).depth := by rw [hnormal]
    _ ≤ v.depth := Json.depth_normal_le .document v
    _ ≤ depthLimit := Json.depth_le_of_parse? hparse

/-- So it is read again from its own bytes, if its widths are legible. -/
theorem ofBytes_toBytes_of_ofBytes {input : List UInt8} {d : Document} (h : ofBytes input = .ok d)
    (hwidths : ∀ w ∈ d.widths, Legible (.double w)) : ofBytes d.toBytes = .ok d :=
  ofBytes_toBytes_of_shallow (wellFormed_of_ofBytes h) (depth_le_of_ofBytes h) hwidths

/-- They are legible if each is the number nearest to a decimal with at most fifteen digits, of
which at most twenty-one stand after the point. -/
theorem ofBytes_toBytes_of_decimals {input : List UInt8} {d : Document} (h : ofBytes input = .ok d)
    (hwidths : ∀ w ∈ d.widths, ∃ (negative : Bool) (n k : Nat), n < 10 ^ 15 ∧ k ≤ 21 ∧
      w = .nearest negative n (10 ^ k)) : ofBytes d.toBytes = .ok d := by
  apply ofBytes_toBytes_of_ofBytes h
  intro w hw
  obtain ⟨negative, n, k, hn, hk, rfl⟩ := hwidths w hw
  exact Json.legible_nearest negative hn hk

end Document

namespace Filter

open Json (Legible Token)

variable {σ : Type}

/-! ## Runs that have nothing to do -/

/-- An input without directives is written as the document that it is read as; no file is asked
for. -/
theorem run_expand_idle {options : Options} (converter : Converter (StateM σ)) (baseDir : String)
    {input : List UInt8} {d : Document} (hread : Document.ofBytes input = .ok d)
    (hnone : Expansion.directives options d.blocks = []) {sink : Sink} (hsink : sink.limit = none)
    (s : σ) :
    ∃ after, StateT.run
        (run (Document.expand options converter.recording baseDir) input sink) (s, []) =
          ((.ok (), after), (s, [])) ∧
      after.received = sink.received ++ d.toBytes := by
  have hexpand : StateT.run (d.expand options converter.recording baseDir).run (s, []) =
      (.ok d, (s, [])) := by
    rw [Expansion.expand_eq_pure _ baseDir hnone]
    rfl
  have hwrite := Sink.writeAll_unlimited hsink d.toBytes
  exact ⟨(sink.writeAll d.toBytes).1,
    run_eq_ok_iff.2 ⟨d, transformed_eq_ok_iff.2 ⟨d, hread, hexpand⟩, hwrite⟩,
    Sink.received_writeAll hwrite⟩

/-- A run on an input without directives writes some bytes, and a run on these writes the same
bytes again, if the document is read from its own bytes.  Both runs succeed without asking for a
file. -/
theorem run_expand_stable (options : Options) (converter : Converter (StateM σ))
    (baseDir : String) {input : List UInt8} {d : Document}
    (hread : Document.ofBytes input = .ok d)
    (hnone : Expansion.directives options d.blocks = [])
    (hagain : Document.ofBytes d.toBytes = .ok d) :
    ∃ out, ∀ bytes ∈ [input, out], ∀ (sink : Sink) (s : σ), sink.limit = none →
      ∃ after, StateT.run
          (run (Document.expand options converter.recording baseDir) bytes sink) (s, []) =
            ((.ok (), after), (s, [])) ∧
        after.received = sink.received ++ out := by
  refine ⟨d.toBytes, fun bytes hbytes sink s hsink => ?_⟩
  have hbytes : Document.ofBytes bytes = .ok d := by
    rcases List.mem_pair.1 hbytes with rfl | rfl
    · exact hread
    · exact hagain
  exact run_expand_idle converter baseDir hbytes hnone hsink s

/-- A run on an input without directives writes some bytes, and a run on these writes the same
bytes again, if each width of the document is read from its printed form as it is.  Both runs
succeed without asking for a file. -/
theorem run_expand_again (options : Options) (converter : Converter (StateM σ))
    (baseDir : String) {input : List UInt8} {d : Document}
    (hread : Document.ofBytes input = .ok d)
    (hnone : Expansion.directives options d.blocks = [])
    (hwidths : ∀ w ∈ d.widths, Legible (.double w)) :
    ∃ out, ∀ bytes ∈ [input, out], ∀ (sink : Sink) (s : σ), sink.limit = none →
      ∃ after, StateT.run
          (run (Document.expand options converter.recording baseDir) bytes sink) (s, []) =
            ((.ok (), after), (s, [])) ∧
        after.received = sink.received ++ out :=
  run_expand_stable options converter baseDir hread hnone
    (Document.ofBytes_toBytes_of_ofBytes hread hwidths)

/-- So it does if each width is the number nearest to a decimal with at most fifteen digits, of
which at most twenty-one stand after the point: the widths that people write. -/
theorem run_expand_again_of_decimals (options : Options) (converter : Converter (StateM σ))
    (baseDir : String) {input : List UInt8} {d : Document}
    (hread : Document.ofBytes input = .ok d)
    (hnone : Expansion.directives options d.blocks = [])
    (hwidths : ∀ w ∈ d.widths, ∃ (negative : Bool) (n k : Nat), n < 10 ^ 15 ∧ k ≤ 21 ∧
      w = .nearest negative n (10 ^ k)) :
    ∃ out, ∀ bytes ∈ [input, out], ∀ (sink : Sink) (s : σ), sink.limit = none →
      ∃ after, StateT.run
          (run (Document.expand options converter.recording baseDir) bytes sink) (s, []) =
            ((.ok (), after), (s, [])) ∧
        after.received = sink.received ++ out :=
  run_expand_stable options converter baseDir hread hnone
    (Document.ofBytes_toBytes_of_decimals hread hwidths)

/-- The document of one table with one column. -/
def oneColumn (w : Binary64) : Document :=
  ⟨[1, 17], [], [.table [] [] [w] [] []]⟩

/-- A text with a member that is not used, a key that stands there twice, keys that fall, an escape
that is not needed and a zero at the end of a width.  None of this is written, and what is written
is written again. -/
theorem run_expand_again_half :
    let text := "\x7b\"pandoc-api-version\":[1,17],\"x\":0,\"meta\":\x7b\x7d,\"blocks\":[" ++
      "\x7b\"t\":\"Null\",\"t\":\"Tabl\\u0065\",\"c\":[[],[],[0.50],[],[]]\x7d]\x7d"
    let d := oneColumn ⟨0x3fe0000000000000⟩
    let converter : Converter (StateM Nat) := fun _ calls => (.error (.notFound ""), calls + 1)
    Document.ofBytes (Utf8.encode text) = .ok d ∧ Expansion.directives {} d.blocks = [] ∧
      (∀ w ∈ d.widths, Legible (.double w)) ∧ text ≠ d.toText ∧
      ∃ out, ∀ bytes ∈ [Utf8.encode text, out], ∃ after,
        StateT.run (run (Document.expand {} converter.recording "") bytes (.upTo none 7)) (0, []) =
          ((.ok (), after), (0, [])) ∧ after.received = out := by
  intro text d converter
  have hread : Document.ofBytes (Utf8.encode text) = .ok d := by
    let source : Json := .obj [
      ("pandoc-api-version", .arr [.num (.int 1), .num (.int 17)]), ("x", .num (.int 0)),
      ("meta", .obj []),
      ("blocks", .arr [.obj [("t", .str "Null"), ("t", .str "Table"),
        ("c", .arr [.arr [], .arr [], .arr [.num (.double ⟨0x3fe0000000000000⟩)], .arr [],
          .arr []])]])]
    have hscan : Token.scanAll text.toList = some source.tokens := by decide +kernel
    have hrepresents : source.sorted.Represents d := by cbv
    exact Document.ofBytes_encode_of_tokens hscan rfl hrepresents
      ⟨⟨[], rfl⟩, by decide, by decide⟩
  have hnone : Expansion.directives {} d.blocks = [] := by cbv
  have hwidths : ∀ w ∈ d.widths, Legible (.double w) := by decide +kernel
  have htext : text ≠ d.toText := by decide +kernel
  obtain ⟨out, hruns⟩ := run_expand_again {} converter "" hread hnone hwidths
  exact ⟨hread, hnone, hwidths, htext, out, fun bytes hbytes => hruns bytes hbytes _ 0 rfl⟩

/-- The width of this text is read as a number that is printed with another last digit, and that
decimal as yet another number.  So the second run does not write what it reads, although neither
run has anything to do. -/
theorem run_expand_again_drift :
    let text := "\x7b\"blocks\":[\x7b\"c\":[[],[],[0.9125372122741458],[],[]]," ++
      "\"t\":\"Table\"\x7d],\"meta\":\x7b\x7d,\"pandoc-api-version\":[1,17]\x7d"
    let d := oneColumn ⟨0x3fed33813d633704⟩
    let d' := oneColumn ⟨0x3fed33813d633703⟩
    let converter : Converter (StateM Unit) := fun _ => pure (.error (.notFound ""))
    let filter bytes :=
      StateT.run (run (Document.expand {} converter.recording "") bytes (.upTo none 1)) ((), [])
    Document.ofBytes (Utf8.encode text) = .ok d ∧ Expansion.directives {} d.blocks = [] ∧
      ∃ first second : Sink, filter (Utf8.encode text) = ((.ok (), first), ((), [])) ∧
        filter first.received = ((.ok (), second), ((), [])) ∧
        first.received = d.toBytes ∧ second.received = d'.toBytes ∧
        second.received ≠ first.received := by
  intro text d d' converter filter
  have hread : Document.ofBytes (Utf8.encode text) = .ok d := by
    have hscan : Token.scanAll text.toList = some d.toJson.tokens := by decide +kernel
    exact Document.ofBytes_encode_of_tokens hscan rfl d.represents_toJson
      ⟨⟨[], rfl⟩, by decide, by decide⟩
  have hagain : Document.ofBytes d.toBytes = .ok d' := by
    have hscan : Token.scanAll d.toText.toList = some d'.toJson.tokens := by decide +kernel
    exact Document.ofBytes_encode_of_tokens hscan rfl d'.represents_toJson
      ⟨⟨[], rfl⟩, by decide, by decide⟩
  have htexts : d'.toText ≠ d.toText := by decide +kernel
  have hbytes : d'.toBytes ≠ d.toBytes := by
    intro heq
    have hdecode : Utf8.decode d'.toBytes = Utf8.decode d.toBytes := by rw [heq]
    rw [Document.toBytes, Document.toBytes, Utf8.decode_encode, Utf8.decode_encode] at hdecode
    exact htexts (Except.ok.inj hdecode)
  have hnone : Expansion.directives {} d.blocks = [] := by cbv
  have hnone' : Expansion.directives {} d'.blocks = [] := by cbv
  have hsink : (Sink.upTo none 1).limit = none := rfl
  obtain ⟨first, hfirst, hreceived⟩ := run_expand_idle converter "" hread hnone hsink ()
  obtain ⟨second, hsecond, hreceived'⟩ := run_expand_idle converter "" hagain hnone' hsink ()
  replace hreceived : first.received = d.toBytes := hreceived.trans (List.nil_append _)
  replace hreceived' : second.received = d'.toBytes :=
    hreceived'.trans (List.nil_append _)
  refine ⟨hread, hnone, first, second, hfirst, ?_, hreceived, hreceived', ?_⟩
  · rw [hreceived]
    exact hsecond
  · rw [hreceived, hreceived']
    exact hbytes

end Filter

end Transclude
