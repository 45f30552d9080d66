import Transclude.Proofs.Wire.Equality

/-!
# Reading undoes writing

Among the values that there are, exactly those are read as a document whose normal form is the
value of a well-formed document, and they are read as that document.  So a document survives
being written and read again exactly if it is well-formed, and a value that does not follow the
grammar is not read at all.

Main results:

- Theorem {lit}`Document.ofJson_toJson_iff`: the documents that survive being written and read.
- Theorem {lit}`Document.ofJson_eq_ok_iff_represents`: the values that are read, and as what.
-/

namespace Transclude.Document

open Json

/-- Reading succeeds on the values that stand for well-formed documents. -/
theorem ofJson_eq_ok_iff_of_valid {v : Json} (hv : v.Valid) {d : Document} :
    Document.ofJson v = .ok d ↔ v.Represents d ∧ d.WellFormed :=
  d.recognizes.iff v hv

/-- A document is written as a value of the grammar. -/
theorem written_toJson (d : Document) : Written .document d.toJson :=
  d.recognizes.written

/-- The value of a document stands for the document. -/
theorem represents_toJson (d : Document) : d.toJson.Represents d :=
  d.written_toJson.normal_eq

/-! ## Documents that survive -/

/-- A document is read again as one that equals it exactly if it is well-formed; and whatever is
read is well-formed. -/
theorem ofJson_toJson_iff :
    (∀ d : Document, (∃ d', Document.ofJson d.toJson = .ok d' ∧ (d' == d) = true) ↔
      d.WellFormed) ∧
    ∀ (v : Json) (d : Document), v.Valid → Document.ofJson v = .ok d → d.WellFormed := by
  have hread : ∀ (v : Json) (d : Document), v.Valid → Document.ofJson v = .ok d →
      d.WellFormed := by
    intro v d hv h
    exact ((ofJson_eq_ok_iff_of_valid hv).1 h).2
  refine ⟨fun d => ⟨?_, ?_⟩, hread⟩
  · rintro ⟨d', hd', hsame⟩
    have hd' : d'.WellFormed := hread d.toJson d' d.written_toJson.valid hd'
    exact hd'.of_same hsame
  · intro hd
    have hread' : Document.ofJson d.toJson = .ok d :=
      (ofJson_eq_ok_iff_of_valid d.written_toJson.valid).2 ⟨d.represents_toJson, hd⟩
    exact ⟨d, hread', hd.same_self⟩

/-- A value with metadata and a table is read, so the document is well-formed. -/
theorem wellFormed_of_read_table :
    let v : Json := .obj [
      ("blocks", .arr [.obj [
        ("c", .arr [.arr [], .arr [.obj [("t", .str "AlignLeft")]],
          .arr [.num (.double ⟨0x3fe0000000000000⟩)], .arr [], .arr []]),
        ("t", .str "Table")]]),
      ("meta", .obj [("draft", .obj [("c", .bool true), ("t", .str "MetaBool")])]),
      ("pandoc-api-version", .arr [.num (.int 1), .num (.int 17)])]
    let d : Document :=
      ⟨[1, 17], [("draft", .bool true)], [.table [] [.left] [⟨0x3fe0000000000000⟩] [] []]⟩
    v.Valid ∧ Document.ofJson v = .ok d ∧ d.WellFormed := by
  intro v d
  have hv : v.Valid := by
    decide
  have hread : Document.ofJson v = .ok d :=
    (ofJson_eq_ok_iff_of_valid hv).2 ⟨rfl, ⟨[], rfl⟩, by decide, by decide⟩
  exact ⟨hv, hread, ofJson_toJson_iff.2 v d hv hread⟩

/-! ## Values that are read -/

/-- A value is read as a well-formed document exactly if it stands for it.  So two values that
are read as equal documents have equal normal forms, and a value that does not fit the grammar is
not read. -/
theorem ofJson_eq_ok_iff_represents {v : Json} (hv : v.Valid) :
    (∀ d : Document, d.WellFormed → (Document.ofJson v = .ok d ↔ v.Represents d)) ∧
    (∀ (v' : Json) (d d' : Document), v'.Valid → Document.ofJson v = .ok d →
      Document.ofJson v' = .ok d' →
      (d = d' → v.normal .document = v'.normal .document) ∧
      ((d == d') = true → (v.normal .document).same (v'.normal .document) = true)) ∧
    (v.Misfits .document → ∃ e, Document.ofJson v = .error e) := by
  refine ⟨fun d hd => ?_, fun v' d d' hv' h h' => ?_, fun hmisfits => ?_⟩
  · rw [ofJson_eq_ok_iff_of_valid hv, and_iff_left hd]
  · have hnormal : v.normal .document = d.toJson := ((ofJson_eq_ok_iff_of_valid hv).1 h).1
    have hnormal' : v'.normal .document = d'.toJson := ((ofJson_eq_ok_iff_of_valid hv').1 h').1
    rw [hnormal, hnormal']
    exact ⟨congrArg toJson, same_toJson⟩
  · cases h : Document.ofJson v with
    | error e => exact ⟨e, rfl⟩
    | ok d =>
      have hnormal : v.normal .document = d.toJson := ((ofJson_eq_ok_iff_of_valid hv).1 h).1
      exact absurd (hnormal ▸ d.written_toJson) hmisfits.not_written

/-- A table with a width that is written as an integer, after a node with a member that is not
used, is read as what is written for the document is; with a tag that there is not on the node,
the value is not read. -/
theorem ofJson_eq_ok_iff_represents_table :
    let value (tag : String) : Json := .obj [
      ("blocks", .arr [.obj [("c", .null), ("t", .str tag)], .obj [
        ("c", .arr [.arr [], .arr [.obj [("t", .str "AlignLeft")]], .arr [.num (.int 1)], .arr [],
          .arr []]),
        ("t", .str "Table")]]),
      ("meta", .obj []), ("pandoc-api-version", .arr [.num (.int 1), .num (.int 17)]),
      ("source", .null)]
    let d : Document := ⟨[1, 17], [], [.null, .table [] [.left] [.ofInt 1] [] []]⟩
    (value "Null").Valid ∧ d.WellFormed ∧ Document.ofJson (value "Null") = .ok d ∧
      Document.ofJson d.toJson = .ok d ∧
      (value "Null").normal .document = d.toJson.normal .document ∧
      (value "Nil").Misfits .document ∧ ∃ e, Document.ofJson (value "Nil") = .error e := by
  intro value d
  have hv : (value "Null").Valid := by
    decide
  have hv' : (value "Nil").Valid := by
    decide
  have hone : (Binary64.ofInt 1).isFinite = true :=
    Binary64.isFinite_ofInt (by decide) (by decide)
  have hd : d.WellFormed := by
    refine ⟨⟨[], rfl⟩, ?_, by decide⟩
    intro w hw
    exact List.mem_singleton.1 hw ▸ hone
  have hrepresents : (value "Null").Represents d := by
    have hwidth : (Binary64.ofInt 1).toJson = .num (.double (.ofInt 1)) := if_pos hone
    have htoJson : d.toJson = .obj [
        ("blocks", .arr [.obj [("t", .str "Null")], .obj [
          ("c", .arr [.arr [], .arr [.obj [("t", .str "AlignLeft")]],
            .arr [(Binary64.ofInt 1).toJson], .arr [], .arr []]),
          ("t", .str "Table")]]),
        ("meta", .obj []), ("pandoc-api-version", .arr [.num (.int 1), .num (.int 17)])] := rfl
    rw [Represents, htoJson, hwidth]
    rfl
  have hread : Document.ofJson (value "Null") = .ok d :=
    ((ofJson_eq_ok_iff_represents hv).1 d hd).2 hrepresents
  have hwritten : d.toJson.Valid := d.written_toJson.valid
  have hreadAgain : Document.ofJson d.toJson = .ok d :=
    ((ofJson_eq_ok_iff_represents hwritten).1 d hd).2 d.represents_toJson
  have hnormal : (value "Null").normal .document = d.toJson.normal .document :=
    ((ofJson_eq_ok_iff_represents hv).2.1 d.toJson d d hwritten hread hreadAgain).1 rfl
  have hmisfits : (value "Nil").Misfits .document := by
    have hnode : Misfits (.node .block) (.obj [("c", .null), ("t", .str "Nil")]) :=
      .unknownTag rfl rfl
    have hblocks : member? "blocks" [("blocks", Shape.blocks), ("meta", Shape.entries),
        ("pandoc-api-version", .list .small)] = some Shape.blocks := rfl
    exact .field hblocks rfl (.element List.mem_cons_self hnode)
  exact ⟨hv, hd, hread, hreadAgain, hnormal, hmisfits,
    (ofJson_eq_ok_iff_represents hv').2.2 hmisfits⟩

end Transclude.Document
