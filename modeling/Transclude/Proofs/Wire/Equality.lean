import Transclude.Proofs.Document.WellFormed
import Transclude.Proofs.Wire.Documents

/-!
# Equal documents are written as equal values

Equality of values compares numbers as numbers, as equality of documents does with widths.  Two
documents that are equal therefore have equal widths and are written as equal values, although
neither needs to hold of the words that the numbers are given by.

Main results:

- Definition {lit}`Json.same`: equality of values.
- Theorem {lit}`Document.widths_of_same`: equal documents have equal widths.
- Theorem {lit}`Document.same_toJson`: equal documents are written as equal values.
- Theorem {lit}`Document.WellFormed.of_same`: a document that equals a well-formed one is
  well-formed.
-/

namespace Transclude

/-! ## Equality of values -/

/-- Equality of numbers: an integer never equals a double, and doubles are compared by value. -/
def Number.same : Number → Number → Bool
  | .int n, .int m => n == m
  | .double x, .double y => x.numEq y
  | _, _ => false

namespace Json

mutual

/-- Equality of two values. -/
def same : Json → Json → Bool
  | .null, .null => true
  | .bool a, .bool b => a == b
  | .num n, .num m => n.same m
  | .str a, .str b => a == b
  | .arr xs, .arr ys => sameList xs ys
  | .obj ms, .obj ns => sameMembers ms ns
  | _, _ => false
termination_by structural v => v

/-- Equality of two lists of values. -/
def sameList : List Json → List Json → Bool
  | [], [] => true
  | x :: xs, y :: ys => same x y && sameList xs ys
  | _, _ => false
termination_by structural xs => xs

/-- Equality of two lists of members. -/
def sameMembers : List (String × Json) → List (String × Json) → Bool
  | [], [] => true
  | (k, x) :: ms, (k', y) :: ns => k == k' && same x y && sameMembers ms ns
  | _, _ => false
termination_by structural ms => ms

end

/-- A list equals itself if its elements do. -/
theorem sameList_self {xs : List Json} (h : ∀ x ∈ xs, same x x = true) :
    sameList xs xs = true := by
  induction xs with
  | nil => rfl
  | cons x xs ih =>
    obtain ⟨hx, hxs⟩ := List.forall_mem_cons.1 h
    rw [sameList, hx, ih hxs, Bool.and_self]

/-- Members equal themselves if their values do. -/
theorem sameMembers_self {ms : List (String × Json)} (h : ∀ m ∈ ms, same m.2 m.2 = true) :
    sameMembers ms ms = true := by
  induction ms with
  | nil => rfl
  | cons m ms ih =>
    obtain ⟨hm, hms⟩ := List.forall_mem_cons.1 h
    rw [sameMembers, hm, ih hms]
    simp

/-- A value equals itself. -/
theorem Valid.same_self {v : Json} (h : v.Valid) : v.same v = true := by
  induction h with
  | null => rfl
  | bool b => exact beq_self_eq_true b
  | int hlow hhigh => exact beq_self_eq_true _
  | double h => exact Binary64.numEq_self h
  | str s => exact beq_self_eq_true s
  | arr h ih => exact sameList_self ih
  | obj hkeys h ih => exact sameMembers_self ih

/-- Inserting equal values under one key leaves members equal. -/
theorem sameMembers_insertMember {key : String} {x y : Json} (hxy : x.same y = true)
    {ms ns : List (String × Json)} (h : sameMembers ms ns = true) :
    sameMembers (insertMember key x ms) (insertMember key y ns) = true := by
  induction ms generalizing ns with
  | nil =>
    cases ns with
    | nil =>
      rw [insertMember, insertMember, sameMembers, hxy]
      simp [sameMembers]
    | cons n ns => exact absurd h Bool.false_ne_true
  | cons m ms ih =>
    cases ns with
    | nil => exact absurd h Bool.false_ne_true
    | cons n ns =>
      obtain ⟨k, x'⟩ := m
      obtain ⟨k', y'⟩ := n
      rw [sameMembers, Bool.and_eq_true, Bool.and_eq_true, beq_iff_eq] at h
      obtain ⟨⟨rfl, hx'⟩, hrest⟩ := h
      rw [insertMember, insertMember]
      by_cases hlt : key < k
      · rw [if_pos hlt, if_pos hlt, sameMembers, sameMembers, hxy, hx', hrest]
        simp
      · rw [if_neg hlt, if_neg hlt]
        by_cases heq : key = k
        · rw [if_pos heq, if_pos heq, sameMembers, hxy, hrest]
          simp
        · rw [if_neg heq, if_neg heq, sameMembers, hx', ih hrest]
          simp

/-- Objects built of equal members are equal. -/
theorem same_object {ms ns : List (String × Json)} (h : sameMembers ms ns = true) :
    (object ms).same (object ns) = true := by
  suffices ∀ sorted sorted' : List (String × Json), sameMembers sorted sorted' = true →
      sameMembers (ms.foldl (fun sorted m => insertMember m.1 m.2 sorted) sorted)
        (ns.foldl (fun sorted m => insertMember m.1 m.2 sorted) sorted') = true from
    this [] [] rfl
  induction ms generalizing ns with
  | nil =>
    cases ns with
    | nil => exact fun _ _ hsorted => hsorted
    | cons n ns => exact absurd h Bool.false_ne_true
  | cons m ms ih =>
    cases ns with
    | nil => exact absurd h Bool.false_ne_true
    | cons n ns =>
      obtain ⟨k, x⟩ := m
      obtain ⟨k', y⟩ := n
      rw [sameMembers, Bool.and_eq_true, Bool.and_eq_true, beq_iff_eq] at h
      obtain ⟨⟨rfl, hxy⟩, hrest⟩ := h
      exact fun _ _ hsorted => ih hrest _ _ (sameMembers_insertMember hxy hsorted)

/-! ## Agreement -/

/-- Two values that are equal, written for trees with equal widths. -/
structure Agree (us vs : List Binary64) (x y : Json) : Prop where
  widths : Binary64.sameList us vs = true
  values : x.same y = true

/-- Two lists of values that are equal, written for trees with equal widths. -/
structure AgreeAll (us vs : List Binary64) (xs ys : List Json) : Prop where
  widths : Binary64.sameList us vs = true
  values : sameList xs ys = true

variable {us vs us' vs' : List Binary64} {x y : Json} {xs ys : List Json}

/-- A value without widths agrees with itself. -/
theorem Agree.self (hx : x.Valid) : Agree [] [] x x :=
  ⟨rfl, hx.same_self⟩

/-- Arrays agree if their elements do. -/
theorem Agree.arr (h : AgreeAll us vs xs ys) : Agree us vs (.arr xs) (.arr ys) :=
  ⟨h.widths, h.values⟩

/-- Nodes agree if their contents do. -/
theorem Agree.node (tag : String) (h : Agree us vs x y) :
    Agree us vs (.node tag x) (.node tag y) := by
  refine ⟨h.widths, ?_⟩
  rw [Json.node, Json.node, same, sameMembers, h.values]
  simp [sameMembers, same]

/-- There is nothing to agree on. -/
theorem AgreeAll.nil : AgreeAll [] [] [] [] :=
  ⟨rfl, rfl⟩

/-- Sequences agree if their first elements and the others do. -/
theorem AgreeAll.cons (hhead : Agree us vs x y) (htail : AgreeAll us' vs' xs ys) :
    AgreeAll (us ++ us') (vs ++ vs') (x :: xs) (y :: ys) := by
  refine ⟨Binary64.sameList_append hhead.widths htail.widths, ?_⟩
  rw [sameList, hhead.values, htail.values, Bool.and_self]

/-- Sequences that begin with one value without widths agree if the others do. -/
theorem AgreeAll.leaf (hx : x.Valid) (htail : AgreeAll us vs xs ys) :
    AgreeAll us vs (x :: xs) (x :: ys) :=
  .cons (.self hx) htail

/-- Sequences agree if their only elements do. -/
theorem AgreeAll.last (h : Agree us vs x y) : AgreeAll us vs [x] [y] := by
  have hcons := AgreeAll.cons h .nil
  rwa [List.append_nil, List.append_nil] at hcons

/-- Pairs agree if their first elements do and the second one has no widths. -/
theorem AgreeAll.lastBut {z : Json} (h : Agree us vs x y) (hz : z.Valid) :
    AgreeAll us vs [x, z] [y, z] := by
  have hcons := AgreeAll.cons h (.leaf hz .nil)
  rwa [List.append_nil, List.append_nil] at hcons

end Json

/-- Equal widths are written as equal values. -/
theorem Binary64.agree_of_sameList {us vs : List Binary64} (h : sameList us vs = true) :
    Json.AgreeAll us vs (us.map toJson) (vs.map toJson) := by
  refine ⟨h, ?_⟩
  induction us generalizing vs with
  | nil =>
    cases vs with
    | nil => rfl
    | cons y ys => exact absurd h Bool.false_ne_true
  | cons x xs ih =>
    cases vs with
    | nil => exact absurd h Bool.false_ne_true
    | cons y ys =>
      rw [sameList, Bool.and_eq_true] at h
      have hxy : (toJson x).same (toJson y) = true := by
        rw [toJson, toJson, isFinite_eq_of_numEq h.1]
        split
        · exact h.1
        · rfl
      rw [List.map_cons, List.map_cons, Json.sameList, hxy, ih h.2, Bool.and_self]

open Json

/-! ## Blocks and inlines -/

mutual

/-- Equal blocks agree. -/
theorem Block.agree_of_same : (a b : Block) → Block.same a b = true →
    Agree a.widths b.widths a.toJson b.toJson
  | .plain content, b, h => by
    cases b with
    | plain content' => exact .node _ (.arr (Inline.agree_of_sameList content content' h))
    | _ => exact absurd h Bool.false_ne_true
  | .para content, b, h => by
    cases b with
    | para content' => exact .node _ (.arr (Inline.agree_of_sameList content content' h))
    | _ => exact absurd h Bool.false_ne_true
  | .lineBlock lines, b, h => by
    cases b with
    | lineBlock lines' => exact .node _ (.arr (Inline.agree_of_sameLines lines lines' h))
    | _ => exact absurd h Bool.false_ne_true
  | .codeBlock attr text, b, h => by
    cases b with
    | codeBlock attr' text' =>
      simp only [Block.same, Bool.and_eq_true, beq_iff_eq] at h
      obtain ⟨rfl, rfl⟩ := h
      exact .self (Block.codeBlock attr text).recognizes.written.valid
    | _ => exact absurd h Bool.false_ne_true
  | .rawBlock format text, b, h => by
    cases b with
    | rawBlock format' text' =>
      simp only [Block.same, Bool.and_eq_true, beq_iff_eq] at h
      obtain ⟨rfl, rfl⟩ := h
      exact .self (Block.rawBlock format text).recognizes.written.valid
    | _ => exact absurd h Bool.false_ne_true
  | .blockQuote content, b, h => by
    cases b with
    | blockQuote content' => exact .node _ (.arr (Block.agree_of_sameList content content' h))
    | _ => exact absurd h Bool.false_ne_true
  | .orderedList numbering items, b, h => by
    cases b with
    | orderedList numbering' items' =>
      simp only [Block.same, Bool.and_eq_true, beq_iff_eq] at h
      obtain ⟨rfl, hitems⟩ := h
      exact .node _ (.arr (.leaf numbering.recognizes.written.valid
        (.last (.arr (Block.agree_of_sameItems items items' hitems)))))
    | _ => exact absurd h Bool.false_ne_true
  | .bulletList items, b, h => by
    cases b with
    | bulletList items' => exact .node _ (.arr (Block.agree_of_sameItems items items' h))
    | _ => exact absurd h Bool.false_ne_true
  | .definitionList items, b, h => by
    cases b with
    | definitionList items' => exact .node _ (.arr (Definition.agree_of_sameList items items' h))
    | _ => exact absurd h Bool.false_ne_true
  | .header level attr content, b, h => by
    cases b with
    | header level' attr' content' =>
      simp only [Block.same, Bool.and_eq_true, beq_iff_eq] at h
      obtain ⟨⟨rfl, rfl⟩, hcontent⟩ := h
      exact .node _ (.arr (.leaf (Written.integer level).valid (.leaf attr.recognizes.written.valid
        (.last (.arr (Inline.agree_of_sameList content content' hcontent))))))
    | _ => exact absurd h Bool.false_ne_true
  | .horizontalRule, b, h => by
    cases b with
    | horizontalRule => exact .self Block.horizontalRule.recognizes.written.valid
    | _ => exact absurd h Bool.false_ne_true
  | .table caption alignments widths headers rows, b, h => by
    cases b with
    | table caption' alignments' widths' headers' rows' =>
      simp only [Block.same, Bool.and_eq_true, beq_iff_eq] at h
      obtain ⟨⟨⟨⟨hcaption, rfl⟩, hwidths⟩, hheaders⟩, hrows⟩ := h
      have halignments : (Json.arr (alignments.map Choice.toJson)).Valid :=
        (Recognizes.list fun a _ => Alignment.recognizes a).written.valid
      exact .node _ (.arr (.cons (.arr (Inline.agree_of_sameList caption caption' hcaption))
        (.leaf halignments (.cons (.arr (Binary64.agree_of_sameList hwidths))
          (.cons (.arr (Block.agree_of_sameItems headers headers' hheaders))
            (.last (.arr (Block.agree_of_sameRows rows rows' hrows))))))))
    | _ => exact absurd h Bool.false_ne_true
  | .div attr content, b, h => by
    cases b with
    | div attr' content' =>
      simp only [Block.same, Bool.and_eq_true, beq_iff_eq] at h
      obtain ⟨rfl, hcontent⟩ := h
      exact .node _ (.arr (.leaf attr.recognizes.written.valid
        (.last (.arr (Block.agree_of_sameList content content' hcontent)))))
    | _ => exact absurd h Bool.false_ne_true
  | .null, b, h => by
    cases b with
    | null => exact .self Block.null.recognizes.written.valid
    | _ => exact absurd h Bool.false_ne_true

/-- Equal sequences of blocks agree. -/
theorem Block.agree_of_sameList : (as bs : List Block) → Block.sameList as bs = true →
    AgreeAll (Block.widthsList as) (Block.widthsList bs) (Block.toJsonList as) (Block.toJsonList bs)
  | [], [], _ => .nil
  | [], _ :: _, h => absurd h Bool.false_ne_true
  | _ :: _, [], h => absurd h Bool.false_ne_true
  | a :: as, b :: bs, h => by
    obtain ⟨hhead, htail⟩ := Bool.and_eq_true_iff.1 h
    exact .cons (Block.agree_of_same a b hhead) (Block.agree_of_sameList as bs htail)

/-- Equal items or cells agree. -/
theorem Block.agree_of_sameItems : (as bs : List (List Block)) → Block.sameItems as bs = true →
    AgreeAll (Block.widthsItems as) (Block.widthsItems bs)
      (Block.toJsonItems as) (Block.toJsonItems bs)
  | [], [], _ => .nil
  | [], _ :: _, h => absurd h Bool.false_ne_true
  | _ :: _, [], h => absurd h Bool.false_ne_true
  | a :: as, b :: bs, h => by
    obtain ⟨hhead, htail⟩ := Bool.and_eq_true_iff.1 h
    exact .cons (.arr (Block.agree_of_sameList a b hhead)) (Block.agree_of_sameItems as bs htail)

/-- Equal rows agree. -/
theorem Block.agree_of_sameRows : (as bs : List (List (List Block))) → Block.sameRows as bs = true →
    AgreeAll (Block.widthsRows as) (Block.widthsRows bs) (Block.toJsonRows as) (Block.toJsonRows bs)
  | [], [], _ => .nil
  | [], _ :: _, h => absurd h Bool.false_ne_true
  | _ :: _, [], h => absurd h Bool.false_ne_true
  | a :: as, b :: bs, h => by
    obtain ⟨hhead, htail⟩ := Bool.and_eq_true_iff.1 h
    exact .cons (.arr (Block.agree_of_sameItems a b hhead)) (Block.agree_of_sameRows as bs htail)

/-- Equal terms with equal definitions agree. -/
theorem Definition.agree_of_same : (a b : Definition) → Definition.same a b = true →
    Agree a.widths b.widths a.toJson b.toJson
  | .mk term definitions, .mk term' definitions', h => by
    obtain ⟨hterm, hdefinitions⟩ := Bool.and_eq_true_iff.1 h
    exact .arr (.cons (.arr (Inline.agree_of_sameList term term' hterm))
      (.last (.arr (Block.agree_of_sameItems definitions definitions' hdefinitions))))

/-- Equal definition lists agree. -/
theorem Definition.agree_of_sameList : (as bs : List Definition) →
    Definition.sameList as bs = true →
    AgreeAll (Definition.widthsList as) (Definition.widthsList bs)
      (Definition.toJsonList as) (Definition.toJsonList bs)
  | [], [], _ => .nil
  | [], _ :: _, h => absurd h Bool.false_ne_true
  | _ :: _, [], h => absurd h Bool.false_ne_true
  | a :: as, b :: bs, h => by
    obtain ⟨hhead, htail⟩ := Bool.and_eq_true_iff.1 h
    exact .cons (Definition.agree_of_same a b hhead) (Definition.agree_of_sameList as bs htail)

/-- Equal inlines agree. -/
theorem Inline.agree_of_same : (a b : Inline) → Inline.same a b = true →
    Agree a.widths b.widths a.toJson b.toJson
  | .str text, b, h => by
    cases b with
    | str text' =>
      obtain rfl := beq_iff_eq.1 h
      exact .self (Inline.str text).recognizes.written.valid
    | _ => exact absurd h Bool.false_ne_true
  | .emph content, b, h => by
    cases b with
    | emph content' => exact .node _ (.arr (Inline.agree_of_sameList content content' h))
    | _ => exact absurd h Bool.false_ne_true
  | .strong content, b, h => by
    cases b with
    | strong content' => exact .node _ (.arr (Inline.agree_of_sameList content content' h))
    | _ => exact absurd h Bool.false_ne_true
  | .strikeout content, b, h => by
    cases b with
    | strikeout content' => exact .node _ (.arr (Inline.agree_of_sameList content content' h))
    | _ => exact absurd h Bool.false_ne_true
  | .superscript content, b, h => by
    cases b with
    | superscript content' => exact .node _ (.arr (Inline.agree_of_sameList content content' h))
    | _ => exact absurd h Bool.false_ne_true
  | .subscript content, b, h => by
    cases b with
    | subscript content' => exact .node _ (.arr (Inline.agree_of_sameList content content' h))
    | _ => exact absurd h Bool.false_ne_true
  | .smallCaps content, b, h => by
    cases b with
    | smallCaps content' => exact .node _ (.arr (Inline.agree_of_sameList content content' h))
    | _ => exact absurd h Bool.false_ne_true
  | .quoted kind content, b, h => by
    cases b with
    | quoted kind' content' =>
      simp only [Inline.same, Bool.and_eq_true, beq_iff_eq] at h
      obtain ⟨rfl, hcontent⟩ := h
      exact .node _ (.arr (.leaf kind.recognizes.written.valid
        (.last (.arr (Inline.agree_of_sameList content content' hcontent)))))
    | _ => exact absurd h Bool.false_ne_true
  | .cite citations content, b, h => by
    cases b with
    | cite citations' content' =>
      obtain ⟨hcitations, hcontent⟩ := Bool.and_eq_true_iff.1 h
      exact .node _ (.arr (.cons (.arr (Citation.agree_of_sameList citations citations' hcitations))
        (.last (.arr (Inline.agree_of_sameList content content' hcontent)))))
    | _ => exact absurd h Bool.false_ne_true
  | .code attr text, b, h => by
    cases b with
    | code attr' text' =>
      simp only [Inline.same, Bool.and_eq_true, beq_iff_eq] at h
      obtain ⟨rfl, rfl⟩ := h
      exact .self (Inline.code attr text).recognizes.written.valid
    | _ => exact absurd h Bool.false_ne_true
  | .space, b, h => by
    cases b with
    | space => exact .self Inline.space.recognizes.written.valid
    | _ => exact absurd h Bool.false_ne_true
  | .softBreak, b, h => by
    cases b with
    | softBreak => exact .self Inline.softBreak.recognizes.written.valid
    | _ => exact absurd h Bool.false_ne_true
  | .lineBreak, b, h => by
    cases b with
    | lineBreak => exact .self Inline.lineBreak.recognizes.written.valid
    | _ => exact absurd h Bool.false_ne_true
  | .math kind text, b, h => by
    cases b with
    | math kind' text' =>
      simp only [Inline.same, Bool.and_eq_true, beq_iff_eq] at h
      obtain ⟨rfl, rfl⟩ := h
      exact .self (Inline.math kind text).recognizes.written.valid
    | _ => exact absurd h Bool.false_ne_true
  | .rawInline format text, b, h => by
    cases b with
    | rawInline format' text' =>
      simp only [Inline.same, Bool.and_eq_true, beq_iff_eq] at h
      obtain ⟨rfl, rfl⟩ := h
      exact .self (Inline.rawInline format text).recognizes.written.valid
    | _ => exact absurd h Bool.false_ne_true
  | .link attr content target, b, h => by
    cases b with
    | link attr' content' target' =>
      simp only [Inline.same, Bool.and_eq_true, beq_iff_eq] at h
      obtain ⟨⟨rfl, hcontent⟩, rfl⟩ := h
      exact .node _ (.arr (.leaf attr.recognizes.written.valid
        (.lastBut (.arr (Inline.agree_of_sameList content content' hcontent))
          target.recognizes.written.valid)))
    | _ => exact absurd h Bool.false_ne_true
  | .image attr content target, b, h => by
    cases b with
    | image attr' content' target' =>
      simp only [Inline.same, Bool.and_eq_true, beq_iff_eq] at h
      obtain ⟨⟨rfl, hcontent⟩, rfl⟩ := h
      exact .node _ (.arr (.leaf attr.recognizes.written.valid
        (.lastBut (.arr (Inline.agree_of_sameList content content' hcontent))
          target.recognizes.written.valid)))
    | _ => exact absurd h Bool.false_ne_true
  | .note content, b, h => by
    cases b with
    | note content' => exact .node _ (.arr (Block.agree_of_sameList content content' h))
    | _ => exact absurd h Bool.false_ne_true
  | .span attr content, b, h => by
    cases b with
    | span attr' content' =>
      simp only [Inline.same, Bool.and_eq_true, beq_iff_eq] at h
      obtain ⟨rfl, hcontent⟩ := h
      exact .node _ (.arr (.leaf attr.recognizes.written.valid
        (.last (.arr (Inline.agree_of_sameList content content' hcontent)))))
    | _ => exact absurd h Bool.false_ne_true

/-- Equal running texts agree. -/
theorem Inline.agree_of_sameList : (as bs : List Inline) → Inline.sameList as bs = true →
    AgreeAll (Inline.widthsList as) (Inline.widthsList bs)
      (Inline.toJsonList as) (Inline.toJsonList bs)
  | [], [], _ => .nil
  | [], _ :: _, h => absurd h Bool.false_ne_true
  | _ :: _, [], h => absurd h Bool.false_ne_true
  | a :: as, b :: bs, h => by
    obtain ⟨hhead, htail⟩ := Bool.and_eq_true_iff.1 h
    exact .cons (Inline.agree_of_same a b hhead) (Inline.agree_of_sameList as bs htail)

/-- Equal lines agree. -/
theorem Inline.agree_of_sameLines : (as bs : List (List Inline)) → Inline.sameLines as bs = true →
    AgreeAll (Inline.widthsLines as) (Inline.widthsLines bs)
      (Inline.toJsonLines as) (Inline.toJsonLines bs)
  | [], [], _ => .nil
  | [], _ :: _, h => absurd h Bool.false_ne_true
  | _ :: _, [], h => absurd h Bool.false_ne_true
  | a :: as, b :: bs, h => by
    obtain ⟨hhead, htail⟩ := Bool.and_eq_true_iff.1 h
    exact .cons (.arr (Inline.agree_of_sameList a b hhead)) (Inline.agree_of_sameLines as bs htail)

/-- Equal citations agree. -/
theorem Citation.agree_of_same : (a b : Citation) → Citation.same a b = true →
    Agree a.widths b.widths a.toJson b.toJson
  | .mk id before after mode noteNumber hash, .mk id' before' after' mode' noteNumber' hash',
    h => by
    simp only [Citation.same, Bool.and_eq_true, beq_iff_eq] at h
    obtain ⟨⟨⟨⟨⟨rfl, hbefore⟩, hafter⟩, rfl⟩, rfl⟩, rfl⟩ := h
    have hbefore := Inline.agree_of_sameList before before' hbefore
    have hafter := Inline.agree_of_sameList after after' hafter
    have hmode : (Choice.toJson mode).same (Choice.toJson mode) = true :=
      mode.recognizes.written.valid.same_self
    refine ⟨Binary64.sameList_append hbefore.widths hafter.widths, ?_⟩
    simp [Citation.toJson, Json.same, Json.sameMembers, Json.int, Number.same, hbefore.values,
      hafter.values, hmode]

/-- Equal sequences of citations agree. -/
theorem Citation.agree_of_sameList : (as bs : List Citation) → Citation.sameList as bs = true →
    AgreeAll (Citation.widthsList as) (Citation.widthsList bs)
      (Citation.toJsonList as) (Citation.toJsonList bs)
  | [], [], _ => .nil
  | [], _ :: _, h => absurd h Bool.false_ne_true
  | _ :: _, [], h => absurd h Bool.false_ne_true
  | a :: as, b :: bs, h => by
    obtain ⟨hhead, htail⟩ := Bool.and_eq_true_iff.1 h
    exact .cons (Citation.agree_of_same a b hhead) (Citation.agree_of_sameList as bs htail)

end

/-! ## Metadata and documents -/

mutual

/-- Equal metadata values agree. -/
theorem MetaValue.agree_of_same : (a b : MetaValue) → MetaValue.same a b = true →
    Agree a.widths b.widths a.toJson b.toJson
  | .map entries, b, h => by
    cases b with
    | map entries' =>
      obtain ⟨hwidths, hmembers⟩ := MetaValue.agree_of_sameEntries entries entries' h
      exact .node _ ⟨hwidths, same_object hmembers⟩
    | _ => exact absurd h Bool.false_ne_true
  | .list values, b, h => by
    cases b with
    | list values' => exact .node _ (.arr (MetaValue.agree_of_sameList values values' h))
    | _ => exact absurd h Bool.false_ne_true
  | .bool x, b, h => by
    cases b with
    | bool x' =>
      obtain rfl := beq_iff_eq.1 h
      exact .self (MetaValue.bool x).recognizes.written.valid
    | _ => exact absurd h Bool.false_ne_true
  | .str s, b, h => by
    cases b with
    | str s' =>
      obtain rfl := beq_iff_eq.1 h
      exact .self (MetaValue.str s).recognizes.written.valid
    | _ => exact absurd h Bool.false_ne_true
  | .inlines content, b, h => by
    cases b with
    | inlines content' => exact .node _ (.arr (Inline.agree_of_sameList content content' h))
    | _ => exact absurd h Bool.false_ne_true
  | .blocks content, b, h => by
    cases b with
    | blocks content' => exact .node _ (.arr (Block.agree_of_sameList content content' h))
    | _ => exact absurd h Bool.false_ne_true

/-- Equal lists of metadata values agree. -/
theorem MetaValue.agree_of_sameList : (as bs : List MetaValue) → MetaValue.sameList as bs = true →
    AgreeAll (MetaValue.widthsList as) (MetaValue.widthsList bs)
      (MetaValue.toJsonList as) (MetaValue.toJsonList bs)
  | [], [], _ => .nil
  | [], _ :: _, h => absurd h Bool.false_ne_true
  | _ :: _, [], h => absurd h Bool.false_ne_true
  | a :: as, b :: bs, h => by
    obtain ⟨hhead, htail⟩ := Bool.and_eq_true_iff.1 h
    exact .cons (MetaValue.agree_of_same a b hhead) (MetaValue.agree_of_sameList as bs htail)

/-- Equal metadata has equal widths and is written as equal members. -/
theorem MetaValue.agree_of_sameEntries : (as bs : List (String × MetaValue)) →
    MetaValue.sameEntries as bs = true →
    Binary64.sameList (MetaValue.widthsEntries as) (MetaValue.widthsEntries bs) = true ∧
      sameMembers (MetaValue.toJsonEntries as) (MetaValue.toJsonEntries bs) = true
  | [], [], _ => ⟨rfl, rfl⟩
  | [], _ :: _, h => absurd h Bool.false_ne_true
  | _ :: _, [], h => absurd h Bool.false_ne_true
  | (key, a) :: as, (key', b) :: bs, h => by
    obtain ⟨hhead, htail⟩ := Bool.and_eq_true_iff.1 h
    obtain ⟨hkey, hvalue⟩ := Bool.and_eq_true_iff.1 hhead
    have hvalue := MetaValue.agree_of_same a b hvalue
    obtain ⟨hwidths, hmembers⟩ := MetaValue.agree_of_sameEntries as bs htail
    refine ⟨Binary64.sameList_append hvalue.widths hwidths, ?_⟩
    rw [MetaValue.toJsonEntries, MetaValue.toJsonEntries, sameMembers, hkey, hvalue.values,
      hmembers, Bool.and_self, Bool.and_self]

end

namespace Document

/-- Equal documents agree. -/
theorem agree_of_same {a b : Document} (h : (a == b) = true) :
    Agree a.widths b.widths a.toJson b.toJson := by
  have hsame : Document.same a b = true := h
  simp only [Document.same, Bool.and_eq_true, beq_iff_eq] at hsame
  obtain ⟨⟨hversion, hmeta⟩, hblocks⟩ := hsame
  have hblocks := Block.agree_of_sameList _ _ hblocks
  obtain ⟨hwidths, hmembers⟩ := MetaValue.agree_of_sameEntries _ _ hmeta
  have hversion' : a.apiVersion.toJson.same b.apiVersion.toJson = true :=
    hversion ▸ (ApiVersion.recognizes a.apiVersion).written.valid.same_self
  refine ⟨Binary64.sameList_append hwidths hblocks.widths, ?_⟩
  have hmeta' : (Meta.toJson a.metadata).same (Meta.toJson b.metadata) = true :=
    same_object hmembers
  simp [Document.toJson, Json.same, Json.sameMembers, hblocks.values, hversion', hmeta']

/-- Equal documents have equal widths. -/
theorem widths_of_same {a b : Document} (h : (a == b) = true) :
    Binary64.sameList a.widths b.widths = true :=
  (agree_of_same h).widths

/-- Equal documents are written as equal values. -/
theorem same_toJson {a b : Document} (h : (a == b) = true) : a.toJson.same b.toJson = true :=
  (agree_of_same h).values

/-- A document that equals a well-formed one is well-formed. -/
theorem WellFormed.of_same {a b : Document} (ha : a.WellFormed) (h : (a == b) = true) :
    b.WellFormed := by
  have hsame : Document.same a b = true := h
  simp only [Document.same, Bool.and_eq_true, beq_iff_eq] at hsame
  exact {
    version := hsame.1.1 ▸ ha.version
    finite := Binary64.isFinite_of_sameList (widths_of_same h) ha.finite
    ascending := keyLists_of_same h ▸ ha.ascending
  }

end Document

end Transclude
