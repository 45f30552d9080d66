import Transclude.Proofs.Document.Widths
import Transclude.Proofs.Expansion.Results
import Transclude.Proofs.Splice.Depth

/-!
# What files add to a document

An expanded document has no table widths but those of the document and of the files in it, and
nests no deeper than the document and as many files as may be open at once together.

Main results:

- Theorem {lit}`Expansion.givesOnly_widths`: the widths of an expanded document.
- Theorem {lit}`Expansion.givesOnly_depth`: how deep an expanded document nests.
-/

namespace Transclude

namespace Expansion

variable {σ : Type} {options : Options} {converter : Converter (StateM σ)}

/-! ## Widths -/

/-- The widths that a block holds apart from its children do not depend on these. -/
theorem ownWidths_block_of_husk {b b' : Block} (h : b'.husk = b.husk) :
    (Node.block b').ownWidths = (Node.block b).ownWidths := by
  have hhusk (b : Block) : (Node.block b).ownWidths = (Node.block b.husk).ownWidths := by
    cases b <;> rfl
  rw [hhusk b', h, ← hhusk b]

/-- Nor do those that an inline holds. -/
theorem ownWidths_inline_of_husk {x x' : Inline} (h : x'.husk = x.husk) :
    (Node.inline x').ownWidths = (Node.inline x).ownWidths := by
  have hhusk (x : Inline) : (Node.inline x).ownWidths = (Node.inline x.husk).ownWidths := by
    cases x <;> rfl
  rw [hhusk x', h, ← hhusk x]

/-- An expanded document has only widths of some kind, if the document and the files do. -/
theorem givesOnly_widths {p : Binary64 → Prop}
    (hconverter : ∀ request s document s',
      StateT.run (converter request) s = (.ok document, s') →
        ∀ w ∈ Block.widthsList document.blocks, p w)
    {bs : List Block} (hbs : ∀ w ∈ Block.widthsList bs, p w) (baseDir : String) :
    GivesOnly (fun out => ∀ w ∈ Block.widthsList out, p w)
      (blocks options converter baseDir bs) := by
  simp only [Block.forall_widthsList_iff] at hconverter hbs ⊢
  refine givesOnly_nodes _ _ hconverter ?_ ?_ ?_ hbs baseDir
  · intro x x' hx hhusk
    rw [ownWidths_inline_of_husk hhusk]
    exact hx
  · intro b b' hb _ hhusk
    rw [ownWidths_block_of_husk hhusk]
    exact hb
  · intro bs w hw
    cases hw

/-! ## Depth -/

open Json (elementDepth depth_node depth_arr)

/-- A directive has a class, so it nests at least four containers. -/
theorem four_le_depth_directive {attr : Attr} (h : options.isDirective attr = true)
    (text : String) : 4 ≤ (Block.codeBlock attr text).toJson.depth := by
  obtain ⟨c, classes, hclasses⟩ : ∃ c classes, attr.classes = c :: classes := by
    cases hclasses : attr.classes with
    | nil => simp [Options.isDirective, Attr.firstClass?, hclasses] at h
    | cons c classes => exact ⟨c, classes, rfl⟩
  simp only [Block.toJson, Attr.toJson, depth_node, depth_arr, elementDepth, hclasses,
    List.map_cons]
  omega

/-- The division of a file nests three containers around its blocks, and at least four. -/
theorem depth_container (bs : List Block) :
    (container options bs).toJson.depth = max 4 (elementDepth (Block.toJsonList bs) + 3) := by
  simp only [container, Block.toJson, Attr.toJson, Attr.ofClasses, depth_node, depth_arr,
    elementDepth, List.map_cons, List.map_nil, Json.depth_str]
  omega

/-- A pass that inserts files nests deeper by no more than the files nest deeper than directives. -/
theorem givesOnly_fragment_depth {slot : Block → Prop} {more : Nat}
    (hslot : ∀ c, slot c → c.toJson.depth ≤ 4 + more) {inclusion : Inclusion (StateM σ)}
    (hinclusion : ∀ text path dialect, GivesOnly slot (inclusion text path dialect))
    (baseDir : String) (bs : List Block) :
    GivesOnly (fun out => elementDepth (Block.toJsonList out) ≤
        elementDepth (Block.toJsonList bs) + more)
      (fragment options inclusion baseDir bs) := by
  rw [fragment_eq_blocks, OnePass.blocks_eq]
  refine Splice.blockContent_depth pure GivesOnly.asserts (fun b s answer s' hrun => ?_) true bs
  obtain ⟨hsuits, hanswer⟩ := answer_answered GivesOnly.asserts
    (givesOnly_directive hinclusion baseDir) b s answer s' hrun
  refine ⟨hsuits, ?_⟩
  rintro new rfl
  cases hanswer with
  | replace hmarked hnew =>
    refine Block.elementDepth_toJsonList_le fun c hc => Nat.le_trans (hslot c (hnew c hc)) ?_
    exact Nat.add_le_add_right (four_le_depth_directive hmarked _) more

/-- If no file nests more than {lit}`k + 1` containers in its blocks, an expanded document nests
deeper than the document by at most {lit}`k` for each file that may be open. -/
theorem givesOnly_depth {k : Nat}
    (hconverter : ∀ request s document s',
      StateT.run (converter request) s = (.ok document, s') →
        elementDepth (Block.toJsonList document.blocks) ≤ k + 1)
    (baseDir : String) (bs : List Block) :
    GivesOnly (fun out => elementDepth (Block.toJsonList out) ≤
        elementDepth (Block.toJsonList bs) + options.maxDepth * k)
      (blocks options converter baseDir bs) := by
  have hslot (room : Nat) (c : Block) (hc : Included options (fun room out =>
      elementDepth (Block.toJsonList out) ≤ k + 1 + room * k) room c) :
      c.toJson.depth ≤ 4 + room * k := by
    cases hc with
    | file hout =>
      rw [depth_container, Nat.succ_mul]
      omega
  refine givesOnly_fragment_depth (hslot options.maxDepth) (fun text path dialect => ?_) baseDir bs
  refine givesOnly_includeFile hconverter (fun room inclusion baseDir document hdocument
    hinclusion s out s' hrun => ?_) options.maxDepth [] text path dialect
  have hpass := givesOnly_fragment_depth (hslot room) hinclusion baseDir document.blocks s out s'
    hrun
  omega

end Expansion

end Transclude
