import Transclude.Proofs.Json.Text

/-!
# Values that nest too deeply

A text that nests more containers than the reader keeps open is not read: the reader stops at the
first container past the limit.

Main results:

- Theorem {lit}`Json.readFrom_tokensThen_eq_none`: the tokens of a value are not read where its
  containers may not all be opened.
- Theorem {lit}`Json.parse?_render_eq_none`: the text of a value that nests too deeply is not read.
-/

namespace Transclude.Json

/-- Nothing is read after a token that does not fit. -/
theorem readFrom_cons_eq_none {state : State} {token : Token} (h : state.step token = none)
    (tokens : List Token) : readFrom state (token :: tokens) = none := by
  rw [readFrom, List.foldlM_cons, h]
  rfl

mutual

/-- Waiting for a value, the reader stops inside the tokens of one that nests more containers than
may still be opened. -/
theorem readFrom_tokensThen_eq_none (v : Json) (hv : v.Valid) (stack : List Frame)
    (hdepth : depthLimit < stack.length + v.depth) (hstack : stack.length ≤ depthLimit)
    (after : List Token) : readFrom ⟨.value, stack⟩ (tokensThen v after) = none := by
  match v with
  | .null | .bool b | .num n | .str s =>
    simp only [depth] at hdepth
    omega
  | .arr elements =>
    have helements : ∀ x ∈ elements, x.Valid := by
      cases hv with
      | arr h => exact h
    rw [depth] at hdepth
    rw [tokensThen]
    by_cases hroom : stack.length < depthLimit
    · have hopen : State.step ⟨.value, stack⟩ .openArray =
          some ⟨.valueOrClose, .array [] :: stack⟩ := if_pos hroom
      rw [readFrom_cons hopen]
      cases helements' : elements with
      | nil =>
        rw [helements', elementDepth] at hdepth
        omega
      | cons w rest =>
        rw [readFrom_valueOrClose, ← helements']
        exact readFrom_elementsThen_eq_none elements helements [] stack (by omega) hroom _
    · have hfull : State.step ⟨.value, stack⟩ .openArray = none := if_neg hroom
      exact readFrom_cons_eq_none hfull _
  | .obj members =>
    have hmembers : ∀ m ∈ members, m.2.Valid := by
      cases hv with
      | obj _ h => exact h
    rw [depth] at hdepth
    rw [tokensThen]
    by_cases hroom : stack.length < depthLimit
    · have hopen : State.step ⟨.value, stack⟩ .openObject = some ⟨.keyOrClose, stack⟩ :=
        if_pos hroom
      rw [readFrom_cons hopen]
      cases hmembers' : members with
      | nil =>
        rw [hmembers', memberDepth] at hdepth
        omega
      | cons m rest =>
        rw [readFrom_keyOrClose, ← hmembers']
        exact readFrom_membersThen_eq_none members hmembers [] stack (by omega) hroom _
    · have hfull : State.step ⟨.value, stack⟩ .openObject = none := if_neg hroom
      exact readFrom_cons_eq_none hfull _

/-- So it does inside an array, at the first element that nests too deeply. -/
theorem readFrom_elementsThen_eq_none (elements : List Json) (hv : ∀ x ∈ elements, x.Valid)
    (done : List Json) (stack : List Frame)
    (hdepth : depthLimit < stack.length + 1 + elementDepth elements)
    (hstack : stack.length < depthLimit) (after : List Token) :
    readFrom ⟨.value, .array done :: stack⟩ (elementsThen elements after) = none := by
  match elements with
  | [] =>
    rw [elementDepth] at hdepth
    omega
  | v :: rest =>
    obtain ⟨hhead, htail⟩ := List.forall_mem_cons.1 hv
    rw [elementDepth] at hdepth
    have hlength : (Frame.array done :: stack).length = stack.length + 1 := List.length_cons
    by_cases hfits : stack.length + 1 + v.depth ≤ depthLimit
    · match rest with
      | [] =>
        rw [elementDepth] at hdepth
        omega
      | w :: rest =>
        rw [elementsThen, readFrom_tokensThen v hhead _ (by omega), readFrom_cons rfl]
        exact readFrom_elementsThen_eq_none (w :: rest) htail (v :: done) stack (by omega) hstack
          after
    · have hnone := readFrom_tokensThen_eq_none v hhead (.array done :: stack) (by omega) (by omega)
      match rest with
      | [] => exact hnone _
      | w :: rest => exact hnone _

/-- So it does inside an object, at the first member that nests too deeply. -/
theorem readFrom_membersThen_eq_none (members : List (String × Json))
    (hv : ∀ m ∈ members, m.2.Valid) (done : List (String × Json)) (stack : List Frame)
    (hdepth : depthLimit < stack.length + 1 + memberDepth members)
    (hstack : stack.length < depthLimit) (after : List Token) :
    readFrom ⟨.key done, stack⟩ (membersThen members after) = none := by
  match members with
  | [] =>
    rw [memberDepth] at hdepth
    omega
  | (k, v) :: rest =>
    obtain ⟨hhead, htail⟩ := List.forall_mem_cons.1 hv
    rw [memberDepth] at hdepth
    have hlength : (Frame.object done k :: stack).length = stack.length + 1 := List.length_cons
    by_cases hfits : stack.length + 1 + v.depth ≤ depthLimit
    · match rest with
      | [] =>
        rw [memberDepth] at hdepth
        omega
      | m :: rest =>
        rw [membersThen, readFrom_cons rfl, readFrom_cons rfl,
          readFrom_tokensThen v hhead _ (by omega), readFrom_cons rfl]
        exact readFrom_membersThen_eq_none (m :: rest) htail ((k, v) :: done) stack (by omega)
          hstack after
    · have hnone := readFrom_tokensThen_eq_none v hhead (.object done k :: stack) (by omega)
        (by omega)
      match rest with
      | [] =>
        rw [membersThen, readFrom_cons rfl, readFrom_cons rfl]
        exact hnone _
      | m :: rest =>
        rw [membersThen, readFrom_cons rfl, readFrom_cons rfl]
        exact hnone _

end

/-- The text of a value that nests deeper than a text may is not read. -/
theorem parse?_render_eq_none {v : Json} (hv : v.Valid) (hreadable : v.Readable)
    (hdepth : depthLimit < v.depth) : parse? v.render = none := by
  have hread := readFrom_tokensThen_eq_none v hv [] (by rw [List.length_nil]; omega)
    (by simp) []
  have htokens : ofTokens? v.tokens = none := by
    unfold readFrom at hread
    rw [ofTokens?, tokens, hread]
    rfl
  rw [parse?, render, String.toList_ofList, (scannable_of_valid hv hreadable).scanAll_tokens]
  exact htokens

end Transclude.Json
