import Transclude.Json.Text
import Transclude.Proofs.Json.Spelling
import Transclude.Proofs.Wire.Grammar

/-!
# Values survive as text

A value is written as its tokens.  The text of the tokens is scanned into the same tokens, and
reading them leads, inside whatever containers are open, from waiting for a value to having read
that value.

Main results:

- Definition {lit}`Json.doubles`: the doubles that occur in a value.
- Definition {lit}`Json.Scannable`: a value whose text is scanned into its tokens, whatever follows.
- Theorem {lit}`Json.scannable_obj`: an object is scanned in whatever order its keys stand.
- Theorem {lit}`Json.readFrom_tokensThen`: the tokens of a value are read as that value.
- Theorem {lit}`Json.parse?_render`: the text of a value is read as that value.
-/

namespace Transclude.Json

/-! ## Doubles -/

mutual

/-- The doubles that occur in a value. -/
def doubles : Json → List Binary64
  | .num (.double x) => [x]
  | .arr elements => elementDoubles elements
  | .obj members => memberDoubles members
  | _ => []

/-- The doubles that occur in the elements of an array. -/
def elementDoubles : List Json → List Binary64
  | [] => []
  | v :: rest => doubles v ++ elementDoubles rest

/-- The doubles that occur in the members of an object. -/
def memberDoubles : List (String × Json) → List Binary64
  | [] => []
  | (_, v) :: rest => doubles v ++ memberDoubles rest

end

/-- A double of an array is one of an element. -/
theorem mem_elementDoubles_iff {x : Binary64} {elements : List Json} :
    x ∈ elementDoubles elements ↔ ∃ v ∈ elements, x ∈ v.doubles := by
  induction elements with
  | nil => simp [elementDoubles]
  | cons v rest ih => simp [elementDoubles, ih]

/-- A double of an object is one of a member. -/
theorem mem_memberDoubles_iff {x : Binary64} {members : List (String × Json)} :
    x ∈ memberDoubles members ↔ ∃ m ∈ members, x ∈ m.2.doubles := by
  induction members with
  | nil => simp [memberDoubles]
  | cons m rest ih => simp [memberDoubles, ih]

/-- A value whose doubles are scanned again from their written form. -/
def Readable (v : Json) : Prop :=
  ∀ x ∈ v.doubles, Legible (.double x)

/-- The elements of a readable array are readable. -/
theorem Readable.element {elements : List Json} (h : (arr elements).Readable) {v : Json}
    (hv : v ∈ elements) : v.Readable :=
  fun x hx => h x (mem_elementDoubles_iff.2 ⟨v, hv, hx⟩)

/-- The members of a readable object are readable. -/
theorem Readable.member {members : List (String × Json)} (h : (obj members).Readable)
    {m : String × Json} (hm : m ∈ members) : m.2.Readable :=
  fun x hx => h x (mem_memberDoubles_iff.2 ⟨m, hm, hx⟩)

/-! ## Texts of tokens -/

/-- The text of tokens, without blanks. -/
def spell (tokens : List Token) : List Char :=
  tokens.flatMap Token.spelling

/-- Tokens that are scanned again from their text. -/
def Scans (tokens : List Token) : Prop :=
  Token.scanAll (spell tokens) = some tokens

theorem scans_nil : Scans [] := by
  rw [Scans, spell, List.flatMap_nil, Token.scanAll]

/-- One more token is scanned in front of tokens that are. -/
theorem Scans.cons {tokens : List Token} (h : Scans tokens) (token : Token)
    (hnumber : ∀ n, token = .num n → Legible n ∧ Numeral.Ends (spell tokens)) :
    Scans (token :: tokens) := by
  have hscan := Token.scanAll_spelling token (spell tokens) hnumber
  rw [h] at hscan
  exact hscan

/-- A comma ends a number. -/
theorem ends_comma (tokens : List Token) : Numeral.Ends (spell (.comma :: tokens)) := by
  intro c hc
  obtain rfl := Option.some.inj hc
  decide

/-- The end of an array ends a number. -/
theorem ends_closeArray (tokens : List Token) : Numeral.Ends (spell (.closeArray :: tokens)) := by
  intro c hc
  obtain rfl := Option.some.inj hc
  decide

/-- The end of an object ends a number. -/
theorem ends_closeObject (tokens : List Token) :
    Numeral.Ends (spell (.closeObject :: tokens)) := by
  intro c hc
  obtain rfl := Option.some.inj hc
  decide

/-! ## Texts of values -/

/-- A value whose tokens are scanned in front of tokens that end a number. -/
def Scannable (v : Json) : Prop :=
  ∀ ⦃after : List Token⦄, Scans after → Numeral.Ends (spell after) → Scans (tokensThen v after)

@[simp] theorem scannable_null : null.Scannable :=
  fun _ hafter _ => hafter.cons .null (by simp)

@[simp] theorem scannable_bool (b : Bool) : (bool b).Scannable :=
  fun _ hafter _ => hafter.cons (.bool b) (by simp)

@[simp] theorem scannable_str (s : String) : (str s).Scannable :=
  fun _ hafter _ => hafter.cons (.str s) (by simp)

/-- A number is scanned in front of what ends it, if it is legible. -/
theorem scannable_num {n : Number} (h : Legible n) : (num n).Scannable := by
  intro after hafter hends
  refine hafter.cons (.num n) fun n' hn' => ?_
  obtain rfl := Token.num.inj hn'
  exact ⟨h, hends⟩

/-- An array is scanned if its elements are. -/
theorem scannable_arr {elements : List Json} (h : ∀ v ∈ elements, v.Scannable) :
    (arr elements).Scannable := by
  intro after hafter _
  have hclosed : Scans (elementsThen elements (.closeArray :: after)) := by
    induction elements with
    | nil => exact hafter.cons .closeArray (by simp)
    | cons v rest ih =>
      obtain ⟨hv, hrest⟩ := List.forall_mem_cons.1 h
      have hscans := ih hrest
      cases rest with
      | nil => exact hv hscans (ends_closeArray after)
      | cons w rest => exact hv (hscans.cons .comma (by simp)) (ends_comma _)
  exact hclosed.cons .openArray (by simp)

/-- An object is scanned if its members are, in whatever order its keys stand. -/
theorem scannable_obj {members : List (String × Json)} (h : ∀ m ∈ members, m.2.Scannable) :
    (obj members).Scannable := by
  intro after hafter _
  have hclosed : Scans (membersThen members (.closeObject :: after)) := by
    induction members with
    | nil => exact hafter.cons .closeObject (by simp)
    | cons m rest ih =>
      obtain ⟨hv, hrest⟩ := List.forall_mem_cons.1 h
      have hscans := ih hrest
      have hmember : ∀ {next : List Token}, Scans next → Numeral.Ends (spell next) →
          Scans (.str m.1 :: .colon :: tokensThen m.2 next) := fun hnext hends =>
        ((hv hnext hends).cons .colon (by simp)).cons (.str m.1) (by simp)
      cases rest with
      | nil => exact hmember hscans (ends_closeObject after)
      | cons w rest => exact hmember (hscans.cons .comma (by simp)) (ends_comma _)
  exact hclosed.cons .openObject (by simp)

/-- A value that there is is scanned if it is readable. -/
theorem scannable_of_valid {v : Json} (hv : v.Valid) (hreadable : v.Readable) : v.Scannable := by
  induction hv with
  | null => exact scannable_null
  | bool b => exact scannable_bool b
  | int hlow hhigh => exact scannable_num (legible_int hlow hhigh)
  | double _ => exact scannable_num (hreadable _ (List.mem_singleton_self _))
  | str s => exact scannable_str s
  | arr _ ih => exact scannable_arr fun v hv => ih v hv (hreadable.element hv)
  | obj _ _ ih => exact scannable_obj fun m hm => ih m hm (hreadable.member hm)

/-- The text of a value is scanned into its tokens. -/
theorem Scannable.scanAll_tokens {v : Json} (h : v.Scannable) :
    Token.scanAll (v.tokens.flatMap Token.spelling) = some v.tokens :=
  h scans_nil Numeral.ends_nil

/-! ## Reading tokens -/

/-- Reading tokens one after the other. -/
abbrev readFrom (state : State) (tokens : List Token) : Option State :=
  tokens.foldlM State.step state

/-- Tokens are read one after the other. -/
theorem readFrom_cons {state next : State} {token : Token} (h : state.step token = some next)
    (tokens : List Token) : readFrom state (token :: tokens) = readFrom next tokens := by
  rw [readFrom, List.foldlM_cons, h]
  rfl

/-- A value does not begin with the end of an array, so the first element of an array is read as
any other value is. -/
theorem readFrom_valueOrClose (v : Json) (rest : List Json) (stack : List Frame)
    (after : List Token) :
    readFrom ⟨.valueOrClose, stack⟩ (elementsThen (v :: rest) after) =
      readFrom ⟨.value, stack⟩ (elementsThen (v :: rest) after) := by
  have hfirst : ∀ after, readFrom ⟨.valueOrClose, stack⟩ (tokensThen v after) =
      readFrom ⟨.value, stack⟩ (tokensThen v after) := by
    intro after
    cases v with
    | null | bool | num | str | arr | obj => rfl
  cases rest with
  | nil => exact hfirst after
  | cons w rest => exact hfirst _

/-- A member begins with its key, so the first member of an object is read as any other is. -/
theorem readFrom_keyOrClose (m : String × Json) (rest : List (String × Json))
    (stack : List Frame) (after : List Token) :
    readFrom ⟨.keyOrClose, stack⟩ (membersThen (m :: rest) after) =
      readFrom ⟨.key [], stack⟩ (membersThen (m :: rest) after) := by
  cases rest with
  | nil => rfl
  | cons m' rest => rfl

mutual

/-- The tokens of a value lead from waiting for a value to having read it, as long as its
containers may still be opened. -/
theorem readFrom_tokensThen (v : Json) (hv : v.Valid) (stack : List Frame)
    (hdepth : stack.length + v.depth ≤ depthLimit) (after : List Token) :
    readFrom ⟨.value, stack⟩ (tokensThen v after) = readFrom ⟨.after v, stack⟩ after := by
  match v with
  | .null | .bool b | .num n | .str s => rfl
  | .arr elements =>
    have helements : ∀ x ∈ elements, x.Valid := by
      cases hv with
      | arr h => exact h
    rw [depth] at hdepth
    have hroom : stack.length < depthLimit := by omega
    have hopen : State.step ⟨.value, stack⟩ .openArray =
        some ⟨.valueOrClose, .array [] :: stack⟩ := if_pos hroom
    rw [tokensThen, readFrom_cons hopen]
    cases helements' : elements with
    | nil => rfl
    | cons w rest =>
      rw [readFrom_valueOrClose, ← helements']
      exact readFrom_elementsThen elements (by simp [helements']) helements [] stack (by omega)
        after
  | .obj members =>
    obtain ⟨hkeys, hmembers⟩ : Ascending members ∧ ∀ m ∈ members, m.2.Valid := by
      cases hv with
      | obj hkeys h => exact ⟨hkeys, h⟩
    rw [depth] at hdepth
    have hroom : stack.length < depthLimit := by omega
    have hopen : State.step ⟨.value, stack⟩ .openObject = some ⟨.keyOrClose, stack⟩ :=
      if_pos hroom
    rw [tokensThen, readFrom_cons hopen]
    cases hmembers' : members with
    | nil => rfl
    | cons m rest =>
      rw [readFrom_keyOrClose, ← hmembers', readFrom_membersThen members (by simp [hmembers'])
        hmembers [] stack (by omega) after, List.reverse_nil, List.nil_append, object,
        canonical_of_ascending hkeys]

/-- The tokens of the elements of an array lead to having read the array. -/
theorem readFrom_elementsThen (elements : List Json) (hne : elements ≠ [])
    (hv : ∀ x ∈ elements, x.Valid) (done : List Json) (stack : List Frame)
    (hdepth : stack.length + 1 + elementDepth elements ≤ depthLimit) (after : List Token) :
    readFrom ⟨.value, .array done :: stack⟩ (elementsThen elements (.closeArray :: after)) =
      readFrom ⟨.after (.arr (done.reverse ++ elements)), stack⟩ after := by
  match elements with
  | [] => exact absurd rfl hne
  | v :: rest =>
    obtain ⟨hhead, htail⟩ := List.forall_mem_cons.1 hv
    rw [elementDepth] at hdepth
    have hroom : (Frame.array done :: stack).length + v.depth ≤ depthLimit := by
      rw [List.length_cons]
      omega
    match rest with
    | [] =>
      rw [elementsThen, readFrom_tokensThen v hhead _ hroom, readFrom_cons rfl,
        List.reverse_cons]
    | w :: rest =>
      rw [elementsThen, readFrom_tokensThen v hhead _ hroom, readFrom_cons rfl,
        readFrom_elementsThen (w :: rest) (by simp) htail (v :: done) stack (by omega) after,
        List.reverse_cons, List.append_assoc, List.singleton_append]

/-- The tokens of the members of an object lead to having read the object. -/
theorem readFrom_membersThen (members : List (String × Json)) (hne : members ≠ [])
    (hv : ∀ m ∈ members, m.2.Valid) (done : List (String × Json)) (stack : List Frame)
    (hdepth : stack.length + 1 + memberDepth members ≤ depthLimit) (after : List Token) :
    readFrom ⟨.key done, stack⟩ (membersThen members (.closeObject :: after)) =
      readFrom ⟨.after (object (done.reverse ++ members)), stack⟩ after := by
  match members with
  | [] => exact absurd rfl hne
  | (k, v) :: rest =>
    obtain ⟨hhead, htail⟩ := List.forall_mem_cons.1 hv
    rw [memberDepth] at hdepth
    have hroom : (Frame.object done k :: stack).length + v.depth ≤ depthLimit := by
      rw [List.length_cons]
      omega
    match rest with
    | [] =>
      rw [membersThen, readFrom_cons rfl, readFrom_cons rfl,
        readFrom_tokensThen v hhead _ hroom, readFrom_cons rfl, List.reverse_cons]
    | m :: rest =>
      rw [membersThen, readFrom_cons rfl, readFrom_cons rfl,
        readFrom_tokensThen v hhead _ hroom, readFrom_cons rfl,
        readFrom_membersThen (m :: rest) (by simp) htail ((k, v) :: done) stack (by omega) after,
        List.reverse_cons, List.append_assoc, List.singleton_append]

end

/-! ## Reading texts -/

/-- The text of a value is read as that value, as long as it nests no deeper than a text may and
its doubles are scanned again. -/
theorem parse?_render {v : Json} (hv : v.Valid) (hreadable : v.Readable)
    (hdepth : v.depth ≤ depthLimit) : parse? v.render = some v := by
  have hread := readFrom_tokensThen v hv [] (by rw [List.length_nil]; omega) []
  have htokens : ofTokens? v.tokens = some v := by
    unfold readFrom at hread
    rw [ofTokens?, tokens, hread]
    rfl
  rw [parse?, render, String.toList_ofList, (scannable_of_valid hv hreadable).scanAll_tokens]
  exact htokens

end Transclude.Json
