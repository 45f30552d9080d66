import Mathlib.Order.MinMax
import Transclude.Proofs.Json.Text

/-!
# Values as they are spelled

What a text says before it is brought into canonical form: the members of an object stand in the
order of the text, and a key may stand there more than once.  Every text that is read spells such
a value, which nests no deeper than a text may, and is read as its canonical form.

Main results:

- Definition {lit}`Json.sorted`: the canonical form of a value as it is spelled.
- Definition {lit}`Json.Spells`: a text spells a value.
- Theorem {lit}`Json.State.spelled_step`: what a reader has read is spelled by what it holds.
- Theorem {lit}`Json.Spells.unique`: a text spells one value only.
- Theorem {lit}`Json.exists_spells_of_parse?`: what is read is the canonical form of what is
  spelled.
- Theorem {lit}`Json.depth_le_of_parse?`: what is read nests no deeper than a text may.
-/

namespace Transclude.Json

/-! ## Canonical forms -/

mutual

/-- The canonical form of a value as it is spelled: at every level the members of an object in
key order, the last one of each key. -/
def sorted : Json → Json
  | .arr elements => .arr (sortedElements elements)
  | .obj members => object (sortedMembers members)
  | v => v

/-- The canonical forms of the elements of an array. -/
def sortedElements : List Json → List Json
  | [] => []
  | v :: rest => sorted v :: sortedElements rest

/-- Members with the canonical forms of their values, in the order in which they stand. -/
def sortedMembers : List (String × Json) → List (String × Json)
  | [] => []
  | (k, v) :: rest => (k, sorted v) :: sortedMembers rest

end

/-- The elements of an array are brought into canonical form one by one. -/
theorem sortedElements_eq (elements : List Json) :
    sortedElements elements = elements.map sorted := by
  induction elements with
  | nil => rfl
  | cons v rest ih => rw [sortedElements, ih, List.map_cons]

/-- So are the values of the members of an object. -/
theorem sortedMembers_eq (members : List (String × Json)) :
    sortedMembers members = members.map fun m => (m.1, m.2.sorted) := by
  induction members with
  | nil => rfl
  | cons m rest ih => rw [sortedMembers, ih, List.map_cons]

theorem sortedElements_reverse (elements : List Json) :
    sortedElements elements.reverse = (sortedElements elements).reverse := by
  rw [sortedElements_eq, sortedElements_eq, List.map_reverse]

theorem sortedMembers_reverse (members : List (String × Json)) :
    sortedMembers members.reverse = (sortedMembers members).reverse := by
  rw [sortedMembers_eq, sortedMembers_eq, List.map_reverse]

/-- A text spells a value: the tokens of the text are those of the value. -/
def Spells (text : String) (source : Json) : Prop :=
  Token.scanAll text.toList = some source.tokens

/-- The text of a value spells it, with the keys in the order in which the value has them. -/
theorem Scannable.spells_render {v : Json} (h : v.Scannable) : Spells v.render v := by
  rw [Spells, render, String.toList_ofList]
  exact h.scanAll_tokens

/-! ## Depths -/

/-- An array nests one container more than each of its elements. -/
theorem elementDepth_le_iff {elements : List Json} {n : Nat} :
    elementDepth elements ≤ n ↔ ∀ v ∈ elements, v.depth ≤ n := by
  induction elements with
  | nil => simp [elementDepth]
  | cons v rest ih => rw [elementDepth, Nat.max_le, ih, List.forall_mem_cons]

/-- An object nests one container more than each of its values. -/
theorem memberDepth_le_iff {members : List (String × Json)} {n : Nat} :
    memberDepth members ≤ n ↔ ∀ m ∈ members, m.2.depth ≤ n := by
  induction members with
  | nil => simp [memberDepth]
  | cons m rest ih => rw [memberDepth, Nat.max_le, ih, List.forall_mem_cons]

/-- The order of elements does not matter for their depth. -/
theorem elementDepth_reverse (elements : List Json) :
    elementDepth elements.reverse = elementDepth elements := by
  apply Nat.le_antisymm
  · rw [elementDepth_le_iff]
    intro v hv
    exact elementDepth_le_iff.1 (Nat.le_refl _) v (List.mem_reverse.1 hv)
  · rw [elementDepth_le_iff]
    intro v hv
    exact elementDepth_le_iff.1 (Nat.le_refl _) v (List.mem_reverse.2 hv)

/-- Nor does the order of members for theirs. -/
theorem memberDepth_reverse (members : List (String × Json)) :
    memberDepth members.reverse = memberDepth members := by
  apply Nat.le_antisymm
  · rw [memberDepth_le_iff]
    intro m hm
    exact memberDepth_le_iff.1 (Nat.le_refl _) m (List.mem_reverse.1 hm)
  · rw [memberDepth_le_iff]
    intro m hm
    exact memberDepth_le_iff.1 (Nat.le_refl _) m (List.mem_reverse.2 hm)

mutual

/-- A canonical form nests no deeper than the value as it is spelled. -/
theorem depth_sorted_le : (v : Json) → v.sorted.depth ≤ v.depth
  | .null | .bool _ | .num _ | .str _ => Nat.le_refl _
  | .arr elements => Nat.succ_le_succ (elementDepth_sorted_le elements)
  | .obj members => by
    have hmembers := memberDepth_le_iff.1 (memberDepth_sorted_le members)
    refine Nat.succ_le_succ (memberDepth_le_iff.2 fun m hm => ?_)
    exact hmembers m (mem_of_mem_canonical hm)

/-- So it is with the elements of an array. -/
theorem elementDepth_sorted_le : (elements : List Json) →
    elementDepth (sortedElements elements) ≤ elementDepth elements
  | [] => Nat.le_refl _
  | v :: rest => max_le_max (depth_sorted_le v) (elementDepth_sorted_le rest)

/-- So it is with the members of an object. -/
theorem memberDepth_sorted_le : (members : List (String × Json)) →
    memberDepth (sortedMembers members) ≤ memberDepth members
  | [] => Nat.le_refl _
  | (_, v) :: rest => max_le_max (depth_sorted_le v) (memberDepth_sorted_le rest)

end

/-! ## Tokens of what stands before the end of a container -/

/-- The tokens of elements, a comma after each of them. -/
def elementsBefore (elements : List Json) : List Token :=
  elements.flatMap fun v => v.tokens ++ [.comma]

/-- The tokens of members, a comma after each of them. -/
def membersBefore (members : List (String × Json)) : List Token :=
  members.flatMap fun m => .str m.1 :: .colon :: m.2.tokens ++ [.comma]

/-- The tokens of elements of which the last one is known. -/
theorem elementsThen_concat (elements : List Json) (v : Json) (after : List Token) :
    elementsThen (elements ++ [v]) after = elementsBefore elements ++ (v.tokens ++ after) := by
  induction elements with
  | nil => exact tokensThen_eq v after
  | cons w rest ih =>
    have hrest : ∃ x more, rest ++ [v] = x :: more := List.exists_cons_of_ne_nil (by simp)
    obtain ⟨x, more, hmore⟩ := hrest
    rw [List.cons_append, hmore, elementsThen, ← hmore, ih, tokensThen_eq]
    simp [elementsBefore]

/-- The tokens of members of which the last one is known. -/
theorem membersThen_concat (members : List (String × Json)) (k : String) (v : Json)
    (after : List Token) :
    membersThen (members ++ [(k, v)]) after =
      membersBefore members ++ .str k :: .colon :: (v.tokens ++ after) := by
  induction members with
  | nil =>
    rw [List.nil_append, membersThen, tokensThen_eq]
    rfl
  | cons m rest ih =>
    have hrest : ∃ x more, rest ++ [(k, v)] = x :: more := List.exists_cons_of_ne_nil (by simp)
    obtain ⟨x, more, hmore⟩ := hrest
    rw [List.cons_append, hmore, membersThen, ← hmore, ih, tokensThen_eq]
    simp [membersBefore]

/-! ## Readers that hold values as they are spelled -/

namespace Frame

/-- An open container that holds canonical forms. -/
def sorted : Frame → Frame
  | .array done => .array (sortedElements done)
  | .object done key => .object (sortedMembers done) key

/-- The tokens that have been read of an open container, up to the value that is read now. -/
def spelled : Frame → List Token
  | .array done => .openArray :: elementsBefore done.reverse
  | .object done key => .openObject :: (membersBefore done.reverse ++ [.str key, .colon])

/-- What an open container holds may stand inside so many others. -/
def Fits (outside : Nat) : Frame → Prop
  | .array done => outside + 1 + elementDepth done ≤ depthLimit
  | .object done _ => outside + 1 + memberDepth done ≤ depthLimit

end Frame

namespace Expecting

/-- What a reader waits for, next to canonical forms. -/
def sorted : Expecting → Expecting
  | .value => .value
  | .valueOrClose => .valueOrClose
  | .keyOrClose => .keyOrClose
  | .key done => .key (sortedMembers done)
  | .colon done k => .colon (sortedMembers done) k
  | .after v => .after v.sorted

/-- The tokens that have been read since the last container was opened that is still open. -/
def spelled : Expecting → List Token
  | .value => []
  | .valueOrClose => []
  | .keyOrClose => [.openObject]
  | .key done => .openObject :: membersBefore done.reverse
  | .colon done k => .openObject :: (membersBefore done.reverse ++ [.str k])
  | .after v => v.tokens

/-- What has been read last may stand inside so many containers; and the reader waits for the end
of an array only in front of its first element. -/
def Fits (stack : List Frame) : Expecting → Prop
  | .value => True
  | .valueOrClose => ∃ outside, stack = .array [] :: outside
  | .keyOrClose => stack.length + 1 ≤ depthLimit
  | .key done => stack.length + 1 + memberDepth done ≤ depthLimit
  | .colon done _ => stack.length + 1 + memberDepth done ≤ depthLimit
  | .after v => stack.length + v.depth ≤ depthLimit

end Expecting

/-- The tokens that have been read of open containers, the innermost of which stands first. -/
def spelledStack : List Frame → List Token
  | [] => []
  | frame :: stack => spelledStack stack ++ frame.spelled

/-- Every open container holds what may stand there. -/
def FitsStack : List Frame → Prop
  | [] => True
  | frame :: stack => frame.Fits stack.length ∧ FitsStack stack

/-- No more containers are open than a text may nest. -/
theorem FitsStack.length_le : ∀ {stack : List Frame}, FitsStack stack → stack.length ≤ depthLimit
  | [], _ => Nat.zero_le _
  | .array _ :: _, h => Nat.le_of_add_right_le h.1
  | .object _ _ :: _, h => Nat.le_of_add_right_le h.1

namespace State

/-- The reader that holds canonical forms. -/
def sorted (source : State) : State :=
  ⟨source.expecting.sorted, source.stack.map Frame.sorted⟩

/-- The tokens that a reader has read. -/
def spelled (source : State) : List Token :=
  spelledStack source.stack ++ source.expecting.spelled

/-- A reader that holds what may stand in a text. -/
structure Fits (source : State) : Prop where
  expecting : source.expecting.Fits source.stack
  stack : FitsStack source.stack

/-- A reader that holds values as they are spelled, next to one that holds their canonical forms
and has read one more token. -/
def Follows (front : List Token) (token : Token) (next : State) : Prop :=
  ∃ source : State, source.Fits ∧ source.sorted = next ∧ source.spelled = front ++ [token]

/-- A value begins as it is spelled. -/
theorem spelled_begin {stack : List Frame} (hstack : FitsStack stack) {token : Token}
    {next : State} (h : begin (stack.map Frame.sorted) token = some next) :
    Follows (spelledStack stack) token next := by
  have hdepth : stack.length + 0 ≤ depthLimit := FitsStack.length_le hstack
  cases token with
  | openArray =>
    have hbegin : begin (stack.map Frame.sorted) .openArray =
        if (stack.map Frame.sorted).length < depthLimit then
          some ⟨.valueOrClose, .array [] :: stack.map Frame.sorted⟩
        else none := rfl
    rw [hbegin, List.length_map] at h
    split at h
    · next hroom =>
      cases h
      exact ⟨⟨.valueOrClose, .array [] :: stack⟩, ⟨⟨stack, rfl⟩, hroom, hstack⟩, rfl,
        List.append_nil _⟩
    · cases h
  | openObject =>
    have hbegin : begin (stack.map Frame.sorted) .openObject =
        if (stack.map Frame.sorted).length < depthLimit then
          some ⟨.keyOrClose, stack.map Frame.sorted⟩
        else none := rfl
    rw [hbegin, List.length_map] at h
    split at h
    · next hroom =>
      cases h
      exact ⟨⟨.keyOrClose, stack⟩, ⟨hroom, hstack⟩, rfl, rfl⟩
    · cases h
  | str s =>
    cases h
    exact ⟨⟨.after (.str s), stack⟩, ⟨hdepth, hstack⟩, rfl, rfl⟩
  | num n =>
    cases h
    exact ⟨⟨.after (.num n), stack⟩, ⟨hdepth, hstack⟩, rfl, rfl⟩
  | bool b =>
    cases h
    exact ⟨⟨.after (.bool b), stack⟩, ⟨hdepth, hstack⟩, rfl, rfl⟩
  | null =>
    cases h
    exact ⟨⟨.after .null, stack⟩, ⟨hdepth, hstack⟩, rfl, rfl⟩
  | closeArray | closeObject | comma | colon => cases h

/-- The tokens of an array that is at its end. -/
theorem tokens_closed_array (done : List Json) (v : Json) :
    (Json.arr (v :: done).reverse).tokens =
      .openArray :: (elementsBefore done.reverse ++ (v.tokens ++ [.closeArray])) := by
  rw [List.reverse_cons, tokens, tokensThen, elementsThen_concat]

/-- The tokens of an object that is at its end. -/
theorem tokens_closed_object (done : List (String × Json)) (k : String) (v : Json) :
    (Json.obj ((k, v) :: done).reverse).tokens =
      .openObject :: (membersBefore done.reverse ++
        .str k :: .colon :: (v.tokens ++ [.closeObject])) := by
  rw [List.reverse_cons, tokens, tokensThen, membersThen_concat]

/-- After a finished value the reader goes on as it is spelled. -/
theorem spelled_resume {v : Json} {stack : List Frame} (hv : stack.length + v.depth ≤ depthLimit)
    (hstack : FitsStack stack) {token : Token} {next : State}
    (h : resume v.sorted (stack.map Frame.sorted) token = some next) :
    Follows (spelledStack stack ++ v.tokens) token next := by
  cases stack with
  | nil => cases h
  | cons frame stack =>
    obtain ⟨hframe, hstack⟩ := hstack
    rw [List.length_cons] at hv
    cases frame with
    | array done =>
      have hdepth : stack.length + 1 + elementDepth (v :: done) ≤ depthLimit := by
        have hdone : stack.length + 1 + elementDepth done ≤ depthLimit := hframe
        rw [elementDepth]
        omega
      cases token with
      | comma =>
        cases h
        refine ⟨⟨.value, .array (v :: done) :: stack⟩, ⟨trivial, hdepth, hstack⟩, rfl, ?_⟩
        simp [spelled, spelledStack, Frame.spelled, Expecting.spelled, elementsBefore]
      | closeArray =>
        cases h
        refine ⟨⟨.after (.arr (v :: done).reverse), stack⟩, ⟨?_, hstack⟩, ?_, ?_⟩
        · change stack.length + (Json.arr (v :: done).reverse).depth ≤ depthLimit
          rw [depth, elementDepth_reverse]
          omega
        · rw [State.sorted, Expecting.sorted, Json.sorted, sortedElements_reverse]
          rfl
        · rw [spelled, Expecting.spelled, tokens_closed_array]
          simp [spelledStack, Frame.spelled]
      | _ => cases h
    | object done k =>
      have hdepth : stack.length + 1 + memberDepth ((k, v) :: done) ≤ depthLimit := by
        have hdone : stack.length + 1 + memberDepth done ≤ depthLimit := hframe
        rw [memberDepth]
        omega
      cases token with
      | comma =>
        cases h
        refine ⟨⟨.key ((k, v) :: done), stack⟩, ⟨hdepth, hstack⟩, rfl, ?_⟩
        simp [spelled, spelledStack, Frame.spelled, Expecting.spelled, membersBefore]
      | closeObject =>
        cases h
        refine ⟨⟨.after (.obj ((k, v) :: done).reverse), stack⟩, ⟨?_, hstack⟩, ?_, ?_⟩
        · change stack.length + (Json.obj ((k, v) :: done).reverse).depth ≤ depthLimit
          rw [depth, memberDepth_reverse]
          omega
        · rw [State.sorted, Expecting.sorted, Json.sorted, sortedMembers_reverse]
          rfl
        · rw [spelled, Expecting.spelled, tokens_closed_object]
          simp [spelledStack, Frame.spelled]
      | _ => cases h

/-- One more token is read as it is spelled. -/
theorem spelled_step {source next : State} (hsource : source.Fits) {token : Token}
    (h : source.sorted.step token = some next) : Follows source.spelled token next := by
  obtain ⟨expecting, stack⟩ := source
  obtain ⟨hexpecting, hstack⟩ := hsource
  cases expecting with
  | value =>
    rw [spelled, Expecting.spelled, List.append_nil]
    exact spelled_begin hstack h
  | valueOrClose =>
    obtain ⟨outside, rfl⟩ := hexpecting
    rw [spelled, Expecting.spelled, List.append_nil]
    by_cases hclose : token = .closeArray
    · subst hclose
      cases h
      exact ⟨⟨.after (.arr []), outside⟩, ⟨hstack.1, hstack.2⟩, rfl, by
        simp [spelled, spelledStack, Frame.spelled, Expecting.spelled, elementsBefore, tokens,
          tokensThen, elementsThen]⟩
    · apply spelled_begin hstack
      rw [← h]
      cases token with
      | closeArray => exact absurd rfl hclose
      | _ => rfl
  | keyOrClose =>
    cases token with
    | str k =>
      cases h
      exact ⟨⟨.colon [] k, stack⟩, ⟨hexpecting, hstack⟩, rfl, by
        simp [spelled, Expecting.spelled, membersBefore]⟩
    | closeObject =>
      cases h
      exact ⟨⟨.after (.obj []), stack⟩, ⟨hexpecting, hstack⟩, rfl, by
        simp [spelled, Expecting.spelled, tokens, tokensThen, membersThen]⟩
    | _ => cases h
  | key done =>
    cases token with
    | str k =>
      cases h
      exact ⟨⟨.colon done k, stack⟩, ⟨hexpecting, hstack⟩, rfl, by
        simp [spelled, Expecting.spelled]⟩
    | _ => cases h
  | colon done k =>
    cases token with
    | colon =>
      cases h
      exact ⟨⟨.value, .object done k :: stack⟩, ⟨trivial, hexpecting, hstack⟩, rfl, by
        simp [spelled, Expecting.spelled, spelledStack, Frame.spelled]⟩
    | _ => cases h
  | after v => exact spelled_resume hexpecting hstack h

/-- So are all tokens. -/
theorem spelled_tokens {source final : State} (hsource : source.Fits) {tokens : List Token}
    (h : tokens.foldlM State.step source.sorted = some final) :
    ∃ source' : State, source'.Fits ∧ source'.sorted = final ∧
      source'.spelled = source.spelled ++ tokens := by
  induction tokens generalizing source with
  | nil => exact ⟨source, hsource, Option.some.inj h, (List.append_nil _).symm⟩
  | cons token tokens ih =>
    rw [List.foldlM_cons] at h
    obtain ⟨next, hnext, h⟩ := Option.bind_eq_some_iff.1 h
    obtain ⟨middle, hmiddle, rfl, hspelled⟩ := spelled_step hsource hnext
    obtain ⟨last, hlast, hfinal, hspelled'⟩ := ih hmiddle h
    refine ⟨last, hlast, hfinal, ?_⟩
    rw [hspelled', hspelled, List.append_assoc, List.singleton_append]

end State

/-! ## Tokens tell values apart -/

/-- A token with which a value begins. -/
def Token.Begins : Token → Prop
  | .closeArray => False
  | .closeObject => False
  | .comma => False
  | .colon => False
  | _ => True

/-- The tokens of a value begin with such a token. -/
theorem tokensThen_begins (v : Json) (after : List Token) :
    ∃ token rest, tokensThen v after = token :: rest ∧ token.Begins := by
  cases v <;> exact ⟨_, _, rfl, trivial⟩

/-- The tokens of a value are not some that begin otherwise. -/
theorem tokensThen_ne_cons {token : Token} (htoken : ¬ token.Begins) (v : Json)
    (after rest : List Token) : tokensThen v after ≠ token :: rest := by
  intro h
  obtain ⟨first, more, hfirst, hbegins⟩ := tokensThen_begins v after
  rw [hfirst, List.cons.injEq] at h
  exact htoken (h.1 ▸ hbegins)

/-- The tokens of elements that are not none begin with those of the first. -/
theorem elementsThen_ne_cons {token : Token} (htoken : ¬ token.Begins) (v : Json)
    (elements : List Json) (after rest : List Token) :
    elementsThen (v :: elements) after ≠ token :: rest := by
  cases elements with
  | nil => exact tokensThen_ne_cons htoken v _ _
  | cons w elements => exact tokensThen_ne_cons htoken v _ _

/-- Members that are not none begin with a key. -/
theorem membersThen_cons (k : String) (v : Json) (members : List (String × Json))
    (after : List Token) :
    ∃ rest, membersThen ((k, v) :: members) after = .str k :: rest := by
  cases members <;> exact ⟨_, rfl⟩

mutual

/-- Values with the same tokens are the same. -/
theorem tokensThen_inj : ∀ {v w : Json} {after after' : List Token},
    tokensThen v after = tokensThen w after' → v = w ∧ after = after'
  | v, w, after, after', h => by
    cases v with
    | null => cases w <;> simp_all [tokensThen]
    | bool b => cases w <;> simp_all [tokensThen]
    | num n => cases w <;> simp_all [tokensThen]
    | str s => cases w <;> simp_all [tokensThen]
    | arr elements =>
      cases w with
      | arr elements' =>
        simp only [tokensThen, List.cons.injEq, true_and] at h
        obtain ⟨rfl, rfl⟩ := elementsThen_inj h
        exact ⟨rfl, rfl⟩
      | _ => simp [tokensThen] at h
    | obj members =>
      cases w with
      | obj members' =>
        simp only [tokensThen, List.cons.injEq, true_and] at h
        obtain ⟨rfl, rfl⟩ := membersThen_inj h
        exact ⟨rfl, rfl⟩
      | _ => simp [tokensThen] at h

/-- Arrays with the same tokens have the same elements. -/
theorem elementsThen_inj : ∀ {elements elements' : List Json} {after after' : List Token},
    elementsThen elements (.closeArray :: after) = elementsThen elements' (.closeArray :: after') →
      elements = elements' ∧ after = after'
  | [], [], after, after', h => by
    simpa [elementsThen] using h
  | [], w :: rest, after, after', h => by
    exact absurd h.symm (elementsThen_ne_cons id w rest _ _)
  | v :: rest, [], after, after', h => by
    exact absurd h (elementsThen_ne_cons id v rest _ _)
  | [v], [w], after, after', h => by
    obtain ⟨rfl, hafter⟩ := tokensThen_inj h
    exact ⟨rfl, (List.cons.inj hafter).2⟩
  | [v], w :: w' :: rest, after, after', h => by
    obtain ⟨_, hafter⟩ := tokensThen_inj h
    cases hafter
  | v :: v' :: rest, [w], after, after', h => by
    obtain ⟨_, hafter⟩ := tokensThen_inj h
    cases hafter
  | v :: v' :: rest, w :: w' :: rest', after, after', h => by
    obtain ⟨rfl, hafter⟩ := tokensThen_inj h
    obtain ⟨hrest, hafter⟩ := elementsThen_inj (List.cons.inj hafter).2
    exact ⟨congrArg (v :: ·) hrest, hafter⟩

/-- Objects with the same tokens have the same members. -/
theorem membersThen_inj : ∀ {members members' : List (String × Json)} {after after' : List Token},
    membersThen members (.closeObject :: after) = membersThen members' (.closeObject :: after') →
      members = members' ∧ after = after'
  | [], [], after, after', h => by
    simpa [membersThen] using h
  | [], (k, w) :: rest, after, after', h => by
    obtain ⟨more, hmore⟩ := membersThen_cons k w rest (.closeObject :: after')
    rw [hmore] at h
    cases h
  | (k, v) :: rest, [], after, after', h => by
    obtain ⟨more, hmore⟩ := membersThen_cons k v rest (.closeObject :: after)
    rw [hmore] at h
    cases h
  | [(k, v)], [(k', w)], after, after', h => by
    simp only [membersThen, List.cons.injEq, Token.str.injEq, true_and] at h
    obtain ⟨rfl, h⟩ := h
    obtain ⟨rfl, hafter⟩ := tokensThen_inj h
    exact ⟨rfl, (List.cons.inj hafter).2⟩
  | [(k, v)], (k', w) :: m :: rest, after, after', h => by
    simp only [membersThen, List.cons.injEq, Token.str.injEq, true_and] at h
    obtain ⟨_, hafter⟩ := tokensThen_inj h.2
    cases hafter
  | (k, v) :: m :: rest, [(k', w)], after, after', h => by
    simp only [membersThen, List.cons.injEq, Token.str.injEq, true_and] at h
    obtain ⟨_, hafter⟩ := tokensThen_inj h.2
    cases hafter
  | (k, v) :: m :: rest, (k', w) :: m' :: rest', after, after', h => by
    simp only [membersThen, List.cons.injEq, Token.str.injEq, true_and] at h
    obtain ⟨rfl, h⟩ := h
    obtain ⟨rfl, hafter⟩ := tokensThen_inj h
    obtain ⟨hrest, hafter⟩ := membersThen_inj (List.cons.inj hafter).2
    exact ⟨congrArg ((k, v) :: ·) hrest, hafter⟩

end

/-- A text spells one value only. -/
theorem Spells.unique {text : String} {source source' : Json} (h : Spells text source)
    (h' : Spells text source') : source = source' := by
  rw [Spells, h] at h'
  exact (tokensThen_inj (Option.some.inj h')).1

/-! ## Texts that are read -/

/-- A text that is read spells a value, which nests no deeper than a text may, and is read as the
canonical form of it. -/
theorem exists_spells_of_parse? {text : String} {v : Json} (h : parse? text = some v) :
    ∃ source : Json, Spells text source ∧ source.depth ≤ depthLimit ∧ v = source.sorted := by
  obtain ⟨tokens, htokens, h⟩ := Option.bind_eq_some_iff.1 h
  obtain ⟨final, hfinal, h⟩ := Option.bind_eq_some_iff.1 h
  have hstart : State.Fits ⟨.value, []⟩ := ⟨trivial, trivial⟩
  obtain ⟨⟨expecting, stack⟩, hfits, rfl, hspelled⟩ := State.spelled_tokens hstart hfinal
  cases expecting with
  | after source =>
    cases stack with
    | nil =>
      refine ⟨source, ?_, ?_, (Option.some.inj h).symm⟩
      · rw [Spells, htokens]
        exact congrArg some hspelled.symm
      · have hdepth : 0 + source.depth ≤ depthLimit := hfits.expecting
        omega
    | cons frame stack => cases h
  | _ => cases h

/-- What is read nests no deeper than a text may. -/
theorem depth_le_of_parse? {text : String} {v : Json} (h : parse? text = some v) :
    v.depth ≤ depthLimit := by
  obtain ⟨source, -, hdepth, rfl⟩ := exists_spells_of_parse? h
  exact Nat.le_trans (depth_sorted_le source) hdepth

end Transclude.Json
