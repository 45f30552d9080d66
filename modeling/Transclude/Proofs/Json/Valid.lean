import Transclude.Proofs.Json.Text
import Transclude.Proofs.Number.Binary64

/-!
# What a text is read as

The values that are read from texts are values that there are: integers fit 64 bits, doubles are
finite, and the members of an object have ascending keys, each of them once.

Main results:

- Theorem {lit}`Numeral.valid_of_value?`: the number of a numeral is one that there is.
- Theorem {lit}`Json.State.sound_step`: a reader has read only values that there are.
- Theorem {lit}`Json.valid_of_parse?`: so the value of a text is one that there is.
-/

namespace Transclude

/-! ## Numbers -/

namespace Numeral

/-- Digits are kept as long as the significand fits 64 bits. -/
theorem keepDigits_lt {significand : Nat} (h : significand < wordLimit) (ds : List Nat) :
    (keepDigits significand ds).1 < wordLimit := by
  induction ds generalizing significand with
  | nil => exact h
  | cons d ds ih =>
    rw [keepDigits]
    split
    · next hnext => exact ih hnext
    · exact h

/-- A significand of 64 bits rounds to a finite number. -/
theorem isFinite_ofNat {n : Nat} (h : n < wordLimit) : (Binary64.ofNat n).isFinite = true := by
  have hbits : n < Nat.pow 2 64 := h
  apply Binary64.isFinite_nearest
  rw [Nat.div_one]
  exact Binary64.mul_two_pow_lt hbits (by decide)

/-- A finite number stays finite when it is scaled down. -/
theorem isFinite_scaleDown {x : Binary64} (hx : x.isFinite = true) {k : Nat} (hk : 0 < k) :
    (scaleDown x k).isFinite = true := by
  fun_induction scaleDown x k with
  | case1 x k hle => exact Binary64.isFinite_div_powerOfTen hx hk
  | case2 x k hle hzero => exact hx
  | case3 x k hle hzero ih =>
    exact ih (Binary64.isFinite_div_powerOfTen hx (by decide)) (by omega)

/-- A number is scaled up only if the result is finite. -/
theorem isFinite_scaleUp? {x y : Binary64} (hx : x.isFinite = true) {k : Nat}
    (h : scaleUp? x k = some y) : y.isFinite = true := by
  unfold scaleUp? at h
  split at h
  · exact Option.some.inj h ▸ hx
  · split at h
    · dsimp only at h
      split at h
      · next hfinite => exact Option.some.inj h ▸ hfinite
      · cases h
    · cases h

/-- The double of a significand of 64 bits and an exponent is finite. -/
theorem isFinite_double? {significand : Nat} (hsignificand : significand < wordLimit)
    {exponent : Int} {x : Binary64} (h : double? significand exponent = some x) :
    x.isFinite = true := by
  have hfinite := isFinite_ofNat hsignificand
  cases exponent with
  | ofNat k => exact isFinite_scaleUp? hfinite h
  | negSucc k => exact Option.some.inj h ▸ isFinite_scaleDown hfinite (Nat.succ_pos k)

/-- The double that a numeral stands for is finite. -/
theorem isFinite_toDouble? {n : Numeral} {x : Binary64} (h : n.toDouble? = some x) :
    x.isFinite = true := by
  have hwhole : (keepDigits 0 n.whole).1 < wordLimit := keepDigits_lt (by decide) n.whole
  have hkept := keepDigits_lt hwhole n.fraction
  unfold toDouble? at h
  dsimp only at h
  obtain ⟨y, hy, rfl⟩ := Option.map_eq_some_iff.1 h
  refine Binary64.isFinite_withSign ?_ n.negative
  split at hy
  · exact isFinite_double? hkept hy
  · split at hy
    · exact isFinite_double? hkept hy
    · split at hy
      · cases hy
      · obtain rfl := Option.some.inj hy
        decide

/-- The integer that a numeral stands for fits 64 bits. -/
theorem toInt?_bounds {n : Numeral} {i : Int} (h : n.toInt? = some i) :
    -0x8000000000000000 ≤ i ∧ i < 0x10000000000000000 := by
  have hlimit : wordLimit = 0x10000000000000000 := rfl
  unfold toInt? at h
  dsimp only at h
  split at h
  · cases h
  · split at h
    · split at h
      · cases h
      · obtain rfl := Option.some.inj h
        omega
    · split at h
      · obtain rfl := Option.some.inj h
        omega
      · cases h

/-- The number of a numeral is one that there is. -/
theorem valid_of_value? {n : Numeral} {number : Number} (h : n.value? = some number) :
    (Json.num number).Valid := by
  unfold value? at h
  split at h
  · next i hi =>
    obtain rfl := Option.some.inj h
    exact .int (toInt?_bounds hi).1 (toInt?_bounds hi).2
  · obtain ⟨x, hx, rfl⟩ := Option.map_eq_some_iff.1 h
    exact .double (isFinite_toDouble? hx)

end Numeral

namespace Json

/-! ## Tokens -/

namespace Token

/-- If a token is a number, it is one that there is. -/
def Sound (token : Token) : Prop :=
  ∀ n, token = .num n → (Json.num n).Valid

theorem sound_of_scanNumber {s rest : List Char} {token : Token}
    (h : scanNumber s = some (token, rest)) : token.Sound := by
  simp only [scanNumber, bind, Option.bind_eq_some_iff, pure, Option.some.injEq,
    Prod.mk.injEq] at h
  obtain ⟨⟨numeral, after⟩, _, n, hn, rfl, _⟩ := h
  intro m hm
  cases hm
  exact Numeral.valid_of_value? hn

/-- A literal is the token that it stands for. -/
theorem eq_of_scanLiteral {literal s rest : List Char} {t u : Token}
    (h : scanLiteral literal t s = some (u, rest)) : u = t := by
  unfold scanLiteral at h
  split at h
  · exact (Prod.mk.inj (Option.some.inj h)).1.symm
  · cases h

/-- Every scanned token is sound. -/
theorem sound_of_scan {c : Char} {s rest : List Char} {token : Token}
    (h : scan c s = some (token, rest)) : token.Sound := by
  unfold scan at h
  repeat' split at h
  all_goals first
    | exact sound_of_scanNumber h
    | (obtain rfl := eq_of_scanLiteral h; intro n hn; cases hn)
    | (cases h; intro n hn; cases hn)
    | (obtain ⟨_, _, h⟩ := Option.map_eq_some_iff.1 h; cases h; intro n hn; cases hn)

theorem sound_of_scanAll {s : List Char} {tokens : List Token} (h : scanAll s = some tokens) :
    ∀ token ∈ tokens, token.Sound := by
  fun_induction scanAll s generalizing tokens with
  | case1 =>
    cases h
    simp
  | case2 c rest _ ih => exact ih h
  | case3 => cases h
  | case4 c rest _ token after hscan _ ih =>
    obtain ⟨rest', hrest, rfl⟩ := Option.map_eq_some_iff.1 h
    exact List.forall_mem_cons.2 ⟨sound_of_scan hscan, ih hrest⟩

end Token

/-! ## Reading -/

/-- An open container holds only values that there are. -/
def Frame.Sound : Frame → Prop
  | .array done => ∀ v ∈ done, v.Valid
  | .object done _ => ∀ m ∈ done, m.2.Valid

/-- What has been read last are values that there are. -/
def Expecting.Sound : Expecting → Prop
  | .value => True
  | .valueOrClose => True
  | .keyOrClose => True
  | .key done => ∀ m ∈ done, m.2.Valid
  | .colon done _ => ∀ m ∈ done, m.2.Valid
  | .after v => v.Valid

namespace State

/-- A reader that has read only values that there are. -/
structure Sound (state : State) : Prop where
  expecting : state.expecting.Sound
  stack : ∀ frame ∈ state.stack, frame.Sound

/-- A value begins soundly. -/
theorem sound_begin {stack : List Frame} (hstack : ∀ frame ∈ stack, frame.Sound) {token : Token}
    (htoken : token.Sound) {next : State} (h : begin stack token = some next) : next.Sound := by
  cases token with
  | openArray =>
    have hbegin : begin stack .openArray =
        if stack.length < depthLimit then some ⟨.valueOrClose, .array [] :: stack⟩ else none := rfl
    rw [hbegin] at h
    split at h
    · cases h
      exact ⟨trivial, List.forall_mem_cons.2 ⟨by simp [Frame.Sound], hstack⟩⟩
    · cases h
  | openObject =>
    have hbegin : begin stack .openObject =
        if stack.length < depthLimit then some ⟨.keyOrClose, stack⟩ else none := rfl
    rw [hbegin] at h
    split at h
    · cases h
      exact ⟨trivial, hstack⟩
    · cases h
  | str s =>
    cases h
    exact ⟨.str s, hstack⟩
  | num n =>
    cases h
    exact ⟨htoken n rfl, hstack⟩
  | bool b =>
    cases h
    exact ⟨.bool b, hstack⟩
  | null =>
    cases h
    exact ⟨.null, hstack⟩
  | closeArray | closeObject | comma | colon => cases h

/-- The members of an object that is built of values that there are. -/
theorem valid_object {members : List (String × Json)} (h : ∀ m ∈ members, m.2.Valid) :
    (object members).Valid :=
  .obj (ascending_canonical members) fun m hm => h m (mem_of_mem_canonical hm)

/-- After a finished value the reader goes on soundly. -/
theorem sound_resume {v : Json} (hv : v.Valid) {stack : List Frame}
    (hstack : ∀ frame ∈ stack, frame.Sound) {token : Token} {next : State}
    (h : resume v stack token = some next) : next.Sound := by
  unfold resume at h
  split at h
  · next done stack =>
    cases h
    obtain ⟨hdone, hstack⟩ := List.forall_mem_cons.1 hstack
    exact ⟨trivial, List.forall_mem_cons.2 ⟨List.forall_mem_cons.2 ⟨hv, hdone⟩, hstack⟩⟩
  · next done stack =>
    cases h
    obtain ⟨hdone, hstack⟩ := List.forall_mem_cons.1 hstack
    have hall : ∀ x ∈ v :: done, x.Valid := List.forall_mem_cons.2 ⟨hv, hdone⟩
    exact ⟨.arr fun x hx => hall x (List.mem_reverse.1 hx), hstack⟩
  · next done k stack =>
    cases h
    obtain ⟨hdone, hstack⟩ := List.forall_mem_cons.1 hstack
    have hall : ∀ m ∈ (k, v) :: done, m.2.Valid := List.forall_mem_cons.2 ⟨hv, hdone⟩
    exact ⟨hall, hstack⟩
  · next done k stack =>
    cases h
    obtain ⟨hdone, hstack⟩ := List.forall_mem_cons.1 hstack
    have hall : ∀ m ∈ (k, v) :: done, m.2.Valid := List.forall_mem_cons.2 ⟨hv, hdone⟩
    exact ⟨valid_object fun m hm => hall m (List.mem_reverse.1 hm), hstack⟩
  · cases h

/-- One token more is read soundly. -/
theorem sound_step {state next : State} (hstate : state.Sound) {token : Token}
    (htoken : token.Sound) (h : state.step token = some next) : next.Sound := by
  obtain ⟨expecting, stack⟩ := state
  obtain ⟨hexpecting, hstack⟩ := hstate
  unfold step at h
  cases expecting with
  | value => exact sound_begin hstack htoken h
  | valueOrClose =>
    dsimp only at h
    split at h
    · cases h
      exact ⟨.arr (by simp), (List.forall_mem_cons.1 hstack).2⟩
    · exact sound_begin hstack htoken h
  | keyOrClose =>
    dsimp only at h
    split at h
    · cases h
      exact ⟨by simp [Expecting.Sound], hstack⟩
    · cases h
      exact ⟨.obj List.Pairwise.nil (by simp), hstack⟩
    · cases h
  | key done =>
    dsimp only at h
    split at h
    · cases h
      exact ⟨hexpecting, hstack⟩
    · cases h
  | colon done k =>
    dsimp only at h
    split at h
    · cases h
      exact ⟨trivial, List.forall_mem_cons.2 ⟨hexpecting, hstack⟩⟩
    · cases h
  | after v => exact sound_resume hexpecting hstack h

/-- So are all tokens. -/
theorem sound_readFrom {state final : State} (hstate : state.Sound) {tokens : List Token}
    (htokens : ∀ token ∈ tokens, token.Sound) (h : readFrom state tokens = some final) :
    final.Sound := by
  induction tokens generalizing state with
  | nil => exact Option.some.inj h ▸ hstate
  | cons token tokens ih =>
    obtain ⟨htoken, htokens⟩ := List.forall_mem_cons.1 htokens
    rw [readFrom, List.foldlM_cons] at h
    obtain ⟨next, hnext, h⟩ := Option.bind_eq_some_iff.1 h
    exact ih (sound_step hstate htoken hnext) htokens h

end State

/-- The value of a text is one that there is. -/
theorem valid_of_parse? {text : String} {v : Json} (h : parse? text = some v) : v.Valid := by
  obtain ⟨tokens, htokens, h⟩ := Option.bind_eq_some_iff.1 h
  obtain ⟨final, hfinal, h⟩ := Option.bind_eq_some_iff.1 h
  have hstart : State.Sound ⟨.value, []⟩ := ⟨trivial, by simp⟩
  have hsound := State.sound_readFrom hstart (Token.sound_of_scanAll htokens) hfinal
  unfold State.result? at h
  split at h
  · next hexpecting _ =>
    have hlast := hsound.expecting
    rw [hexpecting, Option.some.inj h] at hlast
    exact hlast
  · cases h

end Json

end Transclude
