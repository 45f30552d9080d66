import Transclude.Json.Token

/-!
# Tokens survive as text

A token that has been written is scanned again as the same token.  What follows it may be
anything, except after a number, which goes on as long as it can.

Main results:

- Theorem {lit}`Quoted.scan_body`: a written string is scanned again.
- Theorem {lit}`Numeral.scan_append`: a numeral that fills a text is scanned in front of whatever
  does not go on with it.
- Theorem {lit}`Json.legible_int`: a written integer is scanned again.
- Theorem {lit}`Token.scanAll_spelling`: a written token is scanned in front of the others.
-/

namespace Transclude

/-! ## Digits -/

namespace Decimal

/-- The character of a digit stands for the digit. -/
theorem digitValue?_digitChar {d : Nat} (h : d < 10) : digitValue? (digitChar d) = some d := by
  have hall : ∀ d < 10, digitValue? (digitChar d) = some d := by decide
  exact hall d h

/-- A number other than zero is written without a leading zero. -/
theorem head?_digits {n d : Nat} (hn : n ≠ 0) (h : (digits n).head? = some d) : d ≠ 0 := by
  induction n using Nat.strongRecOn with
  | ind n ih =>
    rw [digits] at h
    split at h
    · next hlt =>
      obtain rfl := Option.some.inj h
      exact hn
    · next hge =>
      obtain ⟨e, es, he⟩ := List.exists_cons_of_ne_nil (digits_ne_nil (n / 10))
      have hhead : (digits (n / 10)).head? = some d := by
        rw [he] at h ⊢
        exact h
      exact ih (n / 10) (by omega) (by omega) hhead

end Decimal

/-! ## Strings -/

namespace Json.Quoted

/-- A character that needs no escape is scanned as it stands. -/
theorem scan_cons {c : Char} (hquote : c ≠ '"') (hbackslash : c ≠ '\\') (hcontrol : 0x20 ≤ c.toNat)
    (rest : List Char) :
    scan (c :: rest) = (scan rest).map fun (text, after) => (c :: text, after) := by
  rw [scan.eq_def]
  simp only [if_neg hquote, if_neg hbackslash, if_neg (Nat.not_lt.2 hcontrol)]

/-- An escape is scanned as the character it stands for. -/
theorem scan_backslash {e : Char} {rest after : List Char} (h : scanEscape rest = some (e, after)) :
    scan ('\\' :: rest) = (scan after).map fun (text, after) => (e :: text, after) := by
  have hquote : '\\' ≠ '"' := by decide
  rw [scan.eq_def]
  simp only [if_neg hquote, if_true]
  split
  · next hnone =>
    rw [Option.attach_eq_none_iff, h] at hnone
    cases hnone
  · next e' after' he _ =>
    rw [h] at he
    obtain ⟨rfl, rfl⟩ := Prod.mk.inj (Option.some.inj he)
    rfl

/-- A hexadecimal digit has its value. -/
theorem hexValue?_hexDigit {d : Nat} (h : d < 16) : hexValue? (hexDigit d) = some d := by
  have hall : ∀ d < 16, hexValue? (hexDigit d) = some d := by decide
  exact hall d h

/-- The numeric escape of a control character stands for it. -/
theorem scanEscape_control {c : Char} (h : c.toNat < 0x20) (rest : List Char) :
    scanEscape ('u' :: '0' :: '0' :: hexDigit (c.toNat / 16) :: hexDigit (c.toNat % 16) :: rest) =
      some (c, rest) := by
  have hzero : hexValue? '0' = some 0 := by decide
  have hvalue : ((0 * 16 + 0) * 16 + c.toNat / 16) * 16 + c.toNat % 16 = c.toNat := by omega
  have hhex : scanHex ('0' :: '0' :: hexDigit (c.toNat / 16) :: hexDigit (c.toNat % 16) :: rest) =
      some (c.toNat, rest) := by
    rw [scanHex, hzero, hexValue?_hexDigit (by omega), hexValue?_hexDigit (by omega)]
    simp only [bind, Option.bind_some, pure, hvalue]
  have hhigh : ¬ (0xD800 ≤ c.toNat ∧ c.toNat < 0xDC00) := by omega
  have hlow : ¬ (0xDC00 ≤ c.toNat ∧ c.toNat < 0xE000) := by omega
  have hpoint : scanCodePoint
      ('0' :: '0' :: hexDigit (c.toNat / 16) :: hexDigit (c.toNat % 16) :: rest) =
      some (c, rest) := by
    rw [scanCodePoint, hhex]
    simp only [bind, Option.bind_some, if_neg hhigh, if_neg hlow, Char.ofNat_toNat]
  simpa [scanEscape] using hpoint

/-- A written character is scanned again. -/
theorem scan_escape (c : Char) (rest : List Char) :
    scan (escape c ++ rest) = (scan rest).map fun (text, after) => (c :: text, after) := by
  unfold escape
  split
  · next h =>
    subst h
    exact scan_backslash rfl
  split
  · next h =>
    subst h
    exact scan_backslash rfl
  split
  · next h =>
    subst h
    exact scan_backslash rfl
  split
  · next h =>
    subst h
    exact scan_backslash rfl
  split
  · next h =>
    subst h
    exact scan_backslash rfl
  split
  · next h =>
    subst h
    exact scan_backslash rfl
  split
  · next h =>
    subst h
    exact scan_backslash rfl
  split
  · next hcontrol => exact scan_backslash (scanEscape_control hcontrol rest)
  · next hquote hbackslash _ _ _ _ _ hcontrol =>
    exact scan_cons hquote hbackslash (Nat.not_lt.1 hcontrol) rest

/-- A written string is scanned again, and the text after its closing mark is left. -/
theorem scan_body (s rest : List Char) : scan (body s ++ rest) = some (s, rest) := by
  unfold body
  induction s with
  | nil =>
    rw [List.flatMap_nil, List.nil_append, List.singleton_append, scan.eq_def]
    simp
  | cons c s ih =>
    rw [List.flatMap_cons, List.append_assoc, List.append_assoc, scan_escape, ← List.append_assoc,
      ih]
    rfl

end Json.Quoted

/-! ## Numerals -/

namespace Numeral

/-- A text that does not go on with a numeral in front of it. -/
def Ends (rest : List Char) : Prop :=
  ∀ c ∈ rest.head?, Decimal.digitValue? c = none ∧ c ≠ '.' ∧ c ≠ 'e' ∧ c ≠ 'E'

theorem ends_nil : Ends [] := by
  intro c hc
  cases hc

/-- Digits end where they did, in front of a text that does not go on with them. -/
theorem scanDigits_append (s : List Char) {rest : List Char} (hrest : Ends rest) :
    scanDigits (s ++ rest) = ((scanDigits s).1, (scanDigits s).2 ++ rest) := by
  induction s with
  | nil =>
    cases rest with
    | nil => rfl
    | cons c rest =>
      have hdigit : Decimal.digitValue? c = none := (hrest c rfl).1
      simp only [List.nil_append, scanDigits, hdigit]
  | cons c s ih =>
    rw [List.cons_append, scanDigits, scanDigits]
    cases Decimal.digitValue? c with
    | none => rfl
    | some d => simp only [ih]

/-- So do the digits before the point. -/
theorem scanWhole_append {s after rest : List Char} {ds : List Nat} (hrest : Ends rest)
    (h : scanWhole s = some (ds, after)) : scanWhole (s ++ rest) = some (ds, after ++ rest) := by
  rw [scanWhole.eq_def] at h ⊢
  split at h
  · obtain ⟨rfl, rfl⟩ := Prod.mk.inj (Option.some.inj h)
    rfl
  · next hzero =>
    cases s with
    | nil => simp [scanDigits] at h
    | cons c s =>
      have hdigits := scanDigits_append (c :: s) hrest
      split
      · next heq => exact absurd (List.cons.inj heq).1 fun hc => hzero s (hc ▸ rfl)
      · rw [hdigits]
        split at h
        · cases h
        · next ds' after' hne heq =>
          obtain ⟨rfl, rfl⟩ := Prod.mk.inj (Option.some.inj h)
          rw [heq]
          cases ds' with
          | nil => exact absurd rfl hne
          | cons d ds' => rfl

/-- So does the fraction. -/
theorem scanFraction_append {s after rest : List Char} {ds : List Nat} (hrest : Ends rest)
    (h : scanFraction s = some (ds, after)) :
    scanFraction (s ++ rest) = some (ds, after ++ rest) := by
  rw [scanFraction.eq_def] at h
  split at h
  · next s =>
    rw [List.cons_append, scanFraction, scanDigits_append s hrest]
    cases hdigits : scanDigits s with
    | mk ds' after' =>
      rw [hdigits] at h
      cases ds' with
      | nil => cases h
      | cons d ds' =>
        obtain ⟨rfl, rfl⟩ := Prod.mk.inj (Option.some.inj h)
        rfl
  · next hpoint =>
    obtain ⟨rfl, rfl⟩ := Prod.mk.inj (Option.some.inj h)
    rw [scanFraction.eq_def]
    split
    · next heq =>
      cases s with
      | nil => exact absurd rfl (hrest '.' (by rw [← List.nil_append rest, heq]; rfl)).2.1
      | cons c s => exact absurd (List.cons.inj heq).1 fun hc => hpoint s (hc ▸ rfl)
    · rfl

/-- So does the exponent. -/
theorem scanExponent_append {s after rest : List Char} {e : Option (Bool × List Nat)}
    (hrest : Ends rest) (h : scanExponent s = some (e, after)) :
    scanExponent (s ++ rest) = some (e, after ++ rest) := by
  cases s with
  | nil =>
    obtain ⟨rfl, rfl⟩ := Prod.mk.inj (Option.some.inj h)
    cases rest with
    | nil => rfl
    | cons c rest =>
      obtain ⟨-, -, hlower, hupper⟩ := hrest c rfl
      simp [scanExponent, hlower, hupper]
  | cons c s =>
    rw [List.cons_append, scanExponent]
    rw [scanExponent] at h
    split
    · next hmark =>
      rw [if_pos hmark] at h
      have hsign : ∀ d s', scanExponentSign (d :: s' ++ rest) =
          ((scanExponentSign (d :: s')).1, (scanExponentSign (d :: s')).2 ++ rest) := by
        intro d s'
        rw [List.cons_append, scanExponentSign.eq_def, scanExponentSign.eq_def]
        split
        · next heq =>
          obtain ⟨rfl, rfl⟩ := List.cons.inj heq
          rfl
        · next heq =>
          obtain ⟨rfl, rfl⟩ := List.cons.inj heq
          rfl
        · next hminus hplus =>
          have hd : d ≠ '-' := fun hd => hminus (s' ++ rest) (by rw [hd])
          have hd' : d ≠ '+' := fun hd => hplus (s' ++ rest) (by rw [hd])
          simp [hd, hd']
      cases s with
      | nil => simp [scanExponentSign, scanDigits] at h
      | cons d s =>
        simp only [hsign, scanDigits_append _ hrest]
        cases hdigits : scanDigits (scanExponentSign (d :: s)).2 with
        | mk ds' after' =>
          simp only [hdigits] at h
          cases ds' with
          | nil => cases h
          | cons d' ds' =>
            obtain ⟨rfl, rfl⟩ := Prod.mk.inj (Option.some.inj h)
            rfl
    · next hmark =>
      rw [if_neg hmark] at h
      obtain ⟨rfl, rfl⟩ := Prod.mk.inj (Option.some.inj h)
      rfl

/-- So does the whole numeral, if it fills its text. -/
theorem scan_append {s rest : List Char} {n : Numeral} (hrest : Ends rest)
    (h : scan s = some (n, [])) : scan (s ++ rest) = some (n, rest) := by
  simp only [scan, bind, Option.bind_eq_some_iff, pure, Option.some.injEq, Prod.mk.injEq] at h
  obtain ⟨⟨whole, s₁⟩, hwhole, ⟨fraction, s₂⟩, hfraction, ⟨exponent, s₃⟩, hexponent, rfl, rfl⟩ := h
  have hsign : scanSign (s ++ rest) = ((scanSign s).1, (scanSign s).2 ++ rest) := by
    cases s with
    | nil => simp [scanSign, scanWhole, scanDigits] at hwhole
    | cons c s =>
      rw [List.cons_append, scanSign.eq_def, scanSign.eq_def]
      split
      · next heq =>
        obtain ⟨rfl, rfl⟩ := List.cons.inj heq
        rfl
      · next hminus =>
        have hc : c ≠ '-' := fun hc => hminus (s ++ rest) (by rw [hc])
        simp [hc]
  simp only [scan, hsign, bind, pure, scanWhole_append hrest hwhole, Option.bind_some,
    scanFraction_append hrest hfraction, scanExponent_append hrest hexponent, List.nil_append]

/-- A numeral begins with a minus sign or a digit. -/
theorem head_of_scan {c : Char} {s rest : List Char} {n : Numeral}
    (h : scan (c :: s) = some (n, rest)) : c = '-' ∨ ∃ d, Decimal.digitValue? c = some d := by
  by_cases hminus : c = '-'
  · exact Or.inl hminus
  · refine Or.inr (Option.ne_none_iff_exists'.1 fun hdigit => ?_)
    have hsign : scanSign (c :: s) = (false, c :: s) := by
      simp [scanSign, hminus]
    have hzero : c ≠ '0' := by
      intro hc
      rw [hc] at hdigit
      exact absurd hdigit (by decide)
    simp [scan, hsign, scanWhole, hzero, scanDigits, hdigit] at h

/-- Digits are scanned in front of whatever does not begin with another one. -/
theorem scanDigits_digits {ds : List Nat} (hds : ∀ d ∈ ds, d < 10) {rest : List Char}
    (hrest : ∀ c ∈ rest.head?, Decimal.digitValue? c = none) :
    scanDigits (ds.map Decimal.digitChar ++ rest) = (ds, rest) := by
  induction ds with
  | nil =>
    cases rest with
    | nil => rfl
    | cons c rest =>
      have hdigit : Decimal.digitValue? c = none := hrest c rfl
      simp only [List.map_nil, List.nil_append, scanDigits, hdigit]
  | cons d ds ih =>
    obtain ⟨hd, hds⟩ := List.forall_mem_cons.1 hds
    simp only [List.map_cons, List.cons_append, scanDigits, Decimal.digitValue?_digitChar hd,
      ih hds]

/-- The digits of a number are scanned again. -/
theorem scanDigits_spelling (n : Nat) :
    scanDigits (Decimal.spelling n) = (Decimal.digits n, []) := by
  have hdigits : scanDigits (Decimal.spelling n ++ []) = (Decimal.digits n, []) :=
    scanDigits_digits (fun d hd => Decimal.digit_lt_ten hd) (by simp)
  rwa [List.append_nil] at hdigits

/-- Before a point, a zero stands alone, and other digits do not begin with one. -/
theorem scanWhole_digits {ds : List Nat} (hds : ∀ d ∈ ds, d < 10)
    (hhead : ds = [0] ∨ ∃ d more, ds = d :: more ∧ d ≠ 0) {rest : List Char}
    (hrest : ∀ c ∈ rest.head?, Decimal.digitValue? c = none) :
    scanWhole (ds.map Decimal.digitChar ++ rest) = some (ds, rest) := by
  rcases hhead with rfl | ⟨d, more, rfl, hd⟩
  · rfl
  · have hdigits := scanDigits_digits hds hrest
    have hchar : Decimal.digitChar d ≠ '0' := by
      intro hc
      have hvalue := Decimal.digitValue?_digitChar (hds d List.mem_cons_self)
      rw [hc] at hvalue
      exact hd (Option.some.inj hvalue).symm
    rw [scanWhole.eq_def]
    split
    · next heq => exact absurd (List.cons.inj heq).1 hchar
    · rw [hdigits]

/-- The digits of a number are no others. -/
theorem digits_eq_zero_or_head_ne (n : Nat) :
    Decimal.digits n = [0] ∨ ∃ d more, Decimal.digits n = d :: more ∧ d ≠ 0 := by
  by_cases hn : n = 0
  · left
    rw [hn, Decimal.digits]
    rfl
  · right
    obtain ⟨d, more, hcons⟩ := List.exists_cons_of_ne_nil (Decimal.digits_ne_nil n)
    exact ⟨d, more, hcons, Decimal.head?_digits hn (by rw [hcons]; rfl)⟩

/-- So the digits of a number are scanned again before a point. -/
theorem scanWhole_spelling (n : Nat) :
    scanWhole (Decimal.spelling n) = some (Decimal.digits n, []) := by
  have hwhole : scanWhole (Decimal.spelling n ++ []) = some (Decimal.digits n, []) :=
    scanWhole_digits (fun d hd => Decimal.digit_lt_ten hd) (digits_eq_zero_or_head_ne n) (by simp)
  rwa [List.append_nil] at hwhole

/-- The numeral of a natural number is scanned again. -/
theorem scan_spelling (n : Nat) :
    scan (Decimal.spelling n) = some (⟨false, Decimal.digits n, [], none⟩, []) := by
  have hwhole := scanWhole_spelling n
  have hsign : scanSign (Decimal.spelling n) = (false, Decimal.spelling n) := by
    rw [scanSign.eq_def]
    split
    · next heq =>
      rw [heq] at hwhole
      simp [scanWhole, scanDigits, Decimal.digitValue?] at hwhole
    · rfl
  simp only [scan, hsign, hwhole, bind, Option.bind_some, pure, scanFraction, scanExponent]

/-- So is that of a natural number with a minus sign in front of it. -/
theorem scan_minus_spelling (n : Nat) :
    scan ('-' :: Decimal.spelling n) = some (⟨true, Decimal.digits n, [], none⟩, []) := by
  simp only [scan, scanSign, scanWhole_spelling, bind, Option.bind_some, pure, scanFraction,
    scanExponent]

end Numeral

/-! ## Numbers -/

namespace Json

/-- A number is scanned again from its written form. -/
def Legible (n : Number) : Prop :=
  Token.scanNumber (numberSpelling n) = some (.num n, [])

instance (n : Number) : Decidable (Legible n) :=
  inferInstanceAs (Decidable (Token.scanNumber (numberSpelling n) = some (.num n, [])))

/-- An integer of 64 bits, with a sign or without, is scanned again. -/
theorem legible_int {n : Int} (hlow : -0x8000000000000000 ≤ n) (hhigh : n < 0x10000000000000000) :
    Legible (.int n) := by
  have hlimit : Numeral.wordLimit = 0x10000000000000000 := rfl
  simp only [Legible, Token.scanNumber, numberSpelling]
  split
  · next hn =>
    have hvalue : -(n.natAbs : Int) = n := by omega
    have hint : (⟨true, Decimal.digits n.natAbs, [], none⟩ : Numeral).toInt? = some n := by
      have hnone : ¬ (n.natAbs = 0 ∨ Numeral.wordLimit < 2 * n.natAbs) := by omega
      simp only [Numeral.toInt?, Decimal.ofDigits_digits, List.isEmpty_nil, Option.isSome_none,
        Bool.not_true, Bool.or_self, Bool.false_eq_true, if_false, if_true, if_neg hnone, hvalue]
    rw [Numeral.scan_minus_spelling]
    simp [Numeral.value?, hint]
  · next hn =>
    have hfits : n.natAbs < Numeral.wordLimit := by omega
    have hvalue : (n.natAbs : Int) = n := by omega
    rw [Numeral.scan_spelling]
    simp [Numeral.value?, Numeral.toInt?, hfits, hvalue]

/-- A legible number is scanned in front of whatever does not go on with it. -/
theorem Legible.scanNumber_append {n : Number} (h : Legible n) {rest : List Char}
    (hrest : Numeral.Ends rest) :
    Token.scanNumber (numberSpelling n ++ rest) = some (.num n, rest) := by
  simp only [Legible, Token.scanNumber, bind, Option.bind_eq_some_iff, pure, Option.some.injEq,
    Prod.mk.injEq] at h
  obtain ⟨⟨numeral, after⟩, hscan, n', hvalue, hn', hafter⟩ := h
  obtain rfl := Token.num.inj hn'
  dsimp only at hafter
  subst hafter
  simp only [Token.scanNumber, Numeral.scan_append hrest hscan, bind, Option.bind_some, hvalue,
    pure]

/-! ## Tokens -/

namespace Token

/-- A character that begins a token is scanned with it. -/
theorem scanAll_cons {c : Char} {rest after : List Char} {token : Token}
    (hblank : isBlank c = false) (h : scan c rest = some (token, after)) :
    scanAll (c :: rest) = (scanAll after).map (token :: ·) := by
  rw [scanAll.eq_def]
  simp only [hblank, Bool.false_eq_true, if_false]
  split
  · next hnone =>
    rw [Option.attach_eq_none_iff, h] at hnone
    cases hnone
  · next token' after' hsome _ =>
    rw [h] at hsome
    obtain ⟨rfl, rfl⟩ := Prod.mk.inj (Option.some.inj hsome)
    rfl

/-- A character that begins a numeral is no blank and begins no other token. -/
theorem scan_eq_scanNumber {c : Char} (hc : c = '-' ∨ ∃ d, Decimal.digitValue? c = some d)
    (rest : List Char) : isBlank c = false ∧ scan c rest = scanNumber (c :: rest) := by
  have hne : ∀ mark ∈ [' ', '\t', '\n', '\r', '[', ']', '\x7b', '\x7d', ',', ':', '"', 't', 'f',
      'n'], c ≠ mark := by
    intro mark hmark heq
    have hmarks : ([' ', '\t', '\n', '\r', '[', ']', '\x7b', '\x7d', ',', ':', '"', 't', 'f',
        'n'].all fun mark => mark != '-' && Decimal.digitValue? mark == none) = true := by decide
    have hmark' := List.all_eq_true.1 hmarks mark hmark
    rw [Bool.and_eq_true, bne_iff_ne, beq_iff_eq] at hmark'
    obtain ⟨hminus, hdigit⟩ := hmark'
    rcases hc with hc | ⟨d, hd⟩
    · exact hminus (heq ▸ hc)
    · rw [heq, hdigit] at hd
      cases hd
  simp only [List.forall_mem_cons] at hne
  simp [isBlank, scan, hne]

/-- A written token is scanned in front of the others; nothing that goes on with it may follow a
number, and the number has to be legible. -/
theorem scanAll_spelling (token : Token) (rest : List Char)
    (hnumber : ∀ n, token = .num n → Legible n ∧ Numeral.Ends rest) :
    scanAll (token.spelling ++ rest) = (scanAll rest).map (token :: ·) := by
  cases token with
  | openArray | closeArray | openObject | closeObject | comma | colon =>
    exact scanAll_cons rfl rfl
  | str s =>
    have hscan : scan '"' (Quoted.body s.toList ++ rest) =
        (Quoted.scan (Quoted.body s.toList ++ rest)).map fun (text, after) =>
          (.str (String.ofList text), after) := rfl
    simp only [Quoted.scan_body, Option.map_some, String.ofList_toList] at hscan
    exact scanAll_cons rfl hscan
  | num n =>
    obtain ⟨hlegible, hrest⟩ := hnumber n rfl
    have hscan := hlegible.scanNumber_append hrest
    cases hspelling : numberSpelling n with
    | nil =>
      rw [Legible, hspelling] at hlegible
      simp [scanNumber, Numeral.scan, Numeral.scanSign, Numeral.scanWhole, Numeral.scanDigits]
        at hlegible
    | cons c s =>
      rw [hspelling] at hscan
      have hhead : c = '-' ∨ ∃ d, Decimal.digitValue? c = some d := by
        simp only [scanNumber, List.cons_append, bind, Option.bind_eq_some_iff] at hscan
        obtain ⟨⟨numeral, after⟩, hscan, -⟩ := hscan
        exact Numeral.head_of_scan hscan
      obtain ⟨hblank, heq⟩ := scan_eq_scanNumber hhead (s ++ rest)
      rw [spelling, hspelling]
      exact scanAll_cons hblank (heq.trans hscan)
  | bool b =>
    cases b with
    | true =>
      refine scanAll_cons rfl ?_
      simp [scan, scanLiteral]
    | false =>
      refine scanAll_cons rfl ?_
      simp [scan, scanLiteral]
  | null =>
    refine scanAll_cons rfl ?_
    simp [scan, scanLiteral]

end Token

end Json

end Transclude
