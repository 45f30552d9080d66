import Transclude.Proofs.Json.Valid
import Transclude.Proofs.Number.Shortest

/-!
# Decimals that are read as they are printed

A decimal whose digits fit the significand of a double, and whose power of ten is exact, is rounded
only once when it is read, so it is read as the number that it is nearest to.  The shortest decimals
of numbers that come from short decimals are of this kind.  Others are not: reading rounds the
digits, the power of ten and the quotient.

Main results:

- Theorem {lit}`Numeral.value?_eq`: the number of a numeral with a point.
- Theorem {lit}`Numeral.scaleDown_of_attracts`: decimals that are read as the nearest number.
- Theorem {lit}`Numeral.value?_eq_nearest`: so is every decimal of at most fifteen digits.
- Theorem {lit}`Json.legible_nearest`: the number nearest to a decimal with at most fifteen digits
  is read as it is printed.
-/

namespace Transclude

open DecimalLayout (digitText positional scientific)

/-! ## Numerals of decimals -/

namespace Numeral

/-- A numeral is scanned part by part. -/
theorem scan_of_parts {s s₁ s₂ : List Char} {whole fraction : List Nat}
    {exponent : Option (Bool × List Nat)} (hwhole : scanWhole s = some (whole, s₁))
    (hfraction : scanFraction s₁ = some (fraction, s₂))
    (hexponent : scanExponent s₂ = some (exponent, [])) (negative : Bool) :
    scan (if negative then '-' :: s else s) = some (⟨negative, whole, fraction, exponent⟩, []) := by
  have hsign : scanSign (if negative then '-' :: s else s) = (negative, s) := by
    cases negative with
    | true => rfl
    | false =>
      rw [if_neg (by decide), scanSign.eq_def]
      split
      · next rest =>
        simp [scanWhole, scanDigits, Decimal.digitValue?] at hwhole
      · rfl
  simp only [scan, hsign, hwhole, hfraction, hexponent, bind, Option.bind_some, pure]

/-- Digits after a point. -/
theorem scanFraction_point {ds : List Nat} (hds : ∀ d ∈ ds, d < 10) (hne : ds ≠ [])
    {rest : List Char} (hrest : ∀ c ∈ rest.head?, Decimal.digitValue? c = none) :
    scanFraction ('.' :: (digitText ds ++ rest)) = some (ds, rest) := by
  have hdigits : scanDigits (digitText ds ++ rest) = (ds, rest) := scanDigits_digits hds hrest
  rw [scanFraction, hdigits]
  cases ds with
  | nil => exact absurd rfl hne
  | cons d ds => rfl

/-- Positional text is scanned as its digits before and after the point. -/
theorem scan_point {whole fraction : List Nat} (hwhole : ∀ d ∈ whole, d < 10)
    (hhead : whole = [0] ∨ ∃ d more, whole = d :: more ∧ d ≠ 0)
    (hfraction : ∀ d ∈ fraction, d < 10) (hne : fraction ≠ []) (negative : Bool) :
    scan (if negative then '-' :: (digitText whole ++ '.' :: digitText fraction)
      else digitText whole ++ '.' :: digitText fraction) =
        some (⟨negative, whole, fraction, none⟩, []) := by
  have hpoint : ∀ c ∈ ('.' :: digitText fraction).head?, Decimal.digitValue? c = none := by
    intro c hc
    obtain rfl := Option.some.inj hc
    decide
  have hscan : scanFraction ('.' :: digitText fraction) = some (fraction, []) := by
    have hrest := scanFraction_point hfraction hne (by simp : ∀ c ∈ ([] : List Char).head?, _)
    rwa [List.append_nil] at hrest
  exact scan_of_parts (scanWhole_digits hwhole hhead hpoint) hscan rfl negative

/-- A signed exponent is scanned. -/
theorem scanExponent_spelling (negative : Bool) (n : Nat) :
    scanExponent ('e' :: (if negative then '-' else '+') :: Decimal.spelling n) =
      some (some (negative, Decimal.digits n), []) := by
  have hsign : scanExponentSign ((if negative then '-' else '+') :: Decimal.spelling n) =
      (negative, Decimal.spelling n) := by
    cases negative <;> rfl
  rw [scanExponent, if_pos (Or.inl rfl)]
  simp only [hsign, scanDigits_spelling]
  cases hdigits : Decimal.digits n with
  | nil => exact absurd hdigits (Decimal.digits_ne_nil n)
  | cons d ds => rfl

/-- Scientific text is scanned as its first digit, the others and the exponent. -/
theorem scan_scientific {d : Nat} {more : List Nat} (hd : d ≠ 0) (hds : ∀ e ∈ d :: more, e < 10)
    (lead : ℤ) (negative : Bool) :
    scan (if negative then '-' :: scientific (d :: more) lead else scientific (d :: more) lead) =
      some (⟨negative, [d], more, some (decide (lead < 0), Decimal.digits lead.natAbs)⟩, []) := by
  obtain ⟨hlt, hmore⟩ := List.forall_mem_cons.1 hds
  have hexponent := scanExponent_spelling (decide (lead < 0)) lead.natAbs
  obtain ⟨tail, htail⟩ : ∃ tail, 'e' :: (if lead < 0 then '-' else '+') ::
      Decimal.spelling lead.natAbs = 'e' :: tail := ⟨_, rfl⟩
  have hend : scanExponent ('e' :: tail) =
      some (some (decide (lead < 0), Decimal.digits lead.natAbs), []) := by
    rw [← htail]
    simpa using hexponent
  have hmark : ∀ c ∈ ('e' :: tail).head?, Decimal.digitValue? c = none := by
    intro c hc
    obtain rfl := Option.some.inj hc
    decide
  have hwhole : ∀ e ∈ [d], e < 10 := by simpa using hlt
  have hhead : [d] = [0] ∨ ∃ e more, [d] = e :: more ∧ e ≠ 0 := Or.inr ⟨d, [], rfl, hd⟩
  cases more with
  | nil =>
    have htext : scientific [d] lead = digitText [d] ++ 'e' :: tail := by
      rw [← htail]
      rfl
    have hfraction : scanFraction ('e' :: tail) = some ([], 'e' :: tail) := rfl
    rw [htext]
    exact scan_of_parts (scanWhole_digits hwhole hhead hmark) hfraction hend negative
  | cons e more =>
    have htext : scientific (d :: e :: more) lead =
        digitText [d] ++ '.' :: (digitText (e :: more) ++ 'e' :: tail) := by
      rw [← htail]
      simp [scientific]
    have hpoint : ∀ c ∈ ('.' :: (digitText (e :: more) ++ 'e' :: tail)).head?,
        Decimal.digitValue? c = none := by
      intro c hc
      obtain rfl := Option.some.inj hc
      decide
    rw [htext]
    exact scan_of_parts (scanWhole_digits hwhole hhead hpoint)
      (scanFraction_point hmore (by simp) hmark) hend negative

/-! ## Values of numerals -/

theorem le_foldl_digits (ds : List Nat) (n : Nat) : n ≤ ds.foldl (fun n d => n * 10 + d) n := by
  induction ds generalizing n with
  | nil => exact Nat.le_refl n
  | cons d ds ih => exact Nat.le_trans (by omega) (ih (n * 10 + d))

/-- Digits are kept if the significand fits 64 bits with all of them. -/
theorem keepDigits_eq {significand : Nat} {ds : List Nat}
    (h : ds.foldl (fun n d => n * 10 + d) significand < wordLimit) :
    keepDigits significand ds = (ds.foldl (fun n d => n * 10 + d) significand, ds.length) := by
  induction ds generalizing significand with
  | nil => rfl
  | cons d ds ih =>
    rw [List.foldl_cons] at h
    rw [keepDigits, if_pos (Nat.lt_of_le_of_lt (le_foldl_digits ds _) h), ih h]
    rfl

/-- A number of decimals is a negative exponent. -/
theorem double?_neg (significand : Nat) {k : Nat} (hk : 0 < k) :
    double? significand (-(k : ℤ)) = some (scaleDown (.ofNat significand) k) := by
  obtain ⟨m, rfl⟩ : ∃ m, k = m + 1 := Nat.exists_eq_add_one.2 hk
  rfl

/-- A numeral has so many decimals, with those that its exponent adds. -/
def Places (n : Numeral) (k : Nat) : Prop :=
  (n.exponent = none ∧ k = n.fraction.length) ∨
    ∃ ds, n.exponent = some (true, ds) ∧ Decimal.ofDigits ds < exponentLimit ∧
      k = n.fraction.length + Decimal.ofDigits ds

/-- A numeral with a point or an exponent stands for its digits divided by the power of ten with as
many zeros as it has decimals. -/
theorem value?_eq {n : Numeral} (hfits : Decimal.ofDigits (n.whole ++ n.fraction) < wordLimit)
    (hpoint : n.fraction ≠ [] ∨ n.exponent ≠ none) {k : Nat} (hpos : 0 < k)
    (hplaces : n.Places k) :
    n.value? = some (.double
      ((scaleDown (.ofNat (Decimal.ofDigits (n.whole ++ n.fraction))) k).withSign n.negative)) := by
  obtain ⟨negative, whole, fraction, exponent⟩ := n
  unfold Places at hplaces
  dsimp only at *
  have hint : toInt? ⟨negative, whole, fraction, exponent⟩ = none := by
    have hmarked : (!fraction.isEmpty || exponent.isSome) = true := by
      rcases hpoint with hfraction | hexponent
      · simp [hfraction]
      · simp [Option.isSome_iff_ne_none, hexponent]
    simp [toInt?, hmarked]
  have hall : fraction.foldl (fun n d => n * 10 + d) (Decimal.ofDigits whole) =
      Decimal.ofDigits (whole ++ fraction) := by
    rw [Decimal.ofDigits, Decimal.ofDigits, List.foldl_append]
  have hkept : fraction.foldl (fun n d => n * 10 + d) (Decimal.ofDigits whole) < wordLimit := by
    rwa [hall]
  have hkeepWhole : keepDigits 0 whole = (Decimal.ofDigits whole, whole.length) :=
    keepDigits_eq (Nat.lt_of_le_of_lt (le_foldl_digits fraction (Decimal.ofDigits whole)) hkept)
  have hkeep : keepDigits (Decimal.ofDigits whole) fraction =
      (Decimal.ofDigits (whole ++ fraction), fraction.length) := by
    rw [keepDigits_eq hkept, hall]
  have hdouble : toDouble? ⟨negative, whole, fraction, exponent⟩ =
      (double? (Decimal.ofDigits (whole ++ fraction)) (-(k : ℤ))).map (·.withSign negative) := by
    simp only [toDouble?, hkeepWhole, hkeep, Nat.sub_self]
    rcases hplaces with ⟨rfl, rfl⟩ | ⟨ds, rfl, hlimit, rfl⟩
    · rw [Nat.cast_zero, zero_sub]
    · simp only [if_pos hlimit, if_true]
      rw [Nat.cast_zero, zero_sub, Nat.cast_add, neg_add, sub_eq_add_neg]
  rw [value?, hint]
  dsimp only
  rw [hdouble, double?_neg _ hpos]
  rfl

open Binary64

/-- A decimal in the interval of a number is read as the number, if neither its digits nor its
power of ten is rounded. -/
theorem scaleDown_of_attracts {x : Binary64} (hx : x.isFinite = true) {m j : Nat}
    (hm : m < 2 ^ 53) (hj : j ≤ 64) {k : Nat} (hk : k ≤ 22)
    (h : x.Attracts ((m * 2 ^ j : Nat) * gridUnit (-(k : ℤ)))) :
    (scaleDown (.ofNat (m * 2 ^ j)) k).withSign x.isNegative = x := by
  have hunits := units_ofNat hm hj
  have hten := units_powerOfTen hk
  have hone := unitsPerOne_pos
  have hsign (n : Nat) : (ofNat n).isNegative = false :=
    isNegative_ofMagnitude false (nearestMagnitude_lt_signWeight n 1)
  have hmagnitude : nearestMagnitude (ofNat (m * 2 ^ j)).units (powerOfTen k).units =
      x.magnitude := by
    rw [hunits, hten]
    refine (nearestMagnitude_eq_iff hx rfl (Nat.mul_pos (Nat.pow_pos (by decide)) hone)).2 ?_
    convert h using 1
    rw [gridUnit, zpow_neg, zpow_natCast]
    have hone' : (unitsPerOne : ℚ) ≠ 0 := by exact_mod_cast hone.ne'
    generalize unitsPerOne = one at *
    push_cast
    field_simp
  have hdiv : (ofNat (m * 2 ^ j)).div (powerOfTen k) = ofMagnitude false x.magnitude := by
    rw [div, hsign, powerOfTen, hsign, ← powerOfTen, nearest, hmagnitude]
    rfl
  have hlt : x.magnitude < signWeight := Nat.mod_lt _ (by decide)
  rw [scaleDown, if_pos (by omega), hdiv, withSign, magnitude_ofMagnitude false hlt,
    ofMagnitude_self]

/-- The number nearest to a decimal of at most fifteen digits is finite and attracts it. -/
theorem attracts_nearest (negative : Bool) {n : Nat} (hn : n < 10 ^ 15) (k : Nat) :
    (nearest negative n (10 ^ k)).isFinite = true ∧
      (nearest negative n (10 ^ k)).Attracts (n * gridUnit (-(k : ℤ))) := by
  have hden : 0 < 10 ^ k := Nat.pow_pos (by decide)
  have hfinite : (nearest negative n (10 ^ k)).isFinite = true := by
    apply isFinite_nearest
    refine Nat.lt_of_le_of_lt (Nat.div_le_self _ _) ?_
    have hbits : n < Nat.pow 2 50 := Nat.lt_trans hn (by decide)
    exact mul_two_pow_lt hbits (by decide)
  have hmagnitude : nearestMagnitude n (10 ^ k) = (nearest negative n (10 ^ k)).magnitude := by
    rw [nearest, magnitude_ofMagnitude negative (nearestMagnitude_lt_signWeight n (10 ^ k))]
  refine ⟨hfinite, ?_⟩
  convert (nearestMagnitude_eq_iff hfinite rfl hden).1 hmagnitude using 1
  rw [gridUnit, zpow_neg, zpow_natCast]
  push_cast
  rw [div_eq_mul_inv, mul_assoc]

/-- A numeral of at most fifteen digits, of which at most twenty-one stand after the point, is read
as the number nearest to it. -/
theorem value?_eq_nearest {n : Numeral}
    (hdigits : Decimal.ofDigits (n.whole ++ n.fraction) < 10 ^ 15)
    (hpoint : n.fraction ≠ [] ∨ n.exponent ≠ none) {k : Nat} (hpos : 0 < k) (hk : k ≤ 21)
    (hplaces : n.Places k) :
    n.value? = some (.double
      (nearest n.negative (Decimal.ofDigits (n.whole ++ n.fraction)) (10 ^ k))) := by
  have hlimit : wordLimit = 0x10000000000000000 := rfl
  obtain ⟨hfinite, hattracts⟩ := attracts_nearest n.negative hdigits k
  have hsign := isNegative_ofMagnitude n.negative
    (nearestMagnitude_lt_signWeight (Decimal.ofDigits (n.whole ++ n.fraction)) (10 ^ k))
  have hdown := scaleDown_of_attracts hfinite (Nat.lt_trans hdigits (by decide)) (Nat.zero_le 64)
    (Nat.le_succ_of_le hk) (by rwa [pow_zero, Nat.mul_one])
  rw [pow_zero, Nat.mul_one, nearest, hsign, ← nearest] at hdown
  rw [value?_eq (by omega) hpoint hpos hplaces, hdown]

end Numeral

namespace Json

open Binary64 Numeral

/-! ## Numbers that are read as they are printed -/

variable {x : Binary64} {ds : List Nat} {lead : ℤ} {grid : Nat}

/-- A zero is read as it is printed. -/
theorem legible_of_isZero (hx : x.isZero = true) : Legible (.double x) := by
  have hmagnitude : x.magnitude = 0 := by simpa [isZero] using hx
  have hboth : ∀ negative, Legible (.double (ofMagnitude negative 0)) := by decide +kernel
  have hself := x.ofMagnitude_self
  rw [hmagnitude] at hself
  rw [← hself]
  exact hboth x.isNegative

/-- A printed numeral with a decimal in the interval of its number is read as that number, if
neither its digits nor its power of ten is rounded. -/
theorem legible_of_scan {n : Numeral} (hx : x.isFinite = true)
    (hscan : Numeral.scan (numberSpelling (.double x)) = some (n, []))
    (hnegative : n.negative = x.isNegative) (hpoint : n.fraction ≠ [] ∨ n.exponent ≠ none)
    {k : Nat} (hplaces : n.Places k) (hpos : 0 < k) (hk : k ≤ 22) {m j : Nat}
    (hdigits : Decimal.ofDigits (n.whole ++ n.fraction) = m * 2 ^ j) (hm : m < 2 ^ 53)
    (hj : j ≤ 1) (hattracts : x.Attracts ((m * 2 ^ j : Nat) * gridUnit (-(k : ℤ)))) :
    Legible (.double x) := by
  have hfits : Decimal.ofDigits (n.whole ++ n.fraction) < wordLimit := by
    have hpow : 2 ^ j ≤ 2 := (Nat.pow_le_pow_right (by decide) hj : 2 ^ j ≤ 2 ^ 1)
    have hlimit : wordLimit = 0x10000000000000000 := rfl
    have hmul : m * 2 ^ j ≤ m * 2 := Nat.mul_le_mul_left m hpow
    omega
  have hvalue := value?_eq hfits hpoint hpos hplaces
  rw [hdigits, hnegative, scaleDown_of_attracts hx hm (by omega) hk hattracts] at hvalue
  simp only [Legible, Token.scanNumber, hscan, hvalue, bind, Option.bind_some, pure]

/-- So is a numeral with the digits of the shortest decimal. -/
theorem legible_of_digits {n : Numeral} (hx : x.isFinite = true) (h : x.IsShortest ds lead grid)
    (hdigits : Decimal.ofDigits ds < 2 ^ 53)
    (hscan : Numeral.scan (numberSpelling (.double x)) = some (n, []))
    (hnegative : n.negative = x.isNegative) (hpoint : n.fraction ≠ [] ∨ n.exponent ≠ none)
    {k : Nat} (hplaces : n.Places k) (hpos : 0 < k) (hk : k ≤ 22)
    (hplace : -(k : ℤ) = lead + 1 - ds.length)
    (hvalue : Decimal.ofDigits (n.whole ++ n.fraction) = Decimal.ofDigits ds) :
    Legible (.double x) := by
  have hattracts : x.Attracts ((Decimal.ofDigits ds * 2 ^ 0 : Nat) * gridUnit (-k)) := by
    rw [hplace, pow_zero, Nat.mul_one]
    exact h.attracts
  rw [← Nat.mul_one (Decimal.ofDigits ds)] at hvalue
  exact legible_of_scan hx hscan hnegative hpoint hplaces hpos hk hvalue hdigits (Nat.zero_le 1)
    hattracts

theorem zeros_lt_ten (n : Nat) : ∀ d ∈ List.replicate n 0, d < 10 := by
  intro d hd
  rw [List.eq_of_mem_replicate hd]
  decide

/-- What is printed for a number that is neither small nor great. -/
theorem numberSpelling_positional (hx : x.isFinite = true) (hshortest : x.shortest = (ds, lead))
    (hlow : -5 ≤ lead) (hhigh : lead < 16) :
    numberSpelling (.double x) =
      if x.isNegative then '-' :: positional ds lead else positional ds lead := by
  have hlayout : doubleLayout.positionalFrom ≤ lead ∧ lead < doubleLayout.scientificFrom :=
    ⟨hlow, hhigh⟩
  simp only [numberSpelling, hx, if_true, DecimalLayout.render, hshortest, if_pos hlayout]

/-- What is printed for a small number. -/
theorem numberSpelling_scientific (hx : x.isFinite = true) (hshortest : x.shortest = (ds, lead))
    (hlead : lead < -5) :
    numberSpelling (.double x) =
      if x.isNegative then '-' :: scientific ds lead else scientific ds lead := by
  have hlayout : ¬ (doubleLayout.positionalFrom ≤ lead ∧ lead < doubleLayout.scientificFrom) :=
    fun h => absurd h.1 (not_le.2 hlead)
  simp only [numberSpelling, hx, if_true, DecimalLayout.render, hshortest, if_neg hlayout]

/-- A small number in scientific layout is read as it is printed. -/
theorem legible_of_scientific (hx : x.isFinite = true) (hshortest : x.shortest = (ds, lead))
    (h : x.IsShortest ds lead grid) (hdigits : Decimal.ofDigits ds < 2 ^ 53) (hlead : lead < -5)
    (hplaces : -22 ≤ lead + 1 - ds.length) : Legible (.double x) := by
  obtain ⟨d, more, rfl, hd⟩ := h.head_ne
  rw [List.length_cons] at hplaces
  obtain ⟨k, hk⟩ : ∃ k : Nat, -(k : ℤ) = lead + 1 - (d :: more).length :=
    ⟨(more.length - lead).toNat, by rw [List.length_cons]; omega⟩
  rw [List.length_cons] at hk
  have hscan := scan_scientific hd h.digit_lt lead x.isNegative
  rw [← numberSpelling_scientific hx hshortest hlead] at hscan
  have hexponent : Decimal.ofDigits (Decimal.digits lead.natAbs) = lead.natAbs :=
    Decimal.ofDigits_digits _
  have hlimit : exponentLimit = 0x80000000 := rfl
  have hnumeral : Numeral.Places
      ⟨x.isNegative, [d], more, some (decide (lead < 0), Decimal.digits lead.natAbs)⟩ k := by
    have hnegative : decide (lead < 0) = true := decide_eq_true (by omega)
    refine Or.inr ⟨Decimal.digits lead.natAbs, by rw [hnegative], by omega, ?_⟩
    dsimp only
    omega
  exact legible_of_digits hx h hdigits hscan rfl (Or.inr (by simp)) hnumeral (by omega) (by omega)
    (by rw [hk, List.length_cons]) rfl

/-- A fraction in positional layout is read as it is printed. -/
theorem legible_of_fraction (hx : x.isFinite = true) (hshortest : x.shortest = (ds, lead))
    (h : x.IsShortest ds lead grid) (hdigits : Decimal.ofDigits ds < 2 ^ 53) (hlow : -5 ≤ lead)
    (hhigh : lead < 0) (hplaces : -22 ≤ lead + 1 - ds.length) : Legible (.double x) := by
  obtain ⟨d, more, hcons, hd⟩ := h.head_ne
  have hlength : 0 < ds.length := by
    rw [hcons]
    exact Nat.succ_pos _
  obtain ⟨k, hk⟩ : ∃ k : Nat, -(k : ℤ) = lead + 1 - ds.length :=
    ⟨(ds.length - 1 - lead).toNat, by omega⟩
  obtain ⟨zeros, hzeros⟩ : ∃ zeros, zeros = (-lead - 1).toNat := ⟨_, rfl⟩
  have hfraction : ∀ d ∈ List.replicate zeros 0 ++ ds, d < 10 :=
    List.forall_mem_append.2 ⟨zeros_lt_ten zeros, h.digit_lt⟩
  have hne : List.replicate zeros 0 ++ ds ≠ [] := by
    rw [hcons]
    simp
  have hpositional : positional ds lead =
      digitText [0] ++ '.' :: digitText (List.replicate zeros 0 ++ ds) := by
    rw [positional, if_pos hhigh, hzeros]
  have hscan := scan_point (by simp : ∀ d ∈ [0], d < 10) (Or.inl rfl) hfraction hne x.isNegative
  rw [← hpositional, ← numberSpelling_positional hx hshortest hlow (by omega)] at hscan
  have hnumeral : Numeral.Places
      ⟨x.isNegative, [0], List.replicate zeros 0 ++ ds, none⟩ k := by
    refine Or.inl ⟨rfl, ?_⟩
    dsimp only
    rw [List.length_append, List.length_replicate]
    omega
  have hvalue : Decimal.ofDigits ([0] ++ (List.replicate zeros 0 ++ ds)) = Decimal.ofDigits ds := by
    have hzero : [0] ++ List.replicate zeros 0 = List.replicate (zeros + 1) 0 := rfl
    rw [← List.append_assoc, hzero, Decimal.ofDigits_append, Decimal.ofDigits_replicate_zero,
      Nat.zero_mul, Nat.zero_add]
  exact legible_of_digits hx h hdigits hscan rfl (Or.inl hne) hnumeral (by omega) (by omega) hk
    hvalue

/-- A number with digits before and after the point is read as it is printed. -/
theorem legible_of_mixed (hx : x.isFinite = true) (hshortest : x.shortest = (ds, lead))
    (h : x.IsShortest ds lead grid) (hdigits : Decimal.ofDigits ds < 2 ^ 53) (hlow : 0 ≤ lead)
    (hhigh : lead < 16) (hlong : lead + 1 < ds.length) (hplaces : -22 ≤ lead + 1 - ds.length) :
    Legible (.double x) := by
  obtain ⟨d, more, hcons, hd⟩ := h.head_ne
  obtain ⟨k, hk⟩ : ∃ k : Nat, -(k : ℤ) = lead + 1 - ds.length :=
    ⟨(ds.length - 1 - lead).toNat, by omega⟩
  obtain ⟨width, hwidth⟩ : ∃ width, width = lead.toNat + 1 := ⟨_, rfl⟩
  have hhead : ds.take width = [0] ∨ ∃ d more, ds.take width = d :: more ∧ d ≠ 0 := by
    refine Or.inr ⟨d, more.take lead.toNat, ?_, hd⟩
    rw [hcons, hwidth, List.take_succ_cons]
  have hne : ds.drop width ≠ [] := by
    rw [← List.length_pos_iff, List.length_drop]
    omega
  have hpositional : positional ds lead =
      digitText (ds.take width) ++ '.' :: digitText (ds.drop width) := by
    have hpad : width - ds.length = 0 := by omega
    have hfraction : (ds.drop width).isEmpty = false := by simpa using hne
    simp only [positional, if_neg (not_lt.2 hlow), ← hwidth, hpad, hfraction, List.replicate_zero,
      List.append_nil, Bool.false_eq_true, if_false]
  have hscan := scan_point (fun d hd => h.digit_lt d (List.mem_of_mem_take hd)) hhead
    (fun d hd => h.digit_lt d (List.mem_of_mem_drop hd)) hne x.isNegative
  rw [← hpositional, ← numberSpelling_positional hx hshortest (by omega) hhigh] at hscan
  have hnumeral : Numeral.Places ⟨x.isNegative, ds.take width, ds.drop width, none⟩ k := by
    refine Or.inl ⟨rfl, ?_⟩
    dsimp only
    rw [List.length_drop]
    omega
  exact legible_of_digits hx h hdigits hscan rfl (Or.inl hne) hnumeral (by omega) (by omega) hk
    (congrArg Decimal.ofDigits (List.take_append_drop width ds))

/-- A whole number has as many digits as its leading exponent tells, with its zeros, or it is the
next power of ten. -/
theorem ofDigits_whole_le (h : x.IsShortest ds lead grid) {zeros : Nat}
    (hplace : lead + 1 - ds.length = 0 + (zeros : Nat)) (hlead : x.leadingExponent ≤ 14) :
    Decimal.ofDigits ds * 10 ^ zeros ≤ 10 ^ 15 := by
  have hle : Decimal.ofDigits ds * (gridUnit 0 * 10 ^ zeros) ≤ gridUnit 0 * 10 ^ 15 :=
    calc Decimal.ofDigits ds * (gridUnit 0 * 10 ^ zeros)
        = Decimal.ofDigits ds * gridUnit (lead + 1 - ds.length) := by
          rw [hplace, gridUnit_add]
      _ ≤ gridUnit (x.leadingExponent + 1) := h.le
      _ ≤ gridUnit (0 + (15 : Nat)) := gridUnit_le_iff.2 (by push_cast; omega)
      _ = gridUnit 0 * 10 ^ 15 := gridUnit_add 0 15
  have hcancel : (Decimal.ofDigits ds * 10 ^ zeros : ℚ) ≤ 10 ^ 15 := by
    refine le_of_mul_le_mul_left ?_ (gridUnit_pos 0)
    rw [mul_left_comm]
    exact hle
  exact_mod_cast hcancel

/-- A whole number of at most fifteen digits, or the next power of ten, is read as it is
printed. -/
theorem legible_of_whole (hx : x.isFinite = true) (hshortest : x.shortest = (ds, lead))
    (h : x.IsShortest ds lead grid) (hlow : 0 ≤ lead) (hhigh : lead < 16)
    (hshort : ds.length ≤ lead + 1) (hlead : x.leadingExponent ≤ 14) : Legible (.double x) := by
  obtain ⟨d, more, hcons, hd⟩ := h.head_ne
  obtain ⟨width, hwidth⟩ : ∃ width, width = lead.toNat + 1 := ⟨_, rfl⟩
  obtain ⟨zeros, hzeros⟩ : ∃ zeros, zeros = width - ds.length := ⟨_, rfl⟩
  have hplace : lead + 1 - ds.length = 0 + (zeros : Nat) := by omega
  have hwhole : ∀ d ∈ ds ++ List.replicate zeros 0, d < 10 :=
    List.forall_mem_append.2 ⟨h.digit_lt, zeros_lt_ten zeros⟩
  have hhead : ds ++ List.replicate zeros 0 = [0] ∨
      ∃ d more, ds ++ List.replicate zeros 0 = d :: more ∧ d ≠ 0 := by
    refine Or.inr ⟨d, more ++ List.replicate zeros 0, ?_, hd⟩
    rw [hcons, List.cons_append]
  have hpositional : positional ds lead =
      digitText (ds ++ List.replicate zeros 0) ++ '.' :: digitText [0] := by
    have htake : ds.take width = ds := List.take_of_length_le (by omega)
    have hdrop : ds.drop width = [] := List.drop_of_length_le (by omega)
    simp only [positional, if_neg (not_lt.2 hlow), ← hwidth, htake, hdrop, ← hzeros,
      List.isEmpty_nil, if_true]
  have hscan := scan_point hwhole hhead (by simp : ∀ d ∈ [0], d < 10) (by simp) x.isNegative
  rw [← hpositional, ← numberSpelling_positional hx hshortest (by omega) hhigh] at hscan
  have hnumeral : Numeral.Places
      ⟨x.isNegative, ds ++ List.replicate zeros 0, [0], none⟩ 1 :=
    Or.inl ⟨rfl, rfl⟩
  -- With the zero after the point the digits are ten times the number, which is even.
  have hvalue : Decimal.ofDigits (ds ++ List.replicate zeros 0 ++ [0]) =
      5 * (Decimal.ofDigits ds * 10 ^ zeros) * 2 ^ 1 := by
    rw [Decimal.ofDigits_append_singleton, Decimal.ofDigits_append, List.length_replicate,
      Decimal.ofDigits_replicate_zero]
    ring
  have hdigits := ofDigits_whole_le h hplace hlead
  have hattracts : x.Attracts
      ((5 * (Decimal.ofDigits ds * 10 ^ zeros) * 2 ^ 1 : Nat) * gridUnit (-(1 : Nat))) := by
    have hunit : gridUnit 0 = gridUnit (-(1 : Nat)) * 10 ^ 1 := by
      rw [← gridUnit_add]
      norm_num
    have hattracts := h.attracts
    rw [hplace, gridUnit_add, hunit] at hattracts
    convert hattracts using 1
    push_cast
    ring
  exact legible_of_scan hx hscan rfl (Or.inl (by simp)) hnumeral (by decide) (by decide) hvalue
    (by omega) (by decide) hattracts

/-- A number whose interval has a decimal of few digits and places is read as it is printed. -/
theorem legible_of_isShortest (hx : x.isFinite = true) (hshortest : x.shortest = (ds, lead))
    (h : x.IsShortest ds lead grid) (hgrid : grid ≤ 14) (hlead : x.leadingExponent ≤ 14)
    (hplaces : -22 ≤ x.leadingExponent - grid) : Legible (.double x) := by
  have hle := h.lead_le
  have hcoarse := h.coarse
  have hdigits : Decimal.ofDigits ds < 2 ^ 53 :=
    calc Decimal.ofDigits ds
        ≤ 10 ^ (grid + 1) := h.ofDigits_le
      _ ≤ 10 ^ 15 := Nat.pow_le_pow_right (by decide) (by omega)
      _ < 2 ^ 53 := by decide
  by_cases hscientific : lead < -5
  · exact legible_of_scientific hx hshortest h hdigits hscientific (by omega)
  by_cases hfraction : lead < 0
  · exact legible_of_fraction hx hshortest h hdigits (by omega) hfraction (by omega)
  by_cases hmixed : lead + 1 < ds.length
  · exact legible_of_mixed hx hshortest h hdigits (by omega) (by omega) hmixed (by omega)
  · exact legible_of_whole hx hshortest h (by omega) (by omega) (by omega) hlead

/-- The number nearest to a decimal with at most fifteen digits, of which at most twenty-one stand
after the point, is read as it is printed. -/
theorem legible_nearest (negative : Bool) {n k : Nat} (hn : n < 10 ^ 15) (hk : k ≤ 21) :
    Legible (.double (nearest negative n (10 ^ k))) := by
  obtain ⟨hfinite, hattracts⟩ := attracts_nearest negative hn k
  have hmagnitude : (nearest negative n (10 ^ k)).magnitude = nearestMagnitude n (10 ^ k) :=
    magnitude_ofMagnitude negative (nearestMagnitude_lt_signWeight n (10 ^ k))
  generalize nearest negative n (10 ^ k) = x at *
  cases hzero : x.isZero with
  | true => exact legible_of_isZero hzero
  | false =>
    have hpos : 0 < n := by
      refine Nat.pos_of_ne_zero fun hn => ?_
      have hnone : nearestMagnitude 0 (10 ^ k) = 0 := by
        simp [nearestMagnitude, roundQuotient]
      rw [hn, hnone] at hmagnitude
      simp [isZero, hmagnitude] at hzero
    obtain ⟨hlow, hhigh⟩ := leadingExponent_of_attracts hzero hpos hn hk hattracts
    obtain ⟨ds, lead, grid, hshortest, -, hdecimal⟩ := exists_isShortest hzero
    -- The decimal itself is on one of the grids, which is not before the one that is printed.
    have hgrid : (grid : ℤ) ≤ max 0 (x.leadingExponent + k) := by
      by_contra hgt
      obtain ⟨place, hplace⟩ : ∃ place : Nat, (place : ℤ) = max 0 (x.leadingExponent + k) :=
        ⟨(max 0 (x.leadingExponent + k)).toNat, by omega⟩
      obtain ⟨zeros, hzeros⟩ : ∃ zeros : Nat,
          -(k : ℤ) = x.leadingExponent - place + zeros :=
        ⟨(-(k : ℤ) - x.leadingExponent + place).toNat, by omega⟩
      refine hdecimal.first place (by omega) (n * 10 ^ zeros) ?_
      rw [hzeros, gridUnit_add] at hattracts
      convert hattracts using 1
      push_cast
      ring
    exact legible_of_isShortest hfinite hshortest hdecimal (by omega) (by omega) (by omega)

end Json

end Transclude
