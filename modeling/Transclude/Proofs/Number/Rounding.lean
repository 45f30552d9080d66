import Mathlib
import Transclude.Number.Shortest
import Transclude.Proofs.Number.Binary64

/-!
# What rounds to a number

The magnitudes that round to a finite number fill an interval around it.  The neighbours of a power
of two lie closer below it than above it, and the ends of the interval round to the number exactly
if its significand is even.

Main results:

- Definition {lit}`Binary64.Attracts`: a magnitude lies in the interval of a number.
- Theorem {lit}`Binary64.roundQuotient_eq_iff`: the integer nearest to a quotient.
- Definition {lit}`Binary64.RoundsAt`: a magnitude is rounded at some scale to some integer.
- Theorem {lit}`Binary64.nearestMagnitude_eq_iff`: a ratio rounds to a finite number exactly if it
  lies in the interval of the number.
- Theorem {lit}`Binary64.units_ofNat`: natural numbers of 53 bits are not rounded.
-/

namespace Transclude.Binary64

/-! ## Intervals -/

/-- A rational lies between two others; these count themselves if {lit}`closed` holds. -/
def Between (closed : Prop) (low high q : ℚ) : Prop :=
  (low < q ∨ closed ∧ low = q) ∧ (q < high ∨ closed ∧ q = high)

/-- What lies between two others is not beyond either. -/
theorem Between.le {closed : Prop} {low high q : ℚ} (h : Between closed low high q) :
    low ≤ q ∧ q ≤ high := by
  obtain ⟨hlow, hhigh⟩ := h
  constructor
  · rcases hlow with hlow | ⟨-, hlow⟩
    · exact hlow.le
    · exact hlow.le
  · rcases hhigh with hhigh | ⟨-, hhigh⟩
    · exact hhigh.le
    · exact hhigh.le

/-- Scaling an interval. -/
theorem between_mul_iff {closed : Prop} {low high q c : ℚ} (hc : 0 < c) :
    Between closed (low * c) (high * c) (q * c) ↔ Between closed low high q := by
  simp only [Between, mul_lt_mul_iff_of_pos_right hc, mul_left_inj' hc.ne']

/-- An interval is convex. -/
theorem Between.convex {closed : Prop} {low high a b c : ℚ} (ha : Between closed low high a)
    (hb : Between closed low high b) (hac : a ≤ c) (hcb : c ≤ b) : Between closed low high c := by
  obtain ⟨hlow, -⟩ := ha
  obtain ⟨-, hhigh⟩ := hb
  constructor
  · rcases hac.lt_or_eq with hac | rfl
    · refine Or.inl ?_
      rcases hlow with hlow | ⟨-, hlow⟩ <;> linarith
    · exact hlow
  · rcases hcb.lt_or_eq with hcb | rfl
    · refine Or.inl ?_
      rcases hhigh with hhigh | ⟨-, hhigh⟩ <;> linarith
    · exact hhigh

/-! ## Nearest integers -/

/-- The integer nearest to a quotient is no further away than a half, and even if it is a half
away. -/
theorem between_roundQuotient {num den : Nat} (hden : 0 < den) :
    Between (roundQuotient num den % 2 = 0) (roundQuotient num den - 1 / 2)
      (roundQuotient num den + 1 / 2) (num / den : ℚ) := by
  have hpos : (0 : ℚ) < den := by exact_mod_cast hden
  obtain ⟨f, hf⟩ : ∃ f, f = num / den := ⟨_, rfl⟩
  obtain ⟨r, hr⟩ : ∃ r, r = num % den := ⟨_, rfl⟩
  have hnum : (num / den : ℚ) = f + r / den := by
    have hsum : num = den * f + r := by rw [hf, hr, Nat.div_add_mod]
    rw [hsum]
    push_cast
    field_simp
  have hrest : (0 : ℚ) ≤ r / den := by positivity
  unfold roundQuotient
  dsimp only
  rw [← hf, ← hr, hnum]
  split
  · next hlow =>
    have hhalf : (r / den : ℚ) < 1 / 2 := by
      rw [div_lt_iff₀ hpos]
      have : (2 * r : ℚ) < den := by exact_mod_cast hlow
      linarith
    exact ⟨Or.inl (by linarith), Or.inl (by linarith)⟩
  · split
    · next hhigh =>
      have hhalf : (1 / 2 : ℚ) < r / den := by
        rw [lt_div_iff₀ hpos]
        have : (den : ℚ) < 2 * r := by exact_mod_cast hhigh
        linarith
      have hone : (r / den : ℚ) < 1 := by
        rw [div_lt_one hpos]
        exact_mod_cast hr ▸ Nat.mod_lt num hden
      push_cast
      exact ⟨Or.inl (by linarith), Or.inl (by linarith)⟩
    · next hlow hhigh =>
      have hhalf : (r / den : ℚ) = 1 / 2 := by
        rw [div_eq_iff hpos.ne']
        have : (2 * r : ℚ) = den := by exact_mod_cast (by omega : 2 * r = den)
        linarith
      have heven : (f + f % 2) % 2 = 0 := by omega
      rw [hhalf]
      rcases Nat.mod_two_eq_zero_or_one f with hmod | hmod
      · rw [hmod] at heven ⊢
        push_cast
        exact ⟨Or.inl (by linarith), Or.inr ⟨heven, by ring⟩⟩
      · rw [hmod] at heven ⊢
        push_cast
        exact ⟨Or.inr ⟨heven, by ring⟩, Or.inl (by linarith)⟩

/-- There is only one such integer. -/
theorem between_half_unique {k l : Nat} {q : ℚ} (hk : Between (k % 2 = 0) (k - 1 / 2) (k + 1 / 2) q)
    (hl : Between (l % 2 = 0) (l - 1 / 2) (l + 1 / 2) q) : k = l := by
  -- Two of them would be neighbours with the rational in the middle, and not both of them even.
  have hlt : ∀ {k l : Nat}, Between (k % 2 = 0) (k - 1 / 2) (k + 1 / 2) q →
      Between (l % 2 = 0) (l - 1 / 2) (l + 1 / 2) q → ¬ k < l := by
    intro k l hk hl hkl
    have hnext : ((k + 1 : Nat) : ℚ) ≤ l := by exact_mod_cast hkl
    push_cast at hnext
    have hle := hl.le.1
    rcases hk.2 with hhigh | ⟨hkeven, hhigh⟩
    · linarith
    · rcases hl.1 with hlow | ⟨hleven, hlow⟩
      · linarith
      · have heq : ((k + 1 : Nat) : ℚ) = l := by
          push_cast
          linarith
        have : k + 1 = l := by exact_mod_cast heq
        omega
  exact Nat.le_antisymm (Nat.not_lt.1 (hlt hl hk)) (Nat.not_lt.1 (hlt hk hl))

/-- A quotient is rounded to the integer from which it is at most a half away, ties to even. -/
theorem roundQuotient_eq_iff {num den k : Nat} (hden : 0 < den) :
    roundQuotient num den = k ↔ Between (k % 2 = 0) (k - 1 / 2) (k + 1 / 2) (num / den : ℚ) := by
  constructor
  · rintro rfl
    exact between_roundQuotient hden
  · intro h
    exact between_half_unique (between_roundQuotient hden) h

/-! ## Scales and significands -/

/-- A magnitude is put together of the scale and the significand. -/
theorem magnitude_eq (x : Binary64) : x.magnitude = x.scale * leadingOne + x.significand := by
  unfold scale significand leadingOne
  split <;> omega

/-- A number that is not subnormal has a significand of 53 bits. -/
theorem leadingOne_le_significand {x : Binary64} (h : 0 < x.scale) :
    leadingOne ≤ x.significand := by
  unfold scale leadingOne at h
  unfold significand leadingOne
  split <;> omega

/-- A significand has at most 53 bits. -/
theorem significand_lt (x : Binary64) : x.significand < 2 * leadingOne := by
  unfold significand leadingOne
  split <;> omega

/-- The scale and the significand that a magnitude is put together of. -/
theorem eq_of_magnitude_eq {x : Binary64} {s k : Nat} (h : x.magnitude = s * leadingOne + k)
    (hk : k < 2 * leadingOne) (hs : 0 < s → leadingOne ≤ k) : x.scale = s ∧ x.significand = k := by
  unfold leadingOne at h hk hs
  unfold scale significand leadingOne
  by_cases hpos : 0 < s
  · have hlead := hs hpos
    split
    · omega
    · exact ⟨by omega, by omega⟩
  · split
    · exact ⟨by omega, by omega⟩
    · exact ⟨by omega, by omega⟩

/-! ## Rounding -/

/-- A magnitude, in units, lies in the interval of a number. -/
def Attracts (x : Binary64) (q : ℚ) : Prop :=
  Between (x.significand % 2 = 0) x.intervalLow x.intervalHigh (4 * q)

/-- A magnitude is in the interval exactly if it passes the test for it. -/
theorem roundsHere_iff {x : Binary64} {num den : Nat} (hden : 0 < den) :
    x.roundsHere num den = true ↔ x.Attracts (num / (4 * den)) := by
  have hpos : (0 : ℚ) < den := by exact_mod_cast hden
  have hfour : (4 * (num / (4 * den)) : ℚ) * den = num := by field_simp
  rw [Attracts, ← between_mul_iff hpos, hfour]
  unfold roundsHere Between
  split
  · next heven =>
    simp only [heven, true_and, decide_eq_true_eq, ← le_iff_lt_or_eq]
    norm_cast
  · next hodd =>
    simp only [hodd, false_and, or_false, decide_eq_true_eq]
    norm_cast

/-- How far the interval of a number reaches down, in units of its last place. -/
def reach (x : Binary64) : ℚ :=
  if x.significand = leadingOne ∧ 0 < x.scale then 1 / 4 else 1 / 2

/-- An interval reaches down by at most half a unit. -/
theorem reach_le (x : Binary64) : x.reach ≤ 1 / 2 := by
  unfold reach
  split <;> norm_num

/-- The upper end of the interval. -/
theorem intervalHigh_eq (x : Binary64) :
    (x.intervalHigh : ℚ) = (x.significand + 1 / 2) * (4 * 2 ^ x.scale) := by
  simp only [intervalHigh, quarterUnits, units, Nat.pow_eq]
  push_cast
  ring

/-- The lower end, if it is not below zero. -/
theorem intervalLow_eq {x : Binary64} (hx : 0 < x.significand) :
    (x.intervalLow : ℚ) = (x.significand - x.reach) * (4 * 2 ^ x.scale) := by
  have hle : (if x.significand = leadingOne ∧ 0 < x.scale then 1 else 2) * 2 ^ x.scale ≤
      4 * (x.significand * 2 ^ x.scale) := by
    rw [← mul_assoc]
    apply Nat.mul_le_mul_right
    split <;> omega
  simp only [intervalLow, quarterUnits, units, Nat.pow_eq, Nat.cast_sub hle]
  push_cast
  unfold reach
  split <;> ring

/-- The interval of a number, in units of its last place. -/
theorem attracts_iff {x : Binary64} {q : ℚ} (hq : 0 ≤ q) :
    x.Attracts q ↔ Between (x.significand % 2 = 0) (x.significand - x.reach)
      (x.significand + 1 / 2) (q / 2 ^ x.scale) := by
  have hpos : (0 : ℚ) < 4 * 2 ^ x.scale := by positivity
  have hquarter : (4 * q : ℚ) = q / 2 ^ x.scale * (4 * 2 ^ x.scale) := by field_simp
  rw [← between_mul_iff hpos, ← hquarter, ← x.intervalHigh_eq, Attracts]
  rcases Nat.eq_zero_or_pos x.significand with hzero | hsignificand
  · -- The interval of a zero has no part below it.
    have hlow : x.intervalLow = 0 := by
      simp only [intervalLow, quarterUnits, units, hzero, Nat.zero_mul, Nat.mul_zero,
        Nat.zero_sub]
    have hdown : ((x.significand : ℚ) - x.reach) * (4 * 2 ^ x.scale) < 0 := by
      refine mul_neg_of_neg_of_pos ?_ hpos
      unfold reach
      rw [hzero]
      split <;> norm_num
    have hpositive : 0 ≤ 4 * q := by positivity
    rw [hlow, Nat.cast_zero]
    constructor
    · rintro ⟨-, h⟩
      exact ⟨Or.inl (lt_of_lt_of_le hdown hpositive), h⟩
    · rintro ⟨-, h⟩
      refine ⟨?_, h⟩
      rcases hpositive.lt_or_eq with hlt | heq
      · exact Or.inl hlt
      · exact Or.inr ⟨by rw [hzero], heq⟩
  · rw [intervalLow_eq hsignificand]

/-- The scale of a magnitude is the one at which it has a significand of 53 bits, or zero if it has
a shorter one. -/
theorem log2_sub_eq_iff {n s : Nat} :
    n.log2 - 52 = s ↔
      n < 2 * leadingOne * Nat.pow 2 s ∧ (0 < s → leadingOne * Nat.pow 2 s ≤ n) := by
  have hlead : leadingOne * Nat.pow 2 s = 2 ^ (52 + s) := (Nat.pow_add 2 52 s).symm
  have htwice : 2 * leadingOne * Nat.pow 2 s = 2 ^ (53 + s) := (Nat.pow_add 2 53 s).symm
  rw [hlead, htwice]
  rcases Nat.eq_zero_or_pos n with rfl | hn
  · have hpos : 0 < 2 ^ (52 + s) := Nat.two_pow_pos _
    have hpos' : 0 < 2 ^ (53 + s) := Nat.two_pow_pos _
    have hlog : Nat.log2 0 = 0 := by decide
    rw [hlog]
    constructor
    · intro hs
      exact ⟨hpos', by omega⟩
    · rintro ⟨-, hs⟩
      by_contra hne
      have := hs (by omega)
      omega
  · rw [← Nat.log2_lt hn.ne', ← Nat.le_log2 hn.ne']
    omega

/-- A magnitude, in units, is rounded at some scale to some integer. -/
structure RoundsAt (s k : Nat) (q : ℚ) : Prop where
  lead_le : 0 < s → (leadingOne : ℚ) ≤ q / 2 ^ s
  lt_lead : q / 2 ^ s < 2 * leadingOne
  between : Between (k % 2 = 0) (k - 1 / 2) (k + 1 / 2) (q / 2 ^ s)

variable {num den units s k : Nat} {q : ℚ}

/-- The scale is told by the logarithm, and the integer is the nearest one. -/
theorem roundsAt_iff (hden : 0 < den) :
    RoundsAt s k (units / den) ↔
      (units / den).log2 - 52 = s ∧ roundQuotient units (den * 2 ^ s) = k := by
  have hpos : (0 : ℚ) < den := by exact_mod_cast hden
  have hscale : (0 : ℚ) < 2 ^ s := by positivity
  have hlow : leadingOne * 2 ^ s ≤ units / den ↔ (leadingOne : ℚ) ≤ units / den / 2 ^ s := by
    rw [Nat.le_div_iff_mul_le hden, le_div_iff₀ hscale, le_div_iff₀ hpos]
    norm_cast
  have hhigh : units / den < 2 * leadingOne * 2 ^ s ↔
      (units / den / 2 ^ s : ℚ) < 2 * leadingOne := by
    rw [Nat.div_lt_iff_lt_mul hden, div_lt_iff₀ hscale, div_lt_iff₀ hpos]
    norm_cast
  have hround : roundQuotient units (den * 2 ^ s) = k ↔
      Between (k % 2 = 0) (k - 1 / 2) (k + 1 / 2) (units / den / 2 ^ s : ℚ) := by
    rw [roundQuotient_eq_iff (Nat.mul_pos hden (Nat.two_pow_pos s)), div_div]
    push_cast
    rfl
  rw [log2_sub_eq_iff, Nat.pow_eq, hround, hlow, hhigh]
  exact ⟨fun h => ⟨⟨h.lt_lead, h.lead_le⟩, h.between⟩, fun h => ⟨h.1.2, h.1.1, h.2⟩⟩

/-- The magnitude that a ratio is rounded to. -/
theorem nearestMagnitude_of_roundsAt (hunits : num * unitsPerOne = units) (hden : 0 < den)
    (h : RoundsAt s k (units / den)) :
    nearestMagnitude num den = min (s * leadingOne + k) infinityMagnitude := by
  obtain ⟨hlog, hround⟩ := (roundsAt_iff hden).1 h
  unfold nearestMagnitude
  dsimp only
  rw [hunits, hlog, Nat.pow_eq, hround]

/-- The integer is a significand of 53 bits, or the next one. -/
theorem RoundsAt.bounds (h : RoundsAt s k q) : k ≤ 2 * leadingOne ∧ (0 < s → leadingOne ≤ k) := by
  have hround := h.between.le
  constructor
  · have hlt : ((k : Nat) : ℚ) < (2 * leadingOne + 1 : Nat) := by
      push_cast
      linarith [h.lt_lead]
    exact Nat.lt_succ_iff.1 (by exact_mod_cast hlt)
  · intro hs
    have hlt : ((leadingOne : Nat) : ℚ) < (k + 1 : Nat) := by
      push_cast
      linarith [h.lead_le hs]
    exact Nat.lt_succ_iff.1 (by exact_mod_cast hlt)

/-- What is rounded to the parts of a number lies in its interval. -/
theorem RoundsAt.attracts {x : Binary64} (h : RoundsAt s k q) (hq : 0 ≤ q)
    (hx : x.magnitude = s * leadingOne + k) : x.Attracts q := by
  obtain ⟨hk, hlead⟩ := h.bounds
  rw [attracts_iff hq]
  rcases hk.lt_or_eq with hlt | rfl
  · obtain ⟨hscale, hsignificand⟩ := eq_of_magnitude_eq hx hlt hlead
    rw [hscale, hsignificand]
    refine ⟨?_, h.between.2⟩
    unfold reach
    rw [hscale, hsignificand]
    split
    · next hpower =>
      have hlow := h.lead_le hpower.2
      rw [← hpower.1] at hlow
      exact Or.inl (by linarith)
    · exact h.between.1
  · -- The significand has been rounded up to the next power of two.
    have hnext : x.magnitude = (s + 1) * leadingOne + leadingOne := by
      rw [hx]
      ring
    obtain ⟨hscale, hsignificand⟩ := eq_of_magnitude_eq hnext (by decide) fun _ => Nat.le_refl _
    have hhalf : q / 2 ^ (s + 1) = q / 2 ^ s / 2 := by
      rw [pow_succ]
      field_simp
    have hreach : x.reach = 1 / 4 := if_pos ⟨hsignificand, by omega⟩
    have hdown := h.between.1
    have hup := h.lt_lead
    push_cast at hdown
    rw [hscale, hsignificand, hreach, hhalf]
    refine ⟨?_, Or.inl (by linarith)⟩
    rcases hdown with hdown | ⟨-, hdown⟩
    · exact Or.inl (by linarith)
    · exact Or.inr ⟨by decide, by linarith⟩

/-- Below a power of two the numbers are twice as close, so what is there rounds at the next smaller
scale. -/
theorem Attracts.roundsAt_below {x : Binary64} (h : x.Attracts q) (hq : 0 ≤ q)
    (hscale : x.scale = s + 1) (hbelow : q / 2 ^ x.scale < leadingOne) :
    RoundsAt s (2 * leadingOne) q ∧ x.significand = leadingOne := by
  rw [attracts_iff hq] at h
  have hlow := h.le.1
  have hreach := x.reach_le
  have hsignificand : x.significand = leadingOne := by
    have hlead : leadingOne ≤ x.significand := leadingOne_le_significand (by omega)
    refine Nat.le_antisymm (Nat.not_lt.1 fun hgt => ?_) hlead
    have hnext : ((leadingOne + 1 : Nat) : ℚ) ≤ x.significand := by exact_mod_cast hgt
    push_cast at hnext
    linarith
  have hquarter : x.reach = 1 / 4 := if_pos ⟨hsignificand, by omega⟩
  have hdouble : q / 2 ^ s = 2 * (q / 2 ^ x.scale) := by
    rw [hscale, pow_succ]
    field_simp
  have hone : (1 : ℚ) ≤ leadingOne := by
    unfold leadingOne
    norm_num
  rw [hquarter, hsignificand] at hlow
  refine ⟨⟨fun _ => by linarith, by linarith, ?_⟩, hsignificand⟩
  push_cast
  rw [hdouble]
  refine ⟨?_, Or.inl (by linarith)⟩
  rcases hlow.lt_or_eq with hlow | hlow
  · exact Or.inl (by linarith)
  · exact Or.inr ⟨by decide, by linarith⟩

/-- What lies in the interval of a number is rounded to its parts. -/
theorem Attracts.roundsAt {x : Binary64} (h : x.Attracts q) (hq : 0 ≤ q) :
    ∃ s k, RoundsAt s k q ∧ x.magnitude = s * leadingOne + k := by
  by_cases hnormal : 0 < x.scale → (leadingOne : ℚ) ≤ q / 2 ^ x.scale
  · rw [attracts_iff hq] at h
    have hround : Between (x.significand % 2 = 0) (x.significand - 1 / 2) (x.significand + 1 / 2)
        (q / 2 ^ x.scale) := by
      refine ⟨?_, h.2⟩
      by_cases hreach : x.significand = leadingOne ∧ 0 < x.scale
      · have hlead := hnormal hreach.2
        refine Or.inl ?_
        rw [hreach.1]
        linarith
      · have hhalf : x.reach = 1 / 2 := if_neg hreach
        rw [← hhalf]
        exact h.1
    have hlt : ((x.significand + 1 : Nat) : ℚ) ≤ (2 * leadingOne : Nat) := by
      exact_mod_cast x.significand_lt
    push_cast at hlt
    have hhigh := hround.le.2
    exact ⟨x.scale, x.significand, ⟨hnormal, by linarith, hround⟩, x.magnitude_eq⟩
  · obtain ⟨hpos, hbelow⟩ := Classical.not_imp.1 hnormal
    obtain ⟨s, hs⟩ : ∃ s, x.scale = s + 1 := Nat.exists_eq_add_one.2 hpos
    obtain ⟨hround, hsignificand⟩ := h.roundsAt_below hq hs (not_le.1 hbelow)
    refine ⟨s, 2 * leadingOne, hround, ?_⟩
    rw [x.magnitude_eq, hsignificand, hs]
    ring

/-- The ratios that round to a finite number are those in the interval of it. -/
theorem nearestMagnitude_eq_iff {x : Binary64} (hx : x.isFinite = true)
    (hunits : num * unitsPerOne = units) (hden : 0 < den) :
    nearestMagnitude num den = x.magnitude ↔ x.Attracts (units / den) := by
  have hfinite : x.magnitude < infinityMagnitude := of_decide_eq_true hx
  have hq : (0 : ℚ) ≤ units / den := div_nonneg (Nat.cast_nonneg _) (Nat.cast_nonneg _)
  constructor
  · intro h
    obtain ⟨s, k, hround⟩ : ∃ s k, RoundsAt s k (units / den) :=
      ⟨_, _, (roundsAt_iff hden).2 ⟨rfl, rfl⟩⟩
    rw [nearestMagnitude_of_roundsAt hunits hden hround] at h
    exact hround.attracts hq (by omega)
  · intro h
    obtain ⟨s, k, hround, hmagnitude⟩ := h.roundsAt hq
    rw [nearestMagnitude_of_roundsAt hunits hden hround, ← hmagnitude,
      Nat.min_eq_left hfinite.le]

/-! ## Exact numbers -/

theorem unitsPerOne_pos : 0 < unitsPerOne := by
  decide +kernel

/-- The sign of a word that is put together of a sign and a magnitude. -/
theorem isNegative_ofMagnitude (negative : Bool) {m : Nat} (h : m < signWeight) :
    (ofMagnitude negative m).isNegative = negative := by
  unfold ofMagnitude isNegative
  unfold signWeight at *
  rw [UInt64.toNat_ofNat']
  cases negative with
  | true => simp; omega
  | false => simp; omega

/-- A word is put together of its sign and its magnitude. -/
theorem ofMagnitude_self (x : Binary64) : ofMagnitude x.isNegative x.magnitude = x := by
  obtain ⟨bits⟩ := x
  have hlt := bits.toNat_lt
  have hsum : (bits.toNat % signWeight + if decide (signWeight ≤ bits.toNat) = true then signWeight
      else 0) = bits.toNat := by
    unfold signWeight
    split
    · next h =>
      rw [decide_eq_true_eq] at h
      omega
    · next h =>
      rw [decide_eq_true_eq] at h
      omega
  unfold ofMagnitude isNegative magnitude
  dsimp only
  rw [hsum, UInt64.ofNat_toNat]

/-- A magnitude leaves the sign bit alone. -/
theorem nearestMagnitude_lt_signWeight (num den : Nat) : nearestMagnitude num den < signWeight :=
  Nat.lt_of_le_of_lt (Nat.min_le_right _ _) (by decide)

/-- A ratio that is a significand of 53 bits at some scale is not rounded. -/
theorem units_nearest_of_eq (negative : Bool) {num den k s : Nat} (hden : 0 < den)
    (h : num * unitsPerOne = k * 2 ^ s * den) (hk : k < 2 * leadingOne)
    (hlead : leadingOne ≤ k) (hs : s ≤ 2045) : (nearest negative num den).units = k * 2 ^ s := by
  have hden' : (den : ℚ) ≠ 0 := by
    exact_mod_cast hden.ne'
  have hquotient : ((k * 2 ^ s * den : Nat) / den / 2 ^ s : ℚ) = k := by
    push_cast
    field_simp
  have hround : RoundsAt s k ((k * 2 ^ s * den : Nat) / den) := by
    constructor
    · intro _
      rw [hquotient]
      exact_mod_cast hlead
    · rw [hquotient]
      exact_mod_cast hk
    · rw [hquotient]
      exact ⟨Or.inl (by linarith), Or.inl (by linarith)⟩
  have hmagnitude : nearestMagnitude num den = s * leadingOne + k := by
    rw [nearestMagnitude_of_roundsAt h hden hround]
    apply Nat.min_eq_left
    unfold leadingOne at *
    unfold infinityMagnitude leadingOne
    omega
  have hword : (nearest negative num den).magnitude = s * leadingOne + k := by
    rw [nearest, magnitude_ofMagnitude negative (nearestMagnitude_lt_signWeight num den),
      hmagnitude]
  obtain ⟨hscale, hsignificand⟩ := eq_of_magnitude_eq hword hk fun _ => hlead
  rw [units, hscale, hsignificand, Nat.pow_eq]

/-- A natural number of 53 bits, times a power of two, is not rounded. -/
theorem units_ofNat {m : Nat} (hm : m < 2 ^ 53) {j : Nat} (hj : j ≤ 64) :
    (ofNat (m * 2 ^ j)).units = m * 2 ^ j * unitsPerOne := by
  rcases Nat.eq_zero_or_pos m with rfl | hpos
  · have hzero : (ofNat 0).units = 0 := by decide +kernel
    simp [hzero]
  · -- The powers of two are told by their exponents, since they are too great to be computed.
    obtain ⟨e, he, hone⟩ : ∃ e, e = 1074 ∧ unitsPerOne = 2 ^ e := ⟨1074, rfl, Nat.pow_eq⟩
    have hlog : m.log2 < 53 := (Nat.log2_lt hpos.ne').2 hm
    have hsplit : m * 2 ^ j * unitsPerOne =
        m * 2 ^ (52 - m.log2) * 2 ^ (j + e - (52 - m.log2)) * 1 := by
      have hexponent : j + e = 52 - m.log2 + (j + e - (52 - m.log2)) := by omega
      rw [hone, Nat.mul_one, Nat.mul_assoc, Nat.mul_assoc, ← Nat.pow_add, ← Nat.pow_add,
        ← hexponent]
    have hlow : leadingOne ≤ m * 2 ^ (52 - m.log2) :=
      calc leadingOne
          = 2 ^ m.log2 * 2 ^ (52 - m.log2) := by
            rw [← Nat.pow_add, Nat.add_sub_cancel' (by omega)]
            rfl
        _ ≤ m * 2 ^ (52 - m.log2) := Nat.mul_le_mul_right _ (Nat.log2_self_le hpos.ne')
    have hhigh : m * 2 ^ (52 - m.log2) < 2 * leadingOne :=
      calc m * 2 ^ (52 - m.log2)
          < 2 ^ (m.log2 + 1) * 2 ^ (52 - m.log2) :=
            Nat.mul_lt_mul_of_pos_right Nat.lt_log2_self (Nat.two_pow_pos _)
        _ = 2 * leadingOne := by
            rw [← Nat.pow_add]
            have hexponent : m.log2 + 1 + (52 - m.log2) = 53 := by omega
            rw [hexponent]
            rfl
    rw [ofNat, units_nearest_of_eq false Nat.one_pos hsplit hhigh hlow (by omega), hsplit,
      Nat.mul_one]

/-- Powers of ten up to this one are not rounded. -/
theorem units_powerOfTen {k : Nat} (hk : k ≤ 22) :
    (powerOfTen k).units = 10 ^ k * unitsPerOne := by
  have hfive : 5 ^ k < 2 ^ 53 :=
    Nat.lt_of_le_of_lt (Nat.pow_le_pow_right (by decide) hk) (by decide)
  have hten : 10 ^ k = 5 ^ k * 2 ^ k := by rw [← Nat.mul_pow]
  rw [powerOfTen, Nat.pow_eq, hten]
  exact units_ofNat hfive (by omega)

end Transclude.Binary64
