import Transclude.Number.Binary64

/-!
# Finite numbers

Main results:

- Theorems {lit}`Binary64.numEq_self`, {lit}`Binary64.isFinite_eq_of_numEq`: a finite number
  equals itself, and nothing that is not finite.
- Theorem {lit}`Binary64.isFinite_ofInt`: the number nearest to an integer of 64 bits, with a
  sign or without, is finite.
- Theorem {lit}`Binary64.isFinite_div_powerOfTen`: a finite number divided by a power of ten is.
-/

namespace Transclude.Binary64

/-! ## Equality -/

/-- A finite number equals itself. -/
theorem numEq_self {x : Binary64} (h : x.isFinite = true) : x.numEq x = true := by
  simp only [isFinite, decide_eq_true_eq] at h
  have hnan : x.isNaN = false := by
    simp only [isNaN, decide_eq_false_iff_not]
    omega
  simp [numEq, hnan]

/-- Numbers that are equal are both finite, or neither of them is. -/
theorem isFinite_eq_of_numEq {x y : Binary64} (h : x.numEq y = true) :
    x.isFinite = y.isFinite := by
  simp only [numEq, Bool.and_eq_true, Bool.or_eq_true, beq_iff_eq] at h
  rcases h with ⟨-, hbits | ⟨hx, hy⟩⟩
  · rw [isFinite, isFinite, magnitude, magnitude, hbits]
  · simp only [isZero, beq_iff_eq] at hx hy
    rw [isFinite, isFinite, hx, hy]

/-! ## Rounding -/

/-- A word below the sign bit is the magnitude of what it makes. -/
theorem magnitude_ofMagnitude (negative : Bool) {m : Nat} (h : m < signWeight) :
    (ofMagnitude negative m).magnitude = m := by
  unfold ofMagnitude magnitude
  unfold signWeight at *
  rw [UInt64.toNat_ofNat']
  cases negative
  · simp only [Bool.false_eq_true, if_false]
    omega
  · simp only [if_true]
    omega

/-- Rounding a quotient adds at most one to what the division leaves. -/
theorem roundQuotient_le (num den : Nat) : roundQuotient num den ≤ num / den + 1 := by
  unfold roundQuotient
  dsimp only
  split
  · omega
  · split
    · omega
    · have := Nat.mod_lt (num / den) Nat.zero_lt_two
      omega

/-- The logarithm of a number that stays below a power of two. -/
theorem log2_lt_of_lt_pow {n k : Nat} (hk : 0 < k) (h : n < Nat.pow 2 k) : n.log2 < k := by
  by_cases hzero : n = 0
  · rw [hzero]
    exact hk
  · exact (Nat.log2_lt hzero).2 h

/-- A ratio that stays below the largest power of two rounds to a finite magnitude. -/
theorem nearestMagnitude_lt {num den : Nat} (h : num * unitsPerOne / den < Nat.pow 2 2096) :
    nearestMagnitude num den < infinityMagnitude := by
  unfold nearestMagnitude
  dsimp only
  generalize num * unitsPerOne = inUnits at *
  obtain ⟨quotient, hquotient⟩ : ∃ quotient, quotient = inUnits / den := ⟨_, rfl⟩
  rw [← hquotient] at h ⊢
  obtain ⟨scale, hscale⟩ : ∃ scale, scale = quotient.log2 - 52 := ⟨_, rfl⟩
  rw [← hscale]
  have hlog : quotient.log2 < 2096 := log2_lt_of_lt_pow (by decide) h
  -- The significand has 53 bits, whatever the scale is.
  have hsignificand : quotient / 2 ^ scale < 2 ^ 53 := by
    rw [Nat.div_lt_iff_lt_mul (Nat.two_pow_pos scale), ← Nat.pow_add]
    exact Nat.lt_of_lt_of_le Nat.lt_log2_self
      (Nat.pow_le_pow_right Nat.zero_lt_two (by omega))
  have hround := roundQuotient_le inUnits (den * Nat.pow 2 scale)
  have hdiv : inUnits / (den * Nat.pow 2 scale) = quotient / 2 ^ scale := by
    rw [hquotient, Nat.div_div_eq_div_mul]
    rfl
  rw [hdiv] at hround
  unfold infinityMagnitude leadingOne
  omega

/-- A ratio that stays below the largest power of two rounds to a finite number. -/
theorem isFinite_nearest (negative : Bool) {num den : Nat}
    (h : num * unitsPerOne / den < Nat.pow 2 2096) :
    (nearest negative num den).isFinite = true := by
  have hlt := nearestMagnitude_lt h
  have hsign : nearestMagnitude num den < signWeight := by
    unfold infinityMagnitude leadingOne at hlt
    unfold signWeight
    omega
  rw [isFinite, nearest, magnitude_ofMagnitude negative hsign]
  exact decide_eq_true hlt

/-- Scaling by a power of two. -/
theorem mul_two_pow_lt {n a b c : Nat} (h : n < Nat.pow 2 a) (hc : a + b ≤ c) :
    n * Nat.pow 2 b < Nat.pow 2 c :=
  calc n * Nat.pow 2 b
      < Nat.pow 2 a * Nat.pow 2 b := Nat.mul_lt_mul_of_pos_right h (Nat.two_pow_pos b)
    _ = Nat.pow 2 (a + b) := (Nat.pow_add 2 a b).symm
    _ ≤ Nat.pow 2 c := Nat.pow_le_pow_right Nat.zero_lt_two hc

/-- An integer of 64 bits, with a sign or without, rounds to a finite number. -/
theorem isFinite_ofInt {n : Int} (hlow : -0x8000000000000000 ≤ n)
    (hhigh : n < 0x10000000000000000) : (ofInt n).isFinite = true := by
  have habs : n.natAbs < Nat.pow 2 64 := by
    have : Nat.pow 2 64 = 0x10000000000000000 := by decide
    omega
  apply isFinite_nearest
  rw [Nat.div_one]
  exact mul_two_pow_lt habs (by decide)

/-! ## Division by powers of ten -/

/-- Rounding a quotient does not fall below what the division leaves. -/
theorem le_roundQuotient (num den : Nat) : num / den ≤ roundQuotient num den := by
  unfold roundQuotient
  dsimp only
  split
  · exact Nat.le_refl _
  · split <;> omega

/-- A ratio that reaches a power of two rounds to at least the magnitude of that power. -/
theorem le_nearestMagnitude {num den k : Nat}
    (h : leadingOne * Nat.pow 2 k ≤ num * unitsPerOne / den)
    (hk : k + 1 ≤ 0x7FF) : (k + 1) * leadingOne ≤ nearestMagnitude num den := by
  unfold nearestMagnitude
  dsimp only
  generalize num * unitsPerOne = inUnits at *
  obtain ⟨quotient, hquotient⟩ : ∃ quotient, quotient = inUnits / den := ⟨_, rfl⟩
  rw [← hquotient] at h ⊢
  obtain ⟨scale, hscale⟩ : ∃ scale, scale = quotient.log2 - 52 := ⟨_, rfl⟩
  rw [← hscale]
  have hone : leadingOne * Nat.pow 2 k = 2 ^ (52 + k) := (Nat.pow_add 2 52 k).symm
  rw [hone] at h
  have hpos : quotient ≠ 0 := Nat.ne_of_gt (Nat.lt_of_lt_of_le (Nat.two_pow_pos _) h)
  have hlog : 52 + k ≤ quotient.log2 := (Nat.le_log2 hpos).2 h
  have hsignificand : 2 ^ 52 ≤ quotient / 2 ^ scale := by
    rw [Nat.le_div_iff_mul_le (Nat.two_pow_pos scale), ← Nat.pow_add]
    exact Nat.le_trans (Nat.pow_le_pow_right Nat.zero_lt_two (by omega))
      (Nat.log2_self_le hpos)
  have hround := le_roundQuotient inUnits (den * Nat.pow 2 scale)
  have hdiv : inUnits / (den * Nat.pow 2 scale) = quotient / 2 ^ scale := by
    rw [hquotient, Nat.div_div_eq_div_mul]
    rfl
  rw [hdiv] at hround
  refine Nat.le_min.2 ⟨?_, Nat.mul_le_mul_right leadingOne hk⟩
  calc (k + 1) * leadingOne
      = k * leadingOne + leadingOne := Nat.succ_mul k leadingOne
    _ ≤ scale * leadingOne + roundQuotient inUnits (den * Nat.pow 2 scale) :=
      Nat.add_le_add (Nat.mul_le_mul_right leadingOne (by omega))
        (Nat.le_trans hsignificand hround)


/-- A number of at least so great a magnitude is at least that power of two. -/
theorem le_units {x : Binary64} {k : Nat} (h : (k + 1) * leadingOne ≤ x.magnitude) :
    leadingOne * Nat.pow 2 k ≤ x.units := by
  have hscale : k ≤ x.scale := by
    have hdiv : k + 1 ≤ x.magnitude / leadingOne := (Nat.le_div_iff_mul_le (by decide)).2 h
    unfold scale
    omega
  have hsignificand : leadingOne ≤ x.significand := by
    have hnormal : ¬ x.magnitude < leadingOne := by
      rw [Nat.add_mul, Nat.one_mul] at h
      omega
    rw [significand, if_neg hnormal]
    exact Nat.le_add_right _ _
  exact Nat.mul_le_mul hsignificand (Nat.pow_le_pow_right Nat.zero_lt_two hscale)

/-- A finite number is less than four times a great power of two. -/
theorem units_lt {x : Binary64} (h : x.isFinite = true) {c : Nat} (hc : 2096 ≤ c) :
    x.units < Nat.pow 2 c * 4 := by
  have hmagnitude : x.magnitude < infinityMagnitude := of_decide_eq_true h
  have hsignificand : x.significand < Nat.pow 2 53 := by
    have hmod := Nat.mod_lt x.magnitude (y := leadingOne) (by decide)
    have htwice : Nat.pow 2 53 = 2 * leadingOne := by decide
    unfold significand
    split <;> omega
  have hscale : x.scale ≤ 2045 := by
    have hdiv : x.magnitude / leadingOne < 0x7FF := by
      rw [Nat.div_lt_iff_lt_mul (by decide)]
      exact hmagnitude
    unfold scale
    omega
  have hlt : x.significand * Nat.pow 2 x.scale < Nat.pow 2 (c + 2) :=
    mul_two_pow_lt hsignificand (by omega)
  have hfour : Nat.pow 2 (c + 2) = Nat.pow 2 c * 4 := Nat.pow_add 2 c 2
  rw [hfour] at hlt
  exact hlt

/-- Powers of two around those that have their place among the normal numbers. -/
theorem leadingOne_mul_two_pow {e k : Nat} (h : e + 2 = k + 52) :
    leadingOne * Nat.pow 2 k = 4 * Nat.pow 2 e :=
  calc leadingOne * Nat.pow 2 k
      = Nat.pow 2 (52 + k) := (Nat.pow_add 2 52 k).symm
    _ = Nat.pow 2 (2 + e) := congrArg (Nat.pow 2) (by omega)
    _ = 4 * Nat.pow 2 e := Nat.pow_add 2 2 e

/-- What is at most four is at most the number nearest to a natural number from four on. -/
theorem le_units_ofNat {c n : Nat} (hc : c ≤ 4) (hn : 4 ≤ n) :
    c * unitsPerOne ≤ (ofNat n).units := by
  -- The powers of two are told by their exponents, since they are too great to be computed.
  obtain ⟨k, hk⟩ : ∃ k, k = 1024 := ⟨_, rfl⟩
  have hlow {e : Nat} (he : e + 2 = k + 52) : c * Nat.pow 2 e ≤ leadingOne * Nat.pow 2 k := by
    rw [leadingOne_mul_two_pow he]
    exact Nat.mul_le_mul_right _ hc
  have hhigh {e : Nat} (he : e + 2 = k + 52) : leadingOne * Nat.pow 2 k ≤ n * Nat.pow 2 e := by
    rw [leadingOne_mul_two_pow he]
    exact Nat.mul_le_mul_right _ hn
  have hratio : leadingOne * Nat.pow 2 k ≤ n * unitsPerOne / 1 := by
    rw [Nat.div_one]
    exact hhigh (by omega)
  have hnearest := le_nearestMagnitude hratio (by omega)
  have hsign : nearestMagnitude n 1 < signWeight :=
    Nat.lt_of_le_of_lt (Nat.min_le_right _ _) (by decide)
  rw [← magnitude_ofMagnitude false hsign] at hnearest
  exact Nat.le_trans (hlow (by omega)) (le_units hnearest)

/-- A quotient in units of which the divisor is some. -/
theorem mul_div_le_div {a c u p : Nat} (hc : 0 < c) (h : c * u ≤ p) : a * u / p ≤ a / c := by
  rcases Nat.eq_zero_or_pos u with rfl | hu
  · simp
  · calc a * u / p
        ≤ a * u / (c * u) := Nat.div_le_div_left h (Nat.mul_pos hc hu)
      _ = a / c := Nat.mul_div_mul_right a c hu

/-- A finite number divided by a power of ten, other than one, is finite. -/
theorem isFinite_div_powerOfTen {x : Binary64} (hx : x.isFinite = true) {k : Nat} (hk : 0 < k) :
    (x.div (powerOfTen k)).isFinite = true := by
  have hten : 4 ≤ Nat.pow 10 k :=
    Nat.le_trans (by decide) (Nat.pow_le_pow_right (by decide : 0 < 10) hk)
  apply isFinite_nearest
  exact Nat.lt_of_le_of_lt (mul_div_le_div (by decide) (le_units_ofNat (Nat.le_refl 4) hten))
    ((Nat.div_lt_iff_lt_mul (by decide)).2 (units_lt hx (Nat.le_refl _)))

/-- The sign of a number does not decide whether it is finite. -/
theorem isFinite_withSign {x : Binary64} (hx : x.isFinite = true) (negative : Bool) :
    (x.withSign negative).isFinite = true := by
  have hmagnitude : x.magnitude < signWeight := Nat.mod_lt _ (by decide)
  rw [isFinite, withSign, magnitude_ofMagnitude negative hmagnitude]
  exact hx
end Transclude.Binary64
