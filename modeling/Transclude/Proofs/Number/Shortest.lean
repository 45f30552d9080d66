import Transclude.Proofs.Json.Spelling
import Transclude.Proofs.Number.Rounding

/-!
# Shortest decimals round to their numbers

The decimal that is printed for a finite number lies in the interval of the number, so it rounds to
it.  No decimal of that interval is on a coarser grid.

Main results:

- Theorem {lit}`Binary64.leadingExponent_bounds`: the leading exponent is that of the number.
- Theorem {lit}`Binary64.attracts_of_gridPoint?`, {lit}`Binary64.not_attracts_of_gridPoint?`: a grid
  has a point for a number exactly if it has one in the interval of the number.
- Theorem {lit}`Binary64.exists_attracts_seventeen`: seventeen digits suffice.
- Theorem {lit}`Binary64.exists_isShortest`: the digits of a number are those of a decimal that
  rounds to it, on the first grid that has one.
- Theorem {lit}`Binary64.leadingExponent_of_attracts`: the leading exponent of a number next to a
  short decimal.
-/

namespace Transclude

namespace Decimal

/-! ## How many digits -/

/-- A number has fewer than a power of ten that has more digits. -/
theorem lt_pow_length_digits (n : Nat) : n < 10 ^ (digits n).length := by
  induction n using Nat.strongRecOn with
  | ind n ih =>
    rw [digits]
    split
    · next hlt => simpa using hlt
    · next hge =>
      have hrest := ih (n / 10) (by omega)
      rw [List.length_append, List.length_singleton, pow_succ]
      omega

/-- A number other than zero reaches the power of ten with as many digits. -/
theorem pow_length_digits_le {n : Nat} (hn : n ≠ 0) : 10 ^ ((digits n).length - 1) ≤ n := by
  induction n using Nat.strongRecOn with
  | ind n ih =>
    rw [digits]
    split
    · simpa using Nat.one_le_iff_ne_zero.2 hn
    · next hge =>
      have hrest := ih (n / 10) (by omega) (by omega)
      have hlength : 0 < (digits (n / 10)).length := List.length_pos_iff.2 (digits_ne_nil _)
      rw [List.length_append, List.length_singleton, Nat.add_sub_cancel]
      calc 10 ^ (digits (n / 10)).length
          = 10 ^ ((digits (n / 10)).length - 1) * 10 := by
            rw [← pow_succ, Nat.sub_add_cancel hlength]
        _ ≤ n / 10 * 10 := Nat.mul_le_mul_right 10 hrest
        _ ≤ n := Nat.div_mul_le_self n 10

/-- How many digits a number other than zero has. -/
theorem exists_length_digits {n : Nat} (hn : n ≠ 0) :
    ∃ m, (digits n).length = m + 1 ∧ 10 ^ m ≤ n ∧ n < 10 ^ (m + 1) := by
  obtain ⟨m, hm⟩ : ∃ m, (digits n).length = m + 1 :=
    Nat.exists_eq_add_one.2 (List.length_pos_iff.2 (digits_ne_nil n))
  have hlow := pow_length_digits_le hn
  have hhigh := lt_pow_length_digits n
  rw [hm] at hlow hhigh
  exact ⟨m, hm, hlow, hhigh⟩

/-! ## Digits in a row -/

/-- What digits stand for if others follow them. -/
theorem ofDigits_append (ds es : List Nat) :
    ofDigits (ds ++ es) = ofDigits ds * 10 ^ es.length + ofDigits es := by
  induction es using List.reverseRecOn with
  | nil => simp [ofDigits]
  | append_singleton es e ih =>
    rw [← List.append_assoc, ofDigits_append_singleton, ofDigits_append_singleton, ih,
      List.length_append, List.length_singleton, pow_succ]
    ring

/-- Zeros stand for zero. -/
theorem ofDigits_replicate_zero (n : Nat) : ofDigits (List.replicate n 0) = 0 := by
  induction n with
  | zero => rfl
  | succ n ih => rw [List.replicate_succ', ofDigits_append_singleton, ih]

/-- The digits of a number, without the zeros at their end, stand for it without the powers of ten
in it. -/
theorem exists_eq_mul_pow {n : Nat} (hn : n ≠ 0) :
    let ds := (digits n).rdropWhile (· == 0)
    ∃ zeros, n = ofDigits ds * 10 ^ zeros ∧ (digits n).length = ds.length + zeros ∧
      (∀ d ∈ ds, d < 10) ∧ ∃ d more, ds = d :: more ∧ d ≠ 0 := by
  intro ds
  obtain ⟨zeros, hzeros⟩ : ∃ zeros, digits n = ds ++ List.replicate zeros 0 := by
    refine ⟨((digits n).rtakeWhile (· == 0)).length, ?_⟩
    have hreplicate : (digits n).rtakeWhile (· == 0) =
        List.replicate ((digits n).rtakeWhile (· == 0)).length 0 :=
      List.eq_replicate_of_mem fun d hd => by simpa using List.mem_rtakeWhile_imp hd
    rw [← hreplicate, List.rdropWhile_append_rtakeWhile]
  generalize ds = ds at hzeros
  have hvalue : n = ofDigits ds * 10 ^ zeros := by
    rw [← ofDigits_digits n, hzeros, ofDigits_append, List.length_replicate,
      ofDigits_replicate_zero, Nat.add_zero]
  refine ⟨zeros, hvalue, ?_, ?_, ?_⟩
  · rw [hzeros, List.length_append, List.length_replicate]
  · intro d hd
    apply digit_lt_ten (n := n)
    rw [hzeros]
    exact List.mem_append_left _ hd
  · cases ds with
    | nil =>
      rw [hvalue] at hn
      simp [ofDigits] at hn
    | cons d more =>
      exact ⟨d, more, rfl, head?_digits hn (by rw [hzeros]; rfl)⟩

end Decimal

namespace Binary64

variable {x : Binary64}

/-! ## The magnitude of a number -/

/-- A number other than zero is some units. -/
theorem units_pos (hx : x.isZero = false) : 0 < x.units := by
  have hmagnitude : x.magnitude ≠ 0 := by simpa [isZero] using hx
  refine Nat.mul_pos ?_ (Nat.two_pow_pos _)
  unfold significand leadingOne
  split <;> omega

/-- A number is its significand times a power of two, in units. -/
theorem units_eq (x : Binary64) : (x.units : ℚ) = x.significand * 2 ^ x.scale := by
  rw [units, Nat.pow_eq]
  push_cast
  rfl

/-- A power of ten, in units. -/
def gridUnit (k : ℤ) : ℚ :=
  unitsPerOne * 10 ^ k

theorem gridUnit_pos (k : ℤ) : 0 < gridUnit k := by
  have hpos : (0 : ℚ) < unitsPerOne := by exact_mod_cast unitsPerOne_pos
  exact mul_pos hpos (zpow_pos (by norm_num) k)

/-- Powers of ten, one grid next to another. -/
theorem gridUnit_add (k : ℤ) (n : Nat) : gridUnit (k + n) = gridUnit k * 10 ^ n := by
  rw [gridUnit, gridUnit, zpow_add₀ (by norm_num), zpow_natCast, mul_assoc]

/-- A power of ten from a finer grid. -/
theorem gridUnit_sub_mul (k : ℤ) (n : Nat) : gridUnit (k - n) * 10 ^ n = gridUnit k := by
  rw [← gridUnit_add, sub_add_cancel]

/-- Powers of ten grow with their exponents. -/
theorem gridUnit_lt_iff {j k : ℤ} : gridUnit j < gridUnit k ↔ j < k := by
  have hpos : (0 : ℚ) < unitsPerOne := by exact_mod_cast unitsPerOne_pos
  rw [gridUnit, gridUnit, mul_lt_mul_iff_of_pos_left hpos]
  exact zpow_lt_zpow_iff_right₀ (by norm_num)

theorem gridUnit_le_iff {j k : ℤ} : gridUnit j ≤ gridUnit k ↔ j ≤ k := by
  rw [← not_lt, gridUnit_lt_iff, not_lt]

/-- The leading exponent of a number: the greatest power of ten that the number reaches. -/
theorem leadingExponent_bounds (hx : x.isZero = false) :
    gridUnit x.leadingExponent ≤ x.units ∧ (x.units : ℚ) < gridUnit (x.leadingExponent + 1) := by
  have hunits := units_pos hx
  have hone := unitsPerOne_pos
  unfold leadingExponent gridUnit
  generalize unitsPerOne = one at *
  generalize x.units = units at *
  split
  · next hle =>
    have hquotient : units / one ≠ 0 := (Nat.div_pos hle hone).ne'
    obtain ⟨m, hlength, hlow, hhigh⟩ := Decimal.exists_length_digits hquotient
    rw [Nat.le_div_iff_mul_le hone] at hlow
    rw [Nat.div_lt_iff_lt_mul hone] at hhigh
    have hexponent : (((m + 1 : Nat) : ℤ) - 1) = m := by push_cast; ring
    have hexponent' : (m : ℤ) + 1 = ((m + 1 : Nat) : ℤ) := by push_cast; ring
    rw [hlength, hexponent, hexponent', zpow_natCast, zpow_natCast]
    constructor
    · rw [mul_comm]
      exact_mod_cast hlow
    · rw [mul_comm]
      exact_mod_cast hhigh
  · next hlt =>
    rw [not_le] at hlt
    have hquotient : (one - 1) / units ≠ 0 := (Nat.div_pos (by omega) hunits).ne'
    obtain ⟨m, hlength, hlow, hhigh⟩ := Decimal.exists_length_digits hquotient
    rw [Nat.le_div_iff_mul_le hunits] at hlow
    rw [Nat.div_lt_iff_lt_mul hunits] at hhigh
    have hlow' : 10 ^ m * units < one := by omega
    have hhigh' : one ≤ 10 ^ (m + 1) * units := by omega
    have hexponent : -((m + 1 : Nat) : ℤ) + 1 = -(m : ℤ) := by push_cast; ring
    rw [hlength, hexponent, zpow_neg, zpow_neg, zpow_natCast, zpow_natCast, ← div_eq_mul_inv,
      ← div_eq_mul_inv]
    constructor
    · rw [div_le_iff₀ (by positivity), mul_comm]
      exact_mod_cast hhigh'
    · rw [lt_div_iff₀ (by positivity), mul_comm]
      exact_mod_cast hlow'

/-- A number lies in its own interval. -/
theorem attracts_units (x : Binary64) : x.Attracts x.units := by
  have hscale : (0 : ℚ) < 2 ^ x.scale := by positivity
  have hunits : (x.units : ℚ) / 2 ^ x.scale = x.significand := by
    rw [x.units_eq, mul_div_cancel_right₀ _ hscale.ne']
  have hreach : 0 < x.reach := by
    unfold reach
    split <;> norm_num
  rw [attracts_iff (Nat.cast_nonneg _), hunits]
  exact ⟨Or.inl (by linarith), Or.inl (by linarith)⟩

/-- What lies between two points of the interval is in it. -/
theorem Attracts.convex {a b c : ℚ} (ha : x.Attracts a) (hb : x.Attracts b) (hac : a ≤ c)
    (hcb : c ≤ b) : x.Attracts c :=
  Between.convex ha hb (by linarith) (by linarith)

/-! ## Points of a grid -/

/-- The greatest point of a grid that does not exceed a number. -/
def gridBelow (x : Binary64) (k : ℤ) : Nat :=
  x.quarterUnits * Nat.pow 10 (-k).toNat / (4 * unitsPerOne * Nat.pow 10 k.toNat)

/-- Powers of ten with an exponent of either sign. -/
theorem ten_zpow_eq (k : ℤ) : (10 : ℚ) ^ k = 10 ^ k.toNat / 10 ^ (-k).toNat := by
  rcases Int.le_total 0 k with hk | hk
  · have hneg : (-k).toNat = 0 := by omega
    rw [hneg, pow_zero, div_one, ← zpow_natCast, Int.toNat_of_nonneg hk]
  · have hpos : k.toNat = 0 := by omega
    rw [hpos, pow_zero, one_div, ← zpow_natCast, ← zpow_neg, Int.toNat_of_nonneg (by omega),
      neg_neg]

/-- A point of a grid is tested for being in the interval. -/
theorem roundsHere_gridPoint_iff {k : ℤ} {point : Nat} :
    x.roundsHere (point * (4 * unitsPerOne * Nat.pow 10 k.toNat)) (Nat.pow 10 (-k).toNat) = true ↔
      x.Attracts (point * gridUnit k) := by
  have hup : 0 < Nat.pow 10 (-k).toNat := Nat.pow_pos (by norm_num)
  have hten : (0 : ℚ) < 10 ^ (-k).toNat := by positivity
  rw [roundsHere_iff hup, gridUnit, ten_zpow_eq]
  generalize unitsPerOne = one
  rw [Nat.pow_eq, Nat.pow_eq]
  push_cast
  have heq : (point * (4 * one * 10 ^ k.toNat) / (4 * 10 ^ (-k).toNat) : ℚ) =
      point * (one * (10 ^ k.toNat / 10 ^ (-k).toNat)) := by
    field_simp
  rw [heq]

/-- A number lies between two neighbouring points of a grid. -/
theorem gridBelow_bounds (x : Binary64) (k : ℤ) :
    x.gridBelow k * gridUnit k ≤ x.units ∧
      (x.units : ℚ) < (x.gridBelow k + 1 : Nat) * gridUnit k := by
  have hone := unitsPerOne_pos
  have hten : (0 : ℚ) < 10 ^ (-k).toNat := by positivity
  unfold gridBelow gridUnit quarterUnits
  rw [ten_zpow_eq, Nat.pow_eq, Nat.pow_eq]
  generalize unitsPerOne = one at *
  have hstep : 0 < 4 * one * 10 ^ k.toNat := by positivity
  obtain ⟨b, hb⟩ : ∃ b, b = 4 * x.units * 10 ^ (-k).toNat / (4 * one * 10 ^ k.toNat) := ⟨_, rfl⟩
  rw [← hb]
  have hlow : b * (4 * one * 10 ^ k.toNat) ≤ 4 * x.units * 10 ^ (-k).toNat := by
    rw [hb]
    exact Nat.div_mul_le_self _ _
  have hhigh : 4 * x.units * 10 ^ (-k).toNat < (b + 1) * (4 * one * 10 ^ k.toNat) := by
    rw [hb]
    exact Nat.lt_mul_of_div_lt (Nat.lt_succ_self _) hstep
  have hlow' : (b * (4 * one * 10 ^ k.toNat) : ℚ) ≤ 4 * x.units * 10 ^ (-k).toNat := by
    exact_mod_cast hlow
  have hhigh' : (4 * x.units * 10 ^ (-k).toNat : ℚ) < (b + 1 : Nat) * (4 * one * 10 ^ k.toNat) := by
    exact_mod_cast hhigh
  have hregroup (a : ℚ) : a * (one * (10 ^ k.toNat / 10 ^ (-k).toNat)) =
      a * (4 * one * 10 ^ k.toNat) / (4 * 10 ^ (-k).toNat) := by
    field_simp
  rw [hregroup, hregroup, div_le_iff₀ (by positivity), lt_div_iff₀ (by positivity)]
  constructor <;> linarith

/-- A point that a grid has for a number lies in the interval, next to the number. -/
theorem attracts_of_gridPoint? {k : ℤ} {point : Nat} (h : x.gridPoint? k = some point) :
    x.Attracts (point * gridUnit k) ∧ (point = x.gridBelow k ∨ point = x.gridBelow k + 1) := by
  rw [← roundsHere_gridPoint_iff]
  unfold gridPoint? at h
  dsimp only at h
  rw [← gridBelow] at h
  split at h
  · cases h
  · next hbelow _ =>
    cases h
    exact ⟨hbelow, Or.inl rfl⟩
  · next _ habove =>
    cases h
    exact ⟨habove, Or.inr rfl⟩
  · next hbelow habove =>
    have hcases : point = x.gridBelow k ∨ point = x.gridBelow k + 1 := by
      split at h
      · exact Or.inl (Option.some.inj h).symm
      · split at h
        · exact Or.inr (Option.some.inj h).symm
        · have hpoint := Option.some.inj h
          rcases Nat.mod_two_eq_zero_or_one (x.gridBelow k) with hmod | hmod
          · exact Or.inl (by omega)
          · exact Or.inr (by omega)
    refine ⟨?_, hcases⟩
    rcases hcases with rfl | rfl
    · exact hbelow
    · exact habove

/-- A grid with a point in the interval has a point for the number. -/
theorem not_attracts_of_gridPoint? {k : ℤ} (h : x.gridPoint? k = none) (point : Nat) :
    ¬ x.Attracts (point * gridUnit k) := by
  have hnone : ¬ x.Attracts (x.gridBelow k * gridUnit k) ∧
      ¬ x.Attracts ((x.gridBelow k + 1 : Nat) * gridUnit k) := by
    rw [← roundsHere_gridPoint_iff, ← roundsHere_gridPoint_iff]
    unfold gridPoint? at h
    dsimp only at h
    rw [← gridBelow] at h
    split at h
    · next hbelow habove => exact ⟨Bool.eq_false_iff.1 hbelow, Bool.eq_false_iff.1 habove⟩
    · cases h
    · cases h
    · split at h
      · cases h
      · split at h <;> cases h
  -- Between a point of the interval and the number there is a neighbour of the number.
  intro hpoint
  obtain ⟨hlow, hhigh⟩ := x.gridBelow_bounds k
  have hunit := gridUnit_pos k
  rcases Nat.lt_or_ge (x.gridBelow k) point with hlt | hge
  · have hle : ((x.gridBelow k + 1 : Nat) : ℚ) ≤ point := by exact_mod_cast hlt
    exact hnone.2 (x.attracts_units.convex hpoint hhigh.le
      (mul_le_mul_of_nonneg_right hle hunit.le))
  · have hle : (point : ℚ) ≤ x.gridBelow k := by exact_mod_cast hge
    exact hnone.1 (hpoint.convex x.attracts_units (mul_le_mul_of_nonneg_right hle hunit.le) hlow)

/-- The interval of a number is wider than the grid of decimals with seventeen digits. -/
theorem exists_attracts_seventeen (hx : x.isZero = false) :
    ∃ point : Nat, x.Attracts (point * gridUnit (x.leadingExponent - 16)) := by
  have hscale : (0 : ℚ) < 2 ^ x.scale := by positivity
  obtain ⟨g, hg⟩ : ∃ g : ℚ, g = gridUnit (x.leadingExponent - 16) / 2 ^ x.scale := ⟨_, rfl⟩
  have hpos : 0 < g := by
    rw [hg]
    exact div_pos (gridUnit_pos _) hscale
  have hsignificand : g * 10 ^ 16 ≤ x.significand := by
    have hlead := (leadingExponent_bounds hx).1
    rw [← gridUnit_sub_mul x.leadingExponent 16, x.units_eq] at hlead
    rw [hg, div_mul_eq_mul_div, div_le_iff₀ hscale]
    exact hlead
  have hwidth : g < x.reach + 1 / 2 := by
    unfold reach
    split
    · next hpower =>
      rw [hpower.1, leadingOne] at hsignificand
      norm_num at hsignificand ⊢
      linarith
    · have hlt : x.significand < 9007199254740992 := x.significand_lt
      have hlt' : (x.significand : ℚ) < 9007199254740992 := by exact_mod_cast hlt
      norm_num at hsignificand ⊢
      linarith
  -- The greatest point below the upper end of the interval.
  obtain ⟨top, htop⟩ : ∃ top : ℚ, top = x.significand + 1 / 2 := ⟨_, rfl⟩
  have htop_pos : 0 < top := by
    rw [htop]
    positivity
  obtain ⟨n, hn⟩ : ∃ n, ⌈top / g⌉₊ = n + 1 :=
    Nat.exists_eq_add_one.2 (Nat.ceil_pos.2 (div_pos htop_pos hpos))
  have hbelow : n * g < top := by
    have hlt : ((n : Nat) : ℚ) < top / g := Nat.lt_ceil.1 (by omega)
    exact (lt_div_iff₀ hpos).1 hlt
  have habove : top ≤ (n + 1) * g := by
    have hle : top / g ≤ ((n + 1 : Nat) : ℚ) := hn ▸ Nat.le_ceil _
    push_cast at hle
    exact (div_le_iff₀ hpos).1 hle
  refine ⟨n, ?_⟩
  have hunit := gridUnit_pos (x.leadingExponent - 16)
  rw [attracts_iff (mul_nonneg (Nat.cast_nonneg _) hunit.le), mul_div_assoc, ← hg, ← htop]
  exact ⟨Or.inl (by linarith), Or.inl hbelow⟩

/-! ## The shortest decimal -/

/-- Digits and a leading exponent are those of a decimal in the interval of a number.  No grid
before number {lit}`grid` has a point there, counted from that of the leading exponent on. -/
structure IsShortest (x : Binary64) (ds : List Nat) (lead : ℤ) (grid : Nat) : Prop where
  digit_lt : ∀ d ∈ ds, d < 10
  head_ne : ∃ d more, ds = d :: more ∧ d ≠ 0
  le : Decimal.ofDigits ds * gridUnit (lead + 1 - ds.length) ≤ gridUnit (x.leadingExponent + 1)
  attracts : x.Attracts (Decimal.ofDigits ds * gridUnit (lead + 1 - ds.length))
  coarse : x.leadingExponent - grid ≤ lead + 1 - ds.length
  first : ∀ n < grid, ∀ point : Nat, ¬ x.Attracts (point * gridUnit (x.leadingExponent - n))

/-- The grids, told from the power of ten that a number does not reach. -/
theorem gridUnit_succ (x : Binary64) (grid : Nat) : gridUnit (x.leadingExponent + 1) =
    gridUnit (x.leadingExponent - grid) * 10 ^ (grid + 1) := by
  rw [pow_succ, ← mul_assoc, gridUnit_sub_mul, ← pow_one 10, ← gridUnit_add, Nat.cast_one]

/-- A decimal has no more digits than the grid that it is on. -/
theorem IsShortest.ofDigits_le {ds : List Nat} {lead : ℤ} {grid : Nat}
    (h : x.IsShortest ds lead grid) : Decimal.ofDigits ds ≤ 10 ^ (grid + 1) := by
  have hunit := gridUnit_pos (x.leadingExponent - grid)
  have hcoarse : gridUnit (x.leadingExponent - grid) ≤ gridUnit (lead + 1 - ds.length) :=
    gridUnit_le_iff.2 h.coarse
  have hle : Decimal.ofDigits ds * gridUnit (x.leadingExponent - grid) ≤
      10 ^ (grid + 1) * gridUnit (x.leadingExponent - grid) :=
    calc Decimal.ofDigits ds * gridUnit (x.leadingExponent - grid)
        ≤ Decimal.ofDigits ds * gridUnit (lead + 1 - ds.length) :=
          mul_le_mul_of_nonneg_left hcoarse (Nat.cast_nonneg _)
      _ ≤ gridUnit (x.leadingExponent + 1) := h.le
      _ = 10 ^ (grid + 1) * gridUnit (x.leadingExponent - grid) := by
          rw [x.gridUnit_succ grid, mul_comm]
  exact_mod_cast le_of_mul_le_mul_right hle hunit

/-- Its leading exponent is that of the number, or one more if it has been rounded up. -/
theorem IsShortest.lead_le {ds : List Nat} {lead : ℤ} {grid : Nat}
    (h : x.IsShortest ds lead grid) : lead ≤ x.leadingExponent + 1 := by
  obtain ⟨d, more, rfl, hd⟩ := h.head_ne
  have hfirst : 10 ^ more.length ≤ Decimal.ofDigits (d :: more) := by
    have hsplit := Decimal.ofDigits_append [d] more
    have hone : Decimal.ofDigits [d] = d := by simp [Decimal.ofDigits]
    rw [hone, List.singleton_append] at hsplit
    rw [hsplit]
    exact Nat.le_trans (Nat.le_mul_of_pos_left _ (Nat.pos_of_ne_zero hd)) (Nat.le_add_right _ _)
  have hfirst' : (10 ^ more.length : ℚ) ≤ Decimal.ofDigits (d :: more) := by exact_mod_cast hfirst
  have hexponent : lead + 1 - (d :: more).length = lead - more.length := by
    rw [List.length_cons]
    push_cast
    ring
  have hlead : gridUnit lead = 10 ^ more.length * gridUnit (lead + 1 - (d :: more).length) := by
    rw [hexponent, mul_comm, gridUnit_sub_mul]
  rw [← gridUnit_le_iff, hlead]
  exact (mul_le_mul_of_nonneg_right hfirst' (gridUnit_pos _).le).trans h.le

/-- The point of a grid for a number is not zero, and it has no more digits than the grid, unless it
is the next power of ten. -/
theorem gridPoint?_bounds (hx : x.isZero = false) {grid point : Nat}
    (hpoint : x.gridPoint? (x.leadingExponent - grid) = some point) :
    point ≠ 0 ∧ point ≤ 10 ^ (grid + 1) := by
  obtain ⟨-, hnext⟩ := attracts_of_gridPoint? hpoint
  obtain ⟨hlow, hhigh⟩ := x.gridBelow_bounds (x.leadingExponent - grid)
  obtain ⟨hlead, hlast⟩ := leadingExponent_bounds hx
  have hunit := gridUnit_pos (x.leadingExponent - grid)
  rw [← gridUnit_sub_mul x.leadingExponent grid] at hlead
  rw [x.gridUnit_succ grid] at hlast
  constructor
  · rintro rfl
    have hzero : x.gridBelow (x.leadingExponent - grid) = 0 := by omega
    rw [hzero, Nat.zero_add, Nat.cast_one, one_mul] at hhigh
    have hone : (1 : ℚ) ≤ 10 ^ grid := one_le_pow₀ (by norm_num)
    exact absurd (hlead.trans_lt hhigh) (not_lt.2 (le_mul_of_one_le_right hunit.le hone))
  · have hlt : (x.gridBelow (x.leadingExponent - grid) : ℚ) < 10 ^ (grid + 1) := by
      have hchain := lt_of_le_of_lt hlow hlast
      rw [mul_comm] at hchain
      exact lt_of_mul_lt_mul_left hchain hunit.le
    have hlt' : x.gridBelow (x.leadingExponent - grid) < 10 ^ (grid + 1) := by exact_mod_cast hlt
    omega

/-- The digits of a point of a grid, without the zeros at their end. -/
theorem isShortest_of_gridPoint? (hx : x.isZero = false) {grid point : Nat}
    (hpoint : x.gridPoint? (x.leadingExponent - grid) = some point)
    (hfirst : ∀ n < grid, x.gridPoint? (x.leadingExponent - n) = none) :
    x.IsShortest ((Decimal.digits point).rdropWhile (· == 0))
      (x.leadingExponent - grid + (Decimal.digits point).length - 1) grid := by
  obtain ⟨hne, hle⟩ := gridPoint?_bounds hx hpoint
  obtain ⟨zeros, hvalue, hlength, hdigits, hhead⟩ := Decimal.exists_eq_mul_pow hne
  generalize (Decimal.digits point).rdropWhile (· == 0) = ds at *
  have hplace : x.leadingExponent - grid + (Decimal.digits point).length - 1 + 1 - ds.length =
      x.leadingExponent - grid + (zeros : Nat) := by
    rw [hlength]
    push_cast
    ring
  have hdecimal : Decimal.ofDigits ds * gridUnit (x.leadingExponent - grid + (zeros : Nat)) =
      point * gridUnit (x.leadingExponent - grid) := by
    rw [gridUnit_add, hvalue]
    push_cast
    ring
  refine {
    digit_lt := hdigits
    head_ne := hhead
    le := ?_
    attracts := ?_
    coarse := ?_
    first := fun n hn => not_attracts_of_gridPoint? (hfirst n hn)
  }
  · have hle' : (point : ℚ) ≤ 10 ^ (grid + 1) := by exact_mod_cast hle
    rw [hplace, hdecimal, x.gridUnit_succ grid, mul_comm]
    exact mul_le_mul_of_nonneg_left hle' (gridUnit_pos _).le
  · rw [hplace, hdecimal]
    exact (attracts_of_gridPoint? hpoint).1
  · rw [hplace]
    omega

/-- A number other than zero is printed with the digits of the first grid that has a point in its
interval. -/
theorem exists_isShortest (hx : x.isZero = false) :
    ∃ ds lead grid, x.shortest = (ds, lead) ∧ grid < 17 ∧ x.IsShortest ds lead grid := by
  obtain ⟨last, hlast⟩ := exists_attracts_seventeen hx
  have hsome : ((List.range 17).findSome? fun (n : Nat) =>
      (x.gridPoint? (x.leadingExponent - n)).map fun point =>
        (point, x.leadingExponent - n)).isSome = true := by
    rw [List.findSome?_isSome_iff]
    refine ⟨16, by decide, ?_⟩
    rw [Option.isSome_map, Option.isSome_iff_ne_none]
    exact fun hnone => not_attracts_of_gridPoint? hnone last hlast
  obtain ⟨⟨point, k⟩, hfound⟩ := Option.isSome_iff_exists.1 hsome
  obtain ⟨before, grid, after, hrange, hgrid, hbefore⟩ := List.findSome?_eq_some_iff.1 hfound
  obtain ⟨point', hpoint, hpair⟩ := Option.map_eq_some_iff.1 hgrid
  cases hpair
  have hposition (n : Nat) (hn : n ≤ before.length) : (before ++ grid :: after)[n]? = some n := by
    have hlength := congrArg List.length hrange
    rw [List.length_range, List.length_append, List.length_cons] at hlength
    rw [← hrange, List.getElem?_range (by omega)]
  have hbeforeLength : before.length = grid := by
    have hhere := hposition before.length (Nat.le_refl _)
    rw [List.getElem?_append_right (Nat.le_refl _), Nat.sub_self] at hhere
    exact (Option.some.inj hhere).symm
  have hfirst : ∀ n < grid, x.gridPoint? (x.leadingExponent - n) = none := by
    intro n hn
    have hhere := hposition n (by omega)
    rw [List.getElem?_append_left (by omega)] at hhere
    exact Option.map_eq_none_iff.1 (hbefore n (List.mem_of_getElem? hhere))
  have hlt : grid < 17 := by
    have hmem : grid ∈ List.range 17 := by
      rw [hrange]
      simp
    exact List.mem_range.1 hmem
  refine ⟨_, _, grid, ?_, hlt, isShortest_of_gridPoint? hx hpoint hfirst⟩
  simp only [shortest, hx, Bool.false_eq_true, if_false, hfound]
  rfl

/-! ## Numbers next to a decimal -/

/-- What a number of 53 bits attracts is hardly smaller than the number. -/
theorem Attracts.units_le {q : ℚ} (h : x.Attracts q) (hq : 0 ≤ q)
    (hx : leadingOne ≤ x.significand) : x.units * (2 ^ 53 - 1) ≤ q * 2 ^ 53 := by
  have hscale : (0 : ℚ) < 2 ^ x.scale := by positivity
  have hreach := x.reach_le
  have hlead : (2 ^ 52 : ℚ) ≤ x.significand := by exact_mod_cast hx
  have hlow : (x.significand - 1 / 2) * 2 ^ x.scale ≤ q := by
    have hlow := ((attracts_iff hq).1 h).le.1
    rw [← le_div_iff₀ hscale]
    linarith
  calc (x.units : ℚ) * (2 ^ 53 - 1)
      = x.significand * (2 ^ 53 - 1) * 2 ^ x.scale := by
        rw [x.units_eq]
        ring
    _ ≤ ((x.significand : ℚ) - 1 / 2) * 2 ^ 53 * 2 ^ x.scale :=
        mul_le_mul_of_nonneg_right (by linarith) hscale.le
    _ = ((x.significand : ℚ) - 1 / 2) * 2 ^ x.scale * 2 ^ 53 := by ring
    _ ≤ q * 2 ^ 53 := mul_le_mul_of_nonneg_right hlow (by positivity)

/-- It is less than twice as great. -/
theorem Attracts.le_units {q : ℚ} (h : x.Attracts q) (hq : 0 ≤ q) (hx : 0 < x.significand) :
    q ≤ 2 * x.units := by
  have hscale : (0 : ℚ) < 2 ^ x.scale := by positivity
  have hone : (1 : ℚ) ≤ x.significand := by exact_mod_cast hx
  have hhigh := ((attracts_iff hq).1 h).le.2
  rw [div_le_iff₀ hscale] at hhigh
  rw [x.units_eq]
  calc q ≤ (x.significand + 1 / 2) * 2 ^ x.scale := hhigh
    _ ≤ 2 * x.significand * 2 ^ x.scale := mul_le_mul_of_nonneg_right (by linarith) hscale.le
    _ = 2 * (x.significand * 2 ^ x.scale) := by ring

/-- The places up to the twenty-first are all greater than the numbers that have not 53 bits. -/
theorem leadingOne_le_gridUnit {k : Nat} (hk : k ≤ 21) :
    (2 * leadingOne : ℚ) ≤ gridUnit (-(k : ℤ)) := by
  have hleast : gridUnit (-(21 : Nat)) ≤ gridUnit (-(k : ℤ)) := gridUnit_le_iff.2 (by omega)
  have hbits : 2 * leadingOne * 10 ^ 21 ≤ unitsPerOne := by decide +kernel
  refine le_trans ?_ hleast
  rw [gridUnit]
  generalize unitsPerOne = one at *
  rw [zpow_neg, zpow_natCast, ← div_eq_mul_inv, le_div_iff₀ (by positivity)]
  exact_mod_cast hbits

/-- A number that attracts a decimal of at most fifteen digits, not too small, has a leading
exponent that fits the decimal. -/
theorem leadingExponent_of_attracts (hx : x.isZero = false) {n k : Nat} (hpos : 0 < n)
    (hn : n < 10 ^ 15) (hk : k ≤ 21) (h : x.Attracts (n * gridUnit (-(k : ℤ)))) :
    -(k : ℤ) - 1 ≤ x.leadingExponent ∧ x.leadingExponent + k ≤ 14 := by
  have hunit := gridUnit_pos (-(k : ℤ))
  have hq : (0 : ℚ) ≤ n * gridUnit (-(k : ℤ)) := mul_nonneg (Nat.cast_nonneg _) hunit.le
  have hone : (1 : ℚ) ≤ n := by exact_mod_cast hpos
  have hunit_le : gridUnit (-(k : ℤ)) ≤ n * gridUnit (-(k : ℤ)) :=
    le_mul_of_one_le_left hunit.le hone
  have hgreat := leadingOne_le_gridUnit hk
  have hsignificand : leadingOne ≤ x.significand := by
    by_contra hlt
    have hscale : x.scale = 0 :=
      Nat.eq_zero_of_not_pos fun hscale => hlt (leadingOne_le_significand hscale)
    have hhigh := ((attracts_iff hq).1 h).le.2
    rw [hscale, pow_zero, div_one] at hhigh
    have hlt' : ((x.significand + 1 : Nat) : ℚ) ≤ leadingOne := by
      exact_mod_cast Nat.lt_of_not_le hlt
    push_cast at hlt'
    have hlead : (0 : ℚ) ≤ leadingOne := Nat.cast_nonneg _
    linarith
  obtain ⟨hlead, hnext⟩ := leadingExponent_bounds hx
  constructor
  · by_contra hlt
    have hsmall : gridUnit (x.leadingExponent + 1) ≤ gridUnit (-(k : ℤ) - 1) :=
      gridUnit_le_iff.2 (by omega)
    have hten : gridUnit (-(k : ℤ)) = gridUnit (-(k : ℤ) - 1) * 10 ^ 1 := by
      rw [← gridUnit_add, Nat.cast_one, sub_add_cancel]
    have hunit' := gridUnit_pos (-(k : ℤ) - 1)
    have hdouble := h.le_units hq (Nat.lt_of_lt_of_le (by decide) hsignificand)
    linarith
  · by_contra hgt
    have hlarge : gridUnit (-(k : ℤ) + (15 : Nat)) ≤ gridUnit x.leadingExponent :=
      gridUnit_le_iff.2 (by push_cast; omega)
    rw [gridUnit_add] at hlarge
    have hunits := h.units_le hq hsignificand
    have hcancel : (10 ^ 15 * (2 ^ 53 - 1) : ℚ) ≤ n * 2 ^ 53 := by
      refine le_of_mul_le_mul_left ?_ hunit
      calc gridUnit (-(k : ℤ)) * (10 ^ 15 * (2 ^ 53 - 1))
          = gridUnit (-(k : ℤ)) * 10 ^ 15 * (2 ^ 53 - 1) := by ring
        _ ≤ (x.units : ℚ) * (2 ^ 53 - 1) :=
            mul_le_mul_of_nonneg_right (hlarge.trans hlead) (by norm_num)
        _ ≤ n * gridUnit (-(k : ℤ)) * 2 ^ 53 := hunits
        _ = gridUnit (-(k : ℤ)) * (n * 2 ^ 53) := by ring
    have hn' : ((n + 1 : Nat) : ℚ) ≤ 10 ^ 15 := by exact_mod_cast hn
    push_cast at hn'
    norm_num at hcancel hn'
    linarith

end Binary64

end Transclude
