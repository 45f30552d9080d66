/-!
# Double-precision numbers

A number of the 64-bit binary interchange format, kept as its word.  A finite one has the
value {lit}`significand * 2 ^ scale / 2 ^ 1074`, with a natural number for the significand
and for the scale, so rounding, multiplication and division are exact arithmetic on natural
numbers followed by one rounding.

Main definitions:

- {lit}`Binary64.nearest`: the number nearest to a ratio, a tie going to the even word.
- {lit}`Binary64.mul`, {lit}`Binary64.div`: the exact result, rounded once.
- {lit}`Binary64.numEq`: numeric equality, which tells no zero from the other and holds for
  no word that is not a number.
-/

namespace Transclude

/-- A double-precision number, given by its 64-bit word. -/
structure Binary64 where
  bits : UInt64
  deriving DecidableEq, Repr, Inhabited

namespace Binary64

/-! ## The fields of a word -/

/-- The weight of the sign bit. -/
def signWeight : Nat :=
  0x8000000000000000

/-- The weight of the leading one that normal numbers leave out; the exponent field begins with
the bit of this weight. -/
def leadingOne : Nat :=
  0x10000000000000

/-- Whether the sign bit is set. -/
def isNegative (x : Binary64) : Bool :=
  decide (signWeight ≤ x.bits.toNat)

/-- The word without its sign bit. -/
def magnitude (x : Binary64) : Nat :=
  x.bits.toNat % signWeight

/-- The magnitude of the two infinities. -/
def infinityMagnitude : Nat :=
  0x7FF * leadingOne

/-- Neither infinite nor a non-number. -/
def isFinite (x : Binary64) : Bool :=
  decide (x.magnitude < infinityMagnitude)

/-- A word that stands for no number. -/
def isNaN (x : Binary64) : Bool :=
  decide (infinityMagnitude < x.magnitude)

/-- Either zero. -/
def isZero (x : Binary64) : Bool :=
  x.magnitude == 0

/-- The word with the given sign and magnitude. -/
def ofMagnitude (negative : Bool) (magnitude : Nat) : Binary64 :=
  ⟨UInt64.ofNat (magnitude + if negative then signWeight else 0)⟩

/-- The positive zero. -/
def zero : Binary64 :=
  ofMagnitude false 0

/-- The same number with the given sign. -/
def withSign (x : Binary64) (negative : Bool) : Binary64 :=
  ofMagnitude negative x.magnitude

/-- The integer significand, with the leading one that normal numbers leave out. -/
def significand (x : Binary64) : Nat :=
  if x.magnitude < leadingOne then x.magnitude else leadingOne + x.magnitude % leadingOne

/-- The exponent of the significand's last bit, counted from the smallest one, {lit}`-1074`. -/
def scale (x : Binary64) : Nat :=
  x.magnitude / leadingOne - 1

/-- A finite magnitude as a multiple of the smallest positive number. -/
def units (x : Binary64) : Nat :=
  x.significand * Nat.pow 2 x.scale

/-- How many of the smallest positive number make one. -/
def unitsPerOne : Nat :=
  Nat.pow 2 1074

/-! ## Equality -/

/-- Numeric equality: the two zeros are equal, and a non-number equals nothing. -/
def numEq (x y : Binary64) : Bool :=
  !x.isNaN && !y.isNaN && (x.bits == y.bits || (x.isZero && y.isZero))

/-! ## Rounding -/

/-- The integer nearest to a quotient, a half going to the even neighbour. -/
def roundQuotient (num den : Nat) : Nat :=
  let floor := num / den
  let rest := num % den
  if 2 * rest < den then floor
  else if den < 2 * rest then floor + 1
  else floor + floor % 2

/-- The magnitude nearest to the ratio of two naturals.

The scale is the least one whose significands reach the ratio.  The carry of a significand
that rounds up to the next power of two falls into the exponent field, and everything past
the largest finite number is infinite. -/
def nearestMagnitude (num den : Nat) : Nat :=
  let inUnits := num * unitsPerOne
  let scale := (inUnits / den).log2 - 52
  min (scale * leadingOne + roundQuotient inUnits (den * Nat.pow 2 scale)) infinityMagnitude

/-- The number nearest to a signed ratio, a tie going to the even word. -/
def nearest (negative : Bool) (num den : Nat) : Binary64 :=
  ofMagnitude negative (nearestMagnitude num den)

/-- The number nearest to a natural number. -/
def ofNat (n : Nat) : Binary64 :=
  nearest false n 1

/-- The number nearest to an integer. -/
def ofInt (n : Int) : Binary64 :=
  nearest (decide (n < 0)) n.natAbs 1

/-- The product of two finite numbers, rounded once. -/
def mul (x y : Binary64) : Binary64 :=
  nearest (x.isNegative ^^ y.isNegative) (x.units * y.units) (unitsPerOne * unitsPerOne)

/-- The quotient of two finite numbers, the second not zero, rounded once. -/
def div (x y : Binary64) : Binary64 :=
  nearest (x.isNegative ^^ y.isNegative) x.units y.units

/-- The number nearest to a power of ten. -/
def powerOfTen (k : Nat) : Binary64 :=
  ofNat (Nat.pow 10 k)

example : ofNat 1 = ⟨0x3FF0000000000000⟩ := by decide +kernel
example : (ofNat 1).div (ofNat 10) = ⟨0x3FB999999999999A⟩ := by decide +kernel
example : ofInt (-3) = ⟨0xC008000000000000⟩ := by decide +kernel
example : numEq zero (zero.withSign true) = true := by decide

end Binary64

end Transclude
