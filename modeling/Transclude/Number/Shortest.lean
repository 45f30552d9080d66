import Transclude.Number.Binary64
import Transclude.Number.Decimal

/-!
# Shortest decimals

The decimal with the fewest digits that rounds to a given double-precision number, and its
text.  The numbers that round to one word fill an interval, whose ends belong to it exactly
when the word is even.  Grids of decimals are tried from the coarsest on; the first grid with
a point in the interval wins, and of two such points the nearer one.

Main definitions:

- {lit}`Binary64.gridPoint?`: the point of a decimal grid that stands for a number.
- {lit}`Binary64.shortest`: the digits of the shortest decimal and its leading exponent.
- {lit}`DecimalLayout.render`: the text of a finite number in a given layout.
-/

namespace Transclude

namespace Binary64

/-! ## The interval of a word -/

/-- Four times a magnitude in units, so that the ends of its interval are whole numbers. -/
def quarterUnits (x : Binary64) : Nat :=
  4 * x.units

/-- The lower end of the interval, in quarter units.

Below a power of two the neighbouring numbers are twice as dense. -/
def intervalLow (x : Binary64) : Nat :=
  x.quarterUnits - (if x.significand = leadingOne ∧ 0 < x.scale then 1 else 2) * Nat.pow 2 x.scale

/-- The upper end of the interval, in quarter units. -/
def intervalHigh (x : Binary64) : Nat :=
  x.quarterUnits + 2 * Nat.pow 2 x.scale

/-- Whether the magnitude {lit}`num / den`, in quarter units, rounds to that of the word. -/
def roundsHere (x : Binary64) (num den : Nat) : Bool :=
  if x.significand % 2 = 0 then
    decide (x.intervalLow * den ≤ num ∧ num ≤ x.intervalHigh * den)
  else
    decide (x.intervalLow * den < num ∧ num < x.intervalHigh * den)

/-! ## Decimal grids -/

/-- The exponent of the leading decimal digit of a finite magnitude other than zero. -/
def leadingExponent (x : Binary64) : Int :=
  if unitsPerOne ≤ x.units then
    ((Decimal.digits (x.units / unitsPerOne)).length : Int) - 1
  else
    -((Decimal.digits ((unitsPerOne - 1) / x.units)).length : Int)

/-- The multiple of {lit}`10 ^ k` that rounds to the number, if there is one.

Of two such neighbours the nearer is taken, and of two equally near ones the even one. -/
def gridPoint? (x : Binary64) (k : Int) : Option Nat :=
  let up := Nat.pow 10 (-k).toNat
  let step := 4 * unitsPerOne * Nat.pow 10 k.toNat
  let exact := x.quarterUnits * up
  let below := exact / step
  let rest := exact % step
  match x.roundsHere (below * step) up, x.roundsHere ((below + 1) * step) up with
  | false, false => none
  | true, false => some below
  | false, true => some (below + 1)
  | true, true =>
    if 2 * rest < step then some below
    else if step < 2 * rest then some (below + 1)
    else some (below + below % 2)

/-- The digits of the shortest decimal of a finite number, with the exponent of its leading
digit.  Seventeen digits always suffice. -/
def shortest (x : Binary64) : List Nat × Int :=
  if x.isZero then ([0], 0)
  else
    let lead := x.leadingExponent
    let found := (List.range 17).findSome? fun (n : Nat) =>
      (x.gridPoint? (lead - n)).map fun point => (point, lead - n)
    match found with
    | none => ([0], 0)
    | some (point, k) =>
      let ds := Decimal.digits point
      ((ds.reverse.dropWhile (· == 0)).reverse, k + ds.length - 1)

end Binary64

/-! ## Text -/

/-- How decimals are laid out: leading exponents from {lit}`positionalFrom` up to but not
including {lit}`scientificFrom` are written positionally, all others scientifically. -/
structure DecimalLayout where
  positionalFrom : Int
  scientificFrom : Int
  deriving Repr, DecidableEq

namespace DecimalLayout

/-- The characters of a list of digits. -/
def digitText (ds : List Nat) : List Char :=
  ds.map Decimal.digitChar

/-- Positional text, with at least one digit on either side of the point. -/
def positional (ds : List Nat) (lead : Int) : List Char :=
  if lead < 0 then
    digitText [0] ++ '.' :: digitText (List.replicate (-lead - 1).toNat 0 ++ ds)
  else
    let width := lead.toNat + 1
    let whole := ds.take width ++ List.replicate (width - ds.length) 0
    let fraction := ds.drop width
    digitText whole ++ '.' :: digitText (if fraction.isEmpty then [0] else fraction)

/-- Scientific text: one digit, the others after a point, and a signed exponent. -/
def scientific (ds : List Nat) (lead : Int) : List Char :=
  let mantissa :=
    match ds with
    | [] => digitText [0]
    | [d] => digitText [d]
    | d :: more => digitText [d] ++ '.' :: digitText more
  mantissa ++ 'e' :: (if lead < 0 then '-' else '+') :: Decimal.spelling lead.natAbs

/-- The shortest text of a finite number; a zero keeps its sign. -/
def render (layout : DecimalLayout) (x : Binary64) : List Char :=
  let (ds, lead) := x.shortest
  let text :=
    if layout.positionalFrom ≤ lead ∧ lead < layout.scientificFrom then positional ds lead
    else scientific ds lead
  if x.isNegative then '-' :: text else text

end DecimalLayout

end Transclude
