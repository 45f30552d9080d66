import Transclude.Json.Basic
import Transclude.Number.Decimal

/-!
# Numerals

The written form of a number and the value it stands for.  Decimals are not read exactly:
digits are kept as long as the significand fits 64 bits, the significand is rounded, and the
result is scaled by one correctly rounded power of ten (by several for extreme exponents).

Main results:

- Theorem {lit}`Numeral.scan_length_lt`: a scanned numeral takes at least one character.
- Definition {lit}`Numeral.value?`: the number of a numeral, none when it is out of range.
-/

namespace Transclude

/-- A written number: a sign, digits, the digits after a point and a signed exponent.
An empty fraction means that no point is written. -/
structure Numeral where
  negative : Bool
  whole : List Nat
  fraction : List Nat
  exponent : Option (Bool × List Nat)
  deriving Repr, DecidableEq

namespace Numeral

/-! ## Scanning -/

/-- The digits in front of a text, and the text after them. -/
def scanDigits : List Char → List Nat × List Char
  | [] => ([], [])
  | c :: rest =>
    match Decimal.digitValue? c with
    | some d =>
      let (ds, after) := scanDigits rest
      (d :: ds, after)
    | none => ([], c :: rest)

/-- The digits before the point: a zero stands alone. -/
def scanWhole (s : List Char) : Option (List Nat × List Char) :=
  match s with
  | '0' :: rest => some ([0], rest)
  | _ =>
    match scanDigits s with
    | ([], _) => none
    | (ds, rest) => some (ds, rest)

/-- The digits after a point, at least one if there is a point. -/
def scanFraction (s : List Char) : Option (List Nat × List Char) :=
  match s with
  | '.' :: rest =>
    match scanDigits rest with
    | ([], _) => none
    | (ds, after) => some (ds, after)
  | _ => some ([], s)

/-- An optional sign of an exponent. -/
def scanExponentSign (s : List Char) : Bool × List Char :=
  match s with
  | '-' :: rest => (true, rest)
  | '+' :: rest => (false, rest)
  | _ => (false, s)

/-- The exponent, with at least one digit if it is announced. -/
def scanExponent (s : List Char) : Option (Option (Bool × List Nat) × List Char) :=
  match s with
  | [] => some (none, [])
  | c :: rest =>
    if c = 'e' ∨ c = 'E' then
      let (negative, rest) := scanExponentSign rest
      match scanDigits rest with
      | ([], _) => none
      | (ds, after) => some (some (negative, ds), after)
    else some (none, c :: rest)

/-- An optional minus sign. -/
def scanSign (s : List Char) : Bool × List Char :=
  match s with
  | '-' :: rest => (true, rest)
  | _ => (false, s)

/-- The numeral in front of a text, as long as possible, and the text after it. -/
def scan (s : List Char) : Option (Numeral × List Char) := do
  let (negative, s) := scanSign s
  let (whole, s) ← scanWhole s
  let (fraction, s) ← scanFraction s
  let (exponent, s) ← scanExponent s
  return (⟨negative, whole, fraction, exponent⟩, s)

/-- Scanning digits leaves no more text than there was. -/
theorem scanDigits_length_le (s : List Char) : (scanDigits s).2.length ≤ s.length := by
  induction s with
  | nil => simp [scanDigits]
  | cons c rest ih =>
    rw [scanDigits]
    split
    · simp only [List.length_cons]
      omega
    · simp

/-- It leaves less if there is a digit. -/
theorem scanDigits_length_lt {s rest : List Char} {d : Nat} {ds : List Nat}
    (h : scanDigits s = (d :: ds, rest)) : rest.length < s.length := by
  cases s with
  | nil => simp [scanDigits] at h
  | cons c s =>
    rw [scanDigits] at h
    split at h
    · simp only [Prod.mk.injEq] at h
      have := scanDigits_length_le s
      rw [h.2] at this
      simp only [List.length_cons]
      omega
    · simp at h

/-- The whole part takes at least one character. -/
theorem scanWhole_length_lt {s rest : List Char} {ds : List Nat}
    (h : scanWhole s = some (ds, rest)) : rest.length < s.length := by
  rw [scanWhole.eq_def] at h
  split at h
  · simp only [Option.some.injEq, Prod.mk.injEq] at h
    simp [h.2]
  · split at h
    · simp at h
    · next ds' rest' hne heq =>
      simp only [Option.some.injEq, Prod.mk.injEq] at h
      obtain ⟨rfl, rfl⟩ := h
      cases ds' with
      | nil => exact absurd rfl hne
      | cons d ds' => exact scanDigits_length_lt heq

/-- The fraction may take none. -/
theorem scanFraction_length_le {s rest : List Char} {ds : List Nat}
    (h : scanFraction s = some (ds, rest)) : rest.length ≤ s.length := by
  rw [scanFraction.eq_def] at h
  split at h
  · next s' =>
    split at h
    · simp at h
    · next heq =>
      simp only [Option.some.injEq, Prod.mk.injEq] at h
      have := scanDigits_length_le s'
      rw [heq, h.2] at this
      dsimp only at this
      simp only [List.length_cons]
      omega
  · simp only [Option.some.injEq, Prod.mk.injEq] at h
    simp [h.2]

theorem scanExponentSign_length_le (s : List Char) :
    (scanExponentSign s).2.length ≤ s.length := by
  rw [scanExponentSign.eq_def]
  split <;> simp

/-- So may the exponent. -/
theorem scanExponent_length_le {s rest : List Char} {e : Option (Bool × List Nat)}
    (h : scanExponent s = some (e, rest)) : rest.length ≤ s.length := by
  rw [scanExponent.eq_def] at h
  split at h
  · simp only [Option.some.injEq, Prod.mk.injEq] at h
    simp [← h.2]
  · next c s' =>
    split at h
    · have hsign := scanExponentSign_length_le s'
      have hdigits := scanDigits_length_le (scanExponentSign s').2
      dsimp only at h
      split at h
      · simp at h
      · next heq =>
        simp only [Option.some.injEq, Prod.mk.injEq] at h
        rw [heq, h.2] at hdigits
        dsimp only at hdigits
        simp only [List.length_cons]
        omega
    · simp only [Option.some.injEq, Prod.mk.injEq] at h
      simp [← h.2]

theorem scanSign_length_le (s : List Char) : (scanSign s).2.length ≤ s.length := by
  rw [scanSign.eq_def]
  split <;> simp

/-- A scanned numeral takes at least one character. -/
theorem scan_length_lt {s rest : List Char} {n : Numeral} (h : scan s = some (n, rest)) :
    rest.length < s.length := by
  simp only [scan, bind, Option.bind_eq_some_iff, pure, Option.some.injEq, Prod.mk.injEq] at h
  obtain ⟨⟨whole, s₁⟩, h₁, ⟨fraction, s₂⟩, h₂, ⟨exponent, s₃⟩, h₃, -, rfl⟩ := h
  have := scanSign_length_le s
  have := scanWhole_length_lt h₁
  have := scanFraction_length_le h₂
  have := scanExponent_length_le h₃
  dsimp only at *
  omega

/-! ## Values -/

/-- The least number that does not fit 64 bits. -/
def wordLimit : Nat :=
  0x10000000000000000

/-- The least number that does not fit 31 bits. -/
def exponentLimit : Nat :=
  0x80000000

/-- Append digits to a significand as long as it fits 64 bits; also, how many were kept. -/
def keepDigits (significand : Nat) : List Nat → Nat × Nat
  | [] => (significand, 0)
  | d :: ds =>
    if significand * 10 + d < wordLimit then
      let (kept, count) := keepDigits (significand * 10 + d) ds
      (kept, count + 1)
    else (significand, 0)

/-- Divide a magnitude by a power of ten, at most {lit}`10 ^ 308` at a time. -/
def scaleDown (x : Binary64) (k : Nat) : Binary64 :=
  if k ≤ 308 then x.div (.powerOfTen k)
  else if x.isZero then x
  else scaleDown (x.div (.powerOfTen 308)) (k - 308)
termination_by k

/-- Multiply a magnitude by a power of ten, none when the result is out of range. -/
def scaleUp? (x : Binary64) (k : Nat) : Option Binary64 :=
  if x.isZero then some x
  else if k ≤ 308 then
    let y := x.mul (.powerOfTen k)
    if y.isFinite then some y else none
  else none

/-- The double of a significand and an exponent of ten, none when it is out of range. -/
def double? (significand : Nat) (exponent : Int) : Option Binary64 :=
  match exponent with
  | .ofNat k => scaleUp? (.ofNat significand) k
  | .negSucc k => some (scaleDown (.ofNat significand) (k + 1))

/-- The double that a numeral stands for, none when it is out of range.

A written exponent past 31 bits is not added: it makes the value a zero, or puts it out of
range if it is positive and a digit other than zero was kept. -/
def toDouble? (n : Numeral) : Option Binary64 :=
  let (whole, wholeKept) := keepDigits 0 n.whole
  let (significand, fractionKept) := keepDigits whole n.fraction
  let exponent : Int := ((n.whole.length - wholeKept : Nat) : Int) - fractionKept
  let magnitude? :=
    match n.exponent with
    | none => double? significand exponent
    | some (negative, ds) =>
      let written := Decimal.ofDigits ds
      if written < exponentLimit then
        double? significand (if negative then exponent - written else exponent + written)
      else if !negative && significand != 0 then none
      else some .zero
  magnitude?.map (·.withSign n.negative)

/-- The integer that a numeral without point and exponent stands for, if it fits 64 bits and
is no negative zero. -/
def toInt? (n : Numeral) : Option Int :=
  let magnitude := Decimal.ofDigits n.whole
  if !n.fraction.isEmpty || n.exponent.isSome then none
  else if n.negative then
    if magnitude = 0 ∨ wordLimit < 2 * magnitude then none else some (-magnitude)
  else if magnitude < wordLimit then some magnitude
  else none

/-- The number that a numeral stands for, none when it is out of range. -/
def value? (n : Numeral) : Option Number :=
  match n.toInt? with
  | some i => some (.int i)
  | none => n.toDouble?.map .double

end Numeral

end Transclude
