/-!
# Decimal digits

Natural numbers as lists of decimal digits, most significant first.

Main results:

- Theorem {lit}`ofDigits_digits`: the digits of a number read back as that number.
- Theorem {lit}`digit_lt_ten`: every digit of a number is below ten.
- Theorem {lit}`digits_ne_nil`: every number has at least one digit.
-/

namespace Transclude.Decimal

/-- The number that a list of decimal digits stands for. -/
def ofDigits (ds : List Nat) : Nat :=
  ds.foldl (fun n d => n * 10 + d) 0

/-- The decimal digits of a number, without leading zeros; zero is one digit. -/
def digits (n : Nat) : List Nat :=
  if n < 10 then [n] else digits (n / 10) ++ [n % 10]
termination_by n

/-- Appending a digit multiplies by ten and adds it. -/
@[simp] theorem ofDigits_append_singleton (ds : List Nat) (d : Nat) :
    ofDigits (ds ++ [d]) = ofDigits ds * 10 + d := by
  simp [ofDigits]

/-- The digits of a number read back as that number. -/
@[simp] theorem ofDigits_digits (n : Nat) : ofDigits (digits n) = n := by
  induction n using Nat.strongRecOn with
  | ind n ih =>
    rw [digits]
    split
    · simp [ofDigits]
    · rw [ofDigits_append_singleton, ih (n / 10) (by omega)]
      omega

/-- Every digit of a number is below ten. -/
theorem digit_lt_ten {n d : Nat} (h : d ∈ digits n) : d < 10 := by
  induction n using Nat.strongRecOn with
  | ind n ih =>
    rw [digits] at h
    split at h
    · simp only [List.mem_singleton] at h
      omega
    · rcases List.mem_append.1 h with h | h
      · exact ih (n / 10) (by omega) h
      · simp only [List.mem_singleton] at h
        omega

/-- Every number has at least one digit. -/
theorem digits_ne_nil (n : Nat) : digits n ≠ [] := by
  rw [digits]
  split <;> simp

/-- The character of a digit below ten. -/
def digitChar (d : Nat) : Char :=
  Char.ofNat ('0'.toNat + d)

/-- The digit that a character stands for, if it is one of the ten ASCII digits. -/
def digitValue? (c : Char) : Option Nat :=
  if '0' ≤ c ∧ c ≤ '9' then some (c.toNat - '0'.toNat) else none

/-- The decimal spelling of a number. -/
def spelling (n : Nat) : List Char :=
  (digits n).map digitChar

end Transclude.Decimal
