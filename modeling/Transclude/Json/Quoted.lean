/-!
# Quoted strings

Strings between quotation marks.  Writing escapes the quotation mark, the backslash and the
control characters; reading accepts every escape of the format and no unpaired surrogate.

Main results:

- Definition {lit}`Quoted.spelling`: the written form of a string.
- Definition {lit}`Quoted.scan`: the string that ends at the first bare quotation mark.
- Theorem {lit}`Quoted.scan_length_lt`: a scanned string takes at least its closing mark.
-/

namespace Transclude.Json.Quoted

/-! ## Writing -/

/-- A hexadecimal digit in lower case. -/
def hexDigit (d : Nat) : Char :=
  if d < 10 then Char.ofNat ('0'.toNat + d) else Char.ofNat ('a'.toNat + (d - 10))

/-- One character as it is written between quotation marks. -/
def escape (c : Char) : List Char :=
  if c = '"' then ['\\', '"']
  else if c = '\\' then ['\\', '\\']
  else if c = '\x08' then ['\\', 'b']
  else if c = '\t' then ['\\', 't']
  else if c = '\n' then ['\\', 'n']
  else if c = '\x0c' then ['\\', 'f']
  else if c = '\r' then ['\\', 'r']
  else if c.toNat < 0x20 then
    ['\\', 'u', '0', '0', hexDigit (c.toNat / 16), hexDigit (c.toNat % 16)]
  else [c]

/-- The characters between the quotation marks, and the closing mark. -/
def body (s : List Char) : List Char :=
  s.flatMap escape ++ ['"']

/-- The written form of a string. -/
def spelling (s : List Char) : List Char :=
  '"' :: body s

/-! ## Reading -/

/-- The value of a hexadecimal digit of either case. -/
def hexValue? (c : Char) : Option Nat :=
  if '0' ≤ c ∧ c ≤ '9' then some (c.toNat - '0'.toNat)
  else if 'a' ≤ c ∧ c ≤ 'f' then some (c.toNat - 'a'.toNat + 10)
  else if 'A' ≤ c ∧ c ≤ 'F' then some (c.toNat - 'A'.toNat + 10)
  else none

/-- Four hexadecimal digits and the text after them. -/
def scanHex (s : List Char) : Option (Nat × List Char) :=
  match s with
  | a :: b :: c :: d :: rest => do
    let a ← hexValue? a
    let b ← hexValue? b
    let c ← hexValue? c
    let d ← hexValue? d
    return (((a * 16 + b) * 16 + c) * 16 + d, rest)
  | _ => none

/-- The second half of a surrogate pair, escaped on its own. -/
def scanLowSurrogate (s : List Char) : Option (Nat × List Char) :=
  match s with
  | '\\' :: 'u' :: rest => do
    let (low, rest) ← scanHex rest
    if 0xDC00 ≤ low ∧ low < 0xE000 then some (low, rest) else none
  | _ => none

/-- The character of a hexadecimal escape, which may need a second one for its other half. -/
def scanCodePoint (s : List Char) : Option (Char × List Char) := do
  let (unit, rest) ← scanHex s
  if 0xD800 ≤ unit ∧ unit < 0xDC00 then
    let (low, rest) ← scanLowSurrogate rest
    some (Char.ofNat (0x10000 + (unit - 0xD800) * 0x400 + (low - 0xDC00)), rest)
  else if 0xDC00 ≤ unit ∧ unit < 0xE000 then none
  else some (Char.ofNat unit, rest)

/-- The character of an escape, after its backslash. -/
def scanEscape (s : List Char) : Option (Char × List Char) :=
  match s with
  | [] => none
  | c :: rest =>
    if c = '"' ∨ c = '\\' ∨ c = '/' then some (c, rest)
    else if c = 'b' then some ('\x08', rest)
    else if c = 'f' then some ('\x0c', rest)
    else if c = 'n' then some ('\n', rest)
    else if c = 'r' then some ('\r', rest)
    else if c = 't' then some ('\t', rest)
    else if c = 'u' then scanCodePoint rest
    else none

/-- Four digits take some text. -/
theorem scanHex_length_lt {s rest : List Char} {n : Nat} (h : scanHex s = some (n, rest)) :
    rest.length < s.length := by
  rw [scanHex.eq_def] at h
  split at h
  · simp only [bind, Option.bind_eq_some_iff, pure, Option.some.injEq, Prod.mk.injEq] at h
    obtain ⟨_, _, _, _, _, _, _, _, _, rfl⟩ := h
    simp only [List.length_cons]
    omega
  · simp at h

/-- So does the second half of a pair. -/
theorem scanLowSurrogate_length_lt {s rest : List Char} {n : Nat}
    (h : scanLowSurrogate s = some (n, rest)) : rest.length < s.length := by
  rw [scanLowSurrogate.eq_def] at h
  split at h
  · simp only [bind, Option.bind_eq_some_iff] at h
    obtain ⟨⟨low, after⟩, hhex, h⟩ := h
    have := scanHex_length_lt hhex
    split at h
    · simp only [Option.some.injEq, Prod.mk.injEq] at h
      simp only [List.length_cons, ← h.2]
      omega
    · simp at h
  · simp at h

/-- So does a code point, be it a pair or not. -/
theorem scanCodePoint_length_lt {s rest : List Char} {c : Char}
    (h : scanCodePoint s = some (c, rest)) : rest.length < s.length := by
  simp only [scanCodePoint, bind, Option.bind_eq_some_iff] at h
  obtain ⟨⟨unit, after⟩, hhex, h⟩ := h
  have := scanHex_length_lt hhex
  split at h
  · obtain ⟨⟨low, after'⟩, hlow, h⟩ := Option.bind_eq_some_iff.1 h
    have := scanLowSurrogate_length_lt hlow
    simp only [Option.some.injEq, Prod.mk.injEq] at h
    rw [← h.2]
    dsimp only at *
    omega
  · split at h
    · simp at h
    · simp only [Option.some.injEq, Prod.mk.injEq] at h
      rw [← h.2]
      assumption

/-- So does any escape. -/
theorem scanEscape_length_lt {s rest : List Char} {c : Char}
    (h : scanEscape s = some (c, rest)) : rest.length < s.length := by
  rw [scanEscape.eq_def] at h
  split at h
  · simp at h
  · repeat' split at h
    all_goals first
      | (simp only [Option.some.injEq, Prod.mk.injEq] at h; simp [h.2])
      | exact Nat.lt_succ_of_lt (scanCodePoint_length_lt h)
      | simp at h

/-- The string up to the next bare quotation mark, and the text after that mark. -/
def scan (s : List Char) : Option (List Char × List Char) :=
  match s with
  | [] => none
  | c :: rest =>
    if c = '"' then some ([], rest)
    else if c = '\\' then
      match (scanEscape rest).attach with
      | none => none
      | some ⟨(e, after), _h⟩ => (scan after).map fun (text, after) => (e :: text, after)
    else if c.toNat < 0x20 then none
    else (scan rest).map fun (text, after) => (c :: text, after)
termination_by s.length
decreasing_by
  · have := scanEscape_length_lt _h
    simp only [List.length_cons]
    omega
  · simp

/-- A scanned string takes at least its closing mark. -/
theorem scan_length_lt {s text rest : List Char} (h : scan s = some (text, rest)) :
    rest.length < s.length := by
  induction hn : s.length using Nat.strongRecOn generalizing s text rest with
  | ind n ih =>
    subst hn
    rw [scan.eq_def] at h
    split at h
    · simp at h
    · next c s' =>
      split at h
      · simp only [Option.some.injEq, Prod.mk.injEq] at h
        simp [h.2]
      · split at h
        · split at h
          · simp at h
          · next e after he _ =>
            have hlt := scanEscape_length_lt he
            obtain ⟨⟨t, r⟩, hscan, h⟩ := Option.map_eq_some_iff.1 h
            have := ih after.length (by simp only [List.length_cons]; omega) hscan rfl
            simp only [Prod.mk.injEq] at h
            simp only [List.length_cons, ← h.2]
            omega
        · split at h
          · simp at h
          · obtain ⟨⟨t, r⟩, hscan, h⟩ := Option.map_eq_some_iff.1 h
            have := ih s'.length (by simp) hscan rfl
            simp only [Prod.mk.injEq] at h
            simp only [List.length_cons, ← h.2]
            omega

end Transclude.Json.Quoted
