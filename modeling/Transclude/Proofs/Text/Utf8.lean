import Transclude.Text.Utf8

/-!
# Texts survive as bytes

Decoding undoes encoding, character by character: the first byte of a character announces the
bits that it carries and how many bytes follow, and every following byte adds six bits.

Main results:

- Theorem {lit}`Utf8.decodeFrom_encodeChar`: the bytes of a character are decoded to it.
- Theorem {lit}`Utf8.decode_encode`: the bytes of a text are decoded to it.
-/

namespace Transclude.Utf8

/-- The number of a character is no surrogate and at most the last one. -/
theorem toNat_bounds (c : Char) :
    c.toNat < 0xD800 ∨ (0xDFFF < c.toNat ∧ c.toNat < 0x110000) :=
  c.valid

/-- A number below 256 is the value of its byte. -/
theorem toNat_byte {n : Nat} (h : n < 0x100) : (UInt8.ofNat n).toNat = n := by
  rw [UInt8.toNat_ofNat']
  exact Nat.mod_eq_of_lt h

/-! ## Bytes in the middle of a character -/

/-- The last byte of a character adds its six bits, and the character is complete. -/
theorem continueFrom_last (index seen value low high bits : Nat) (rest : List UInt8)
    (hbits : bits < 0x40) (hlow : low ≤ 0x80 + bits) (hhigh : 0x80 + bits ≤ high) :
    continueFrom index seen ⟨value, 1, low, high⟩ (UInt8.ofNat (0x80 + bits) :: rest) =
      (decodeFrom (index + seen + 1) rest).map (Char.ofNat (value * 0x40 + bits) :: ·) := by
  have hbyte : (UInt8.ofNat (0x80 + bits)).toNat = 0x80 + bits := toNat_byte (by omega)
  rw [continueFrom]
  simp only [hbyte, hlow, hhigh, and_self, if_true, Nat.le_refl, Nat.add_sub_cancel_left]

/-- Any other byte after the first adds its six bits, and one byte less is missing. -/
theorem continueFrom_inner (index seen value missing low high bits : Nat) (rest : List UInt8)
    (hmissing : 0 < missing) (hbits : bits < 0x40) (hlow : low ≤ 0x80 + bits)
    (hhigh : 0x80 + bits ≤ high) :
    continueFrom index seen ⟨value, missing + 1, low, high⟩
        (UInt8.ofNat (0x80 + bits) :: rest) =
      continueFrom index (seen + 1) ⟨value * 0x40 + bits, missing, 0x80, 0xBF⟩ rest := by
  have hbyte : (UInt8.ofNat (0x80 + bits)).toNat = 0x80 + bits := toNat_byte (by omega)
  have hmore : ¬ missing + 1 ≤ 1 := by omega
  rw [continueFrom]
  simp only [hbyte, hlow, hhigh, and_self, if_true, if_neg hmore, Nat.add_sub_cancel_left,
    Nat.add_sub_cancel]

/-! ## First bytes -/

/-- The first of two bytes. -/
theorem lead?_two {n : Nat} (hlow : 0x80 ≤ n) (hhigh : n < 0x800) :
    lead? (0xC0 + n / 0x40) = some ⟨n / 0x40, 1, 0x80, 0xBF⟩ := by
  have hlead : ¬ 0xC0 + n / 0x40 < 0xC2 := by omega
  have htwo : 0xC0 + n / 0x40 < 0xE0 := by omega
  rw [lead?, if_neg hlead, if_pos htwo, Nat.add_sub_cancel_left]

/-- The first of three bytes admits the second one, which is that of no overlong form and no
surrogate. -/
theorem lead?_three {n : Nat} (hlow : 0x800 ≤ n) (hhigh : n < 0x10000)
    (hvalid : n < 0xD800 ∨ 0xDFFF < n) :
    ∃ low high, lead? (0xE0 + n / 0x1000) = some ⟨n / 0x1000, 2, low, high⟩ ∧
      low ≤ 0x80 + n / 0x40 % 0x40 ∧ 0x80 + n / 0x40 % 0x40 ≤ high := by
  have hlead : ¬ 0xE0 + n / 0x1000 < 0xC2 := by omega
  have htwo : ¬ 0xE0 + n / 0x1000 < 0xE0 := by omega
  rw [lead?, if_neg hlead, if_neg htwo]
  by_cases hzero : n / 0x1000 = 0
  · refine ⟨0xA0, 0xBF, ?_, by omega, by omega⟩
    rw [hzero]
    rfl
  by_cases hsurrogates : n / 0x1000 = 0xD
  · refine ⟨0x80, 0x9F, ?_, by omega, by omega⟩
    rw [hsurrogates]
    rfl
  refine ⟨0x80, 0xBF, ?_, by omega, by omega⟩
  rw [if_neg (by omega), if_neg (by omega), if_pos (by omega), Nat.add_sub_cancel_left]

/-- The first of four bytes admits the second one, which is that of no overlong form and of no
number past the last character. -/
theorem lead?_four {n : Nat} (hlow : 0x10000 ≤ n) (hhigh : n < 0x110000) :
    ∃ low high, lead? (0xF0 + n / 0x40000) = some ⟨n / 0x40000, 3, low, high⟩ ∧
      low ≤ 0x80 + n / 0x1000 % 0x40 ∧ 0x80 + n / 0x1000 % 0x40 ≤ high := by
  have hcases : n / 0x40000 = 0 ∨ n / 0x40000 = 1 ∨ n / 0x40000 = 2 ∨ n / 0x40000 = 3 ∨
      n / 0x40000 = 4 := by omega
  rcases hcases with h | h | h | h | h
  · refine ⟨0x90, 0xBF, ?_, by omega, by omega⟩
    rw [h]
    rfl
  · refine ⟨0x80, 0xBF, ?_, by omega, by omega⟩
    rw [h]
    rfl
  · refine ⟨0x80, 0xBF, ?_, by omega, by omega⟩
    rw [h]
    rfl
  · refine ⟨0x80, 0xBF, ?_, by omega, by omega⟩
    rw [h]
    rfl
  · refine ⟨0x80, 0x8F, ?_, by omega, by omega⟩
    rw [h]
    rfl

/-! ## Characters and texts -/

/-- A first byte past the ASCII ones hands over to what it announces. -/
theorem decodeFrom_lead {index b : Nat} {pending : Pending} (hb : 0x80 ≤ b) (hbyte : b < 0x100)
    (hlead : lead? b = some pending) (rest : List UInt8) :
    decodeFrom index (UInt8.ofNat b :: rest) = continueFrom index 1 pending rest := by
  rw [decodeFrom, toNat_byte hbyte, if_neg (Nat.not_lt.2 hb), hlead]

/-- The bytes of a character are decoded to it, whatever follows. -/
theorem decodeFrom_encodeChar (index : Nat) (c : Char) (rest : List UInt8) :
    decodeFrom index (encodeChar c ++ rest) =
      (decodeFrom (index + (encodeChar c).length) rest).map (c :: ·) := by
  have hvalid := toNat_bounds c
  obtain ⟨n, hn⟩ : ∃ n, n = c.toNat := ⟨_, rfl⟩
  have hc : Char.ofNat n = c := hn ▸ Char.ofNat_toNat c
  rw [← hn] at hvalid
  rw [encodeChar, ← hn]
  split
  · next hone =>
    rw [List.singleton_append, decodeFrom, toNat_byte (by omega), if_pos hone, hc]
    rfl
  split
  · next hone htwo =>
    rw [List.cons_append, List.singleton_append,
      decodeFrom_lead (by omega) (by omega) (lead?_two (by omega) htwo),
      continueFrom_last index 1 _ _ _ _ rest (by omega) (by omega) (by omega),
      Nat.div_add_mod', hc]
    rfl
  split
  · next hone htwo hthree =>
    obtain ⟨low, high, hlead, hlow, hhigh⟩ := lead?_three (by omega) hthree (by omega)
    have hvalue : (n / 0x1000 * 0x40 + n / 0x40 % 0x40) * 0x40 + n % 0x40 = n := by omega
    rw [List.cons_append, List.cons_append, List.singleton_append,
      decodeFrom_lead (by omega) (by omega) hlead,
      continueFrom_inner index 1 _ 1 _ _ _ _ Nat.one_pos (by omega) hlow hhigh,
      continueFrom_last index 2 _ _ _ _ rest (by omega) (by omega) (by omega), hvalue, hc]
    rfl
  · next hone htwo hthree =>
    obtain ⟨low, high, hlead, hlow, hhigh⟩ := lead?_four (n := n) (by omega) (by omega)
    have hvalue : ((n / 0x40000 * 0x40 + n / 0x1000 % 0x40) * 0x40 + n / 0x40 % 0x40) * 0x40 +
        n % 0x40 = n := by omega
    rw [List.cons_append, List.cons_append, List.cons_append, List.singleton_append,
      decodeFrom_lead (by omega) (by omega) hlead,
      continueFrom_inner index 1 _ 2 _ _ _ _ Nat.two_pos (by omega) hlow hhigh,
      continueFrom_inner index 2 _ 1 _ _ _ _ Nat.one_pos (by omega) (by omega) (by omega),
      continueFrom_last index 3 _ _ _ _ rest (by omega) (by omega) (by omega), hvalue, hc]
    rfl

/-- The bytes of characters are decoded to them, from whatever index on. -/
theorem decodeFrom_encodeChars (index : Nat) (cs : List Char) :
    decodeFrom index (cs.flatMap encodeChar) = .ok cs := by
  induction cs generalizing index with
  | nil => rw [List.flatMap_nil, decodeFrom]
  | cons c cs ih =>
    rw [List.flatMap_cons, decodeFrom_encodeChar, ih]
    rfl

/-- The bytes of a text are decoded to it. -/
theorem decode_encode (s : String) : decode (encode s) = .ok s := by
  rw [decode, encode, decodeFrom_encodeChars]
  exact congrArg Except.ok String.ofList_toList

end Transclude.Utf8
