/-!
# UTF-8

Texts as bytes.  Decoding fails at the first sequence that encodes no character; the failure
tells where the valid part ends and how many bytes are wrong, or that the bytes end in the
middle of a character.

Main definitions:

- {lit}`Utf8.encode`: the bytes of a text.
- {lit}`Utf8.decode`: the text of some bytes, or where they go wrong.
- {lit}`Utf8.Fault.message`: the wording of a failure.
-/

namespace Transclude.Utf8

/-! ## Encoding -/

/-- The bytes of a character. -/
def encodeChar (c : Char) : List UInt8 :=
  let n := c.toNat
  if n < 0x80 then [UInt8.ofNat n]
  else if n < 0x800 then [UInt8.ofNat (0xC0 + n / 0x40), UInt8.ofNat (0x80 + n % 0x40)]
  else if n < 0x10000 then
    [UInt8.ofNat (0xE0 + n / 0x1000), UInt8.ofNat (0x80 + n / 0x40 % 0x40),
      UInt8.ofNat (0x80 + n % 0x40)]
  else
    [UInt8.ofNat (0xF0 + n / 0x40000), UInt8.ofNat (0x80 + n / 0x1000 % 0x40),
      UInt8.ofNat (0x80 + n / 0x40 % 0x40), UInt8.ofNat (0x80 + n % 0x40)]

/-- The bytes of a text. -/
def encode (s : String) : List UInt8 :=
  s.toList.flatMap encodeChar

/-! ## Decoding -/

/-- Where decoding fails: after how many bytes, and how many bytes after those can begin no
character; none when the bytes end too early. -/
structure Fault where
  validUpTo : Nat
  wrong : Option Nat
  deriving DecidableEq, Repr, Inhabited

/-- The wording of a failure. -/
def Fault.message (fault : Fault) : String :=
  match fault.wrong with
  | some n =>
    "invalid utf-8 sequence of " ++ toString n ++ " bytes from index " ++ toString fault.validUpTo
  | none => "incomplete utf-8 byte sequence from index " ++ toString fault.validUpTo

/-- A character of which some bytes are still to come: its leading bits, how many bytes are
missing, and between which bounds the next one has to lie. -/
structure Pending where
  value : Nat
  missing : Nat
  low : Nat
  high : Nat

/-- What a first byte from {lit}`0x80` on announces.  The bounds of the second byte exclude
overlong forms, surrogates and numbers past the last character. -/
def lead? (b : Nat) : Option Pending :=
  if b < 0xC2 then none
  else if b < 0xE0 then some ⟨b - 0xC0, 1, 0x80, 0xBF⟩
  else if b = 0xE0 then some ⟨0, 2, 0xA0, 0xBF⟩
  else if b = 0xED then some ⟨0xD, 2, 0x80, 0x9F⟩
  else if b < 0xF0 then some ⟨b - 0xE0, 2, 0x80, 0xBF⟩
  else if b = 0xF0 then some ⟨0, 3, 0x90, 0xBF⟩
  else if b < 0xF4 then some ⟨b - 0xF0, 3, 0x80, 0xBF⟩
  else if b = 0xF4 then some ⟨4, 3, 0x80, 0x8F⟩
  else none

mutual

/-- Decode bytes that begin at an index with a new character. -/
def decodeFrom (index : Nat) : List UInt8 → Except Fault (List Char)
  | [] => .ok []
  | b :: rest =>
    if b.toNat < 0x80 then
      (decodeFrom (index + 1) rest).map (Char.ofNat b.toNat :: ·)
    else
      match lead? b.toNat with
      | none => .error ⟨index, some 1⟩
      | some pending => continueFrom index 1 pending rest

/-- Decode bytes in the middle of a character, of which {lit}`seen` bytes have been read. -/
def continueFrom (index seen : Nat) (pending : Pending) : List UInt8 → Except Fault (List Char)
  | [] => .error ⟨index, none⟩
  | b :: rest =>
    if pending.low ≤ b.toNat ∧ b.toNat ≤ pending.high then
      let value := pending.value * 0x40 + (b.toNat - 0x80)
      if pending.missing ≤ 1 then
        (decodeFrom (index + seen + 1) rest).map (Char.ofNat value :: ·)
      else continueFrom index (seen + 1) ⟨value, pending.missing - 1, 0x80, 0xBF⟩ rest
    else .error ⟨index, some seen⟩

end

/-- The text of some bytes, or where they go wrong. -/
def decode (bytes : List UInt8) : Except Fault String :=
  (decodeFrom 0 bytes).map String.ofList

example : decode (encode "aé€😀") = .ok "aé€😀" := by cbv
example : decode [0x61, 0xE2, 0x82] = .error ⟨1, none⟩ := by cbv
example : decode [0xE2, 0x82, 0x41] = .error ⟨0, some 2⟩ := by cbv

end Transclude.Utf8
