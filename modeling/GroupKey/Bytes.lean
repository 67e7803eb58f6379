/-!
# Byte strings

Everything that is hashed, sent or drawn at random is a list of bytes. This module holds the
positional readings of such a list (most or least significant byte first), its hexadecimal
text, and the masking of one byte string by another.
-/

namespace GroupKey

/-- A byte string. -/
abbrev Bytes := List UInt8

namespace Bytes

/-! ## Positional numbers -/

/-- The `width` low bytes of `n`, most significant first. -/
def ofNatBE : (width : Nat) → Nat → Bytes
  | 0, _ => []
  | width + 1, n => ofNatBE width (n / 256) ++ [UInt8.ofNat n]

/-- The `width` low bytes of `n`, least significant first. -/
def ofNatLE : (width : Nat) → Nat → Bytes
  | 0, _ => []
  | width + 1, n => UInt8.ofNat n :: ofNatLE width (n / 256)

/-- The number whose bytes are listed, most significant first. -/
def toNatBE (bytes : Bytes) : Nat :=
  bytes.foldl (fun n b => n * 256 + b.toNat) 0

/-- The number whose bytes are listed, least significant first. -/
def toNatLE (bytes : Bytes) : Nat :=
  bytes.foldr (fun b n => b.toNat + 256 * n) 0

/-- Two bytes, most significant first. -/
def ofUInt16 (x : UInt16) : Bytes := ofNatBE 2 x.toNat

/-- Four bytes, most significant first. -/
def ofUInt32 (x : UInt32) : Bytes := ofNatBE 4 x.toNat

/-- Eight bytes, most significant first. -/
def ofUInt64 (x : UInt64) : Bytes := ofNatBE 8 x.toNat

@[simp] theorem length_ofNatBE (width n : Nat) : (ofNatBE width n).length = width := by
  induction width generalizing n with
  | zero => rfl
  | succ width ih => simp [ofNatBE, ih]

@[simp] theorem length_ofNatLE (width n : Nat) : (ofNatLE width n).length = width := by
  induction width generalizing n with
  | zero => rfl
  | succ width ih => simp [ofNatLE, ih]

@[simp] theorem length_ofUInt16 (x : UInt16) : (ofUInt16 x).length = 2 := by simp [ofUInt16]

@[simp] theorem length_ofUInt32 (x : UInt32) : (ofUInt32 x).length = 4 := by simp [ofUInt32]

@[simp] theorem length_ofUInt64 (x : UInt64) : (ofUInt64 x).length = 8 := by simp [ofUInt64]

/-! ## Masking -/

/-- Each byte of `data` combined by exclusive or with the byte of `mask` at its place. -/
def xor (data mask : Bytes) : Bytes := List.zipWith (· ^^^ ·) data mask

@[simp] theorem length_xor (data mask : Bytes) :
    (xor data mask).length = min data.length mask.length := by
  simp [xor]

/-! ## Hexadecimal text -/

/-- The lower-case digit of a number below 16. -/
def hexDigit (n : Nat) : Char :=
  if n < 10 then Char.ofNat ('0'.toNat + n) else Char.ofNat ('a'.toNat + (n - 10))

/-- The value of a hexadecimal digit of either case. -/
def hexValue? (c : Char) : Option Nat :=
  if '0' ≤ c ∧ c ≤ '9' then some (c.toNat - '0'.toNat)
  else if 'a' ≤ c ∧ c ≤ 'f' then some (c.toNat - 'a'.toNat + 10)
  else if 'A' ≤ c ∧ c ≤ 'F' then some (c.toNat - 'A'.toNat + 10)
  else none

/-- Two lower-case hexadecimal digits per byte. -/
def toHex (bytes : Bytes) : String :=
  String.ofList (bytes.flatMap fun b => [hexDigit (b.toNat / 16), hexDigit (b.toNat % 16)])

/-- Reads two hexadecimal digits per byte. -/
def ofHexDigits? : List Char → Option Bytes
  | [] => some []
  | [_] => none
  | hi :: lo :: rest => do
    let h ← hexValue? hi
    let l ← hexValue? lo
    let tail ← ofHexDigits? rest
    return UInt8.ofNat (16 * h + l) :: tail

/-- Reads a text of two hexadecimal digits per byte. -/
def ofHex? (text : String) : Option Bytes := ofHexDigits? text.toList

end Bytes

end GroupKey
