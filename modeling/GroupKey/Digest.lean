import GroupKey.Bytes

/-!
# Digests

The value of a 256-bit hash function: thirty-two bytes.
-/

namespace GroupKey

/-- A hash value of thirty-two bytes. -/
structure Digest where
  bytes : Bytes
  length_bytes : bytes.length = 32
  deriving DecidableEq

namespace Digest

/-- Thirty-two zero bytes. -/
def zero : Digest := ⟨List.replicate 32 0, by simp⟩

instance : Inhabited Digest := ⟨zero⟩

/-- The digest that holds exactly the given bytes, if there are thirty-two of them. -/
def ofBytes? (bytes : Bytes) : Option Digest :=
  if h : bytes.length = 32 then some ⟨bytes, h⟩ else none

/-- The first eight bytes in hexadecimal, by which people tell digests apart. -/
def shortHex (d : Digest) : String := Bytes.toHex (d.bytes.take 8)

end Digest

end GroupKey
