import GroupKey.Bytes

/-!
# Slot bitmaps

The occupied slots of a group, one bit per slot. Slot `p` is bit `7 - p % 8` of byte `p / 8`,
so that slots run from the most significant bit down. Positions past the end count as free and
cannot be occupied.
-/

namespace GroupKey

/-- A set of slots, one bit each. -/
structure Bitmap where
  bytes : Bytes
  deriving DecidableEq

namespace Bitmap

/-- The bytes needed for `scale` slots, in whole 64-bit words. -/
def byteCount (scale : Nat) : Nat := (scale + 63) / 64 * 8

/-- A bitmap for `scale` slots with none occupied. -/
def free (scale : Nat) : Bitmap := ⟨List.replicate (byteCount scale) 0⟩

/-- The bit of a slot within its byte. -/
def mask (slot : UInt32) : UInt8 := 0x80 >>> UInt8.ofNat (slot.toNat % 8)

/-- Whether a slot is occupied. -/
def isOccupied (b : Bitmap) (slot : UInt32) : Bool :=
  match b.bytes[slot.toNat / 8]? with
  | some byte => byte &&& mask slot != 0
  | none => false

/-- Occupies a slot. -/
def occupy (b : Bitmap) (slot : UInt32) : Bitmap :=
  ⟨b.bytes.modify (slot.toNat / 8) (· ||| mask slot)⟩

/-- The slots below `count`, counted modulo `2 ^ 32`, in ascending order. -/
def slotsBelow (count : Nat) : List UInt32 :=
  (List.range (UInt32.ofNat count).toNat).map UInt32.ofNat

/-- The occupied slots in ascending order. -/
def occupied (b : Bitmap) : List UInt32 := (slotsBelow (b.bytes.length * 8)).filter b.isOccupied

/-- The slots of byte `i` whose bits are set in `bits`. -/
def slotsOfByte (i : Nat) (bits : UInt8) : List UInt32 :=
  ((List.range 8).filter fun bit => bits &&& (0x80 >>> UInt8.ofNat bit) != 0).map fun bit =>
    UInt32.ofNat (i * 8 + bit)

/-- The slots on which two bitmaps differ, as far as both reach, in ascending order. -/
def diff (a b : Bitmap) : List UInt32 :=
  ((List.zipWith (· ^^^ ·) a.bytes b.bytes).zipIdx).flatMap fun (bits, i) => slotsOfByte i bits

end Bitmap

end GroupKey
