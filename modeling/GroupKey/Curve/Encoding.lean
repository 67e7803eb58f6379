import GroupKey.Curve.Groups

/-!
# Compressed points

A point is written as its abscissa, most significant byte first. Of the three spare bits at the
front the first marks the compressed form, the second the point at infinity and the third an
ordinate that is larger than its negative.
-/

namespace GroupKey.Curve

/-- The mark of the compressed form. -/
def compressedFlag : UInt8 := 0x80

/-- The mark of the point at infinity. -/
def infinityFlag : UInt8 := 0x40

/-- The mark of the larger ordinate. -/
def largeFlag : UInt8 := 0x20

/-- Sets bits of the first byte. -/
def withFlags (flags : UInt8) : Bytes → Bytes
  | [] => []
  | b :: bs => (b ||| flags) :: bs

/-- The compressed form of a point, from the byte form of its abscissa. -/
@[inline] def compress {F : Type} (width : Nat) (toBytes : F → Bytes) (isLarge : F → Bool) :
    Point F → Bytes
  | .infinity => withFlags (compressedFlag ||| infinityFlag) (List.replicate width 0)
  | .affine x y =>
    withFlags (compressedFlag ||| if isLarge y then largeFlag else 0) (toBytes x)

/-- The point with a compressed form, without regard to its order: the abscissa is read, and the
ordinate is the marked one of the two that the curve allows. -/
@[inline] def decompress? {F : Type} [FieldOps F] (b : F) (ofBytes? : Bytes → Option F)
    (sqrt? : F → Option F) (isLarge : F → Bool) : Bytes → Option (Point F)
  | [] => none
  | first :: rest => do
    let x ← ofBytes? ((first &&& 0x1f) :: rest)
    if first &&& compressedFlag = 0 then none
    else if first &&& infinityFlag ≠ 0 then
      if first &&& largeFlag = 0 ∧ x = 0 then some .infinity else none
    else
      let y ← sqrt? (square x * x + b)
      let wantLarge : Bool := first &&& largeFlag ≠ 0
      some (.affine x (if isLarge y = wantLarge then y else -y))

namespace Fp2

/-- The bytes of both parts, the part at `u` first. -/
def toBytes (a : Fp2) : Bytes := a.im.toBytes ++ a.re.toBytes

/-- The number whose parts have the given bytes, the part at `u` first. -/
def ofBytes? (bytes : Bytes) : Option Fp2 := do
  let im ← Fp.ofBytes? (bytes.take Fp.byteCount)
  let re ← Fp.ofBytes? (bytes.drop Fp.byteCount)
  return ⟨re, im⟩

end Fp2

/-- The compressed form of a point of the first group. -/
def compress1 (p : Point Fp) : Bytes := compress Fp.byteCount Fp.toBytes Fp.isLarge p

/-- The compressed form of a point of the second group. -/
def compress2 (p : Point Fp2) : Bytes := compress (2 * Fp.byteCount) Fp2.toBytes Fp2.isLarge p

/-- The member of the first group with the given compressed form. -/
def decompress1? (bytes : Bytes) : Option (Point Fp) :=
  (decompress? constant1 Fp.ofBytes? Fp.sqrt? Fp.isLarge bytes).filter fun p => InGroup1 p

/-- The member of the second group with the given compressed form. -/
def decompress2? (bytes : Bytes) : Option (Point Fp2) :=
  (decompress? constant2 Fp2.ofBytes? Fp2.sqrt? Fp2.isLarge bytes).filter fun p => InGroup2 p

end GroupKey.Curve
