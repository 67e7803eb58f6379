import GroupKey.Curve.Encoding
import GroupKey.Curve.Pairing
import GroupKey.Digest.Sha256
import GroupKey.Suite

/-!
# The suite that the program runs with

BLS12-381 with SHA-256. Points are kept in the plane, where equal points are equal values.
-/

namespace GroupKey.Curve

theorem groupOrder_pos : 0 < groupOrder := by decide

/-- The operations of either source group. -/
def pointOps (F : Type) [FieldOps F] : GroupOps groupOrder (Point F) where
  zero := .infinity
  add := Point.add
  neg := Point.neg
  smul k := Point.multiply k.val
  decEq := inferInstance

/-- The operations of the target group, where sums are products. -/
def targetOps : GroupOps groupOrder Fp12 where
  zero := 1
  add := Fp12.mul
  neg := Fp12.conj
  smul k f := f.pow k.val
  decEq := inferInstance

/-- BLS12-381 with SHA-256. -/
def suite : Suite where
  order := groupOrder
  order_pos := groupOrder_pos
  G1 := Point Fp
  G2 := Point Fp2
  GT := Fp12
  ops1 := pointOps Fp
  ops2 := pointOps Fp2
  opsT := targetOps
  base1 := generator1
  base2 := generator2
  pair := pairing
  hash := sha256
  write1 := compress1
  read1? := decompress1?
  write2 := compress2
  read2? := decompress2?
  textT := pairingText

end GroupKey.Curve
