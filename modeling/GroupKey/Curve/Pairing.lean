import GroupKey.Curve.Groups

/-!
# The pairing of BLS12-381

The optimal ate pairing: a product of line functions along the multiples of a point of the
second group, evaluated at a point of the first, and raised to a power that leaves a root of
unity of the group order. The power taken is three times the smallest such power.
-/

namespace GroupKey.Curve

/-- The coefficients of a line through multiples of a point of the second group. -/
structure Line where
  atY : Fp2
  atX : Fp2
  free : Fp2

/-- Doubles a point and gives the tangent at it. -/
def tangent (p : Jacobian Fp2) : Line × Jacobian Fp2 :=
  let xx := square p.x
  let yy := square p.y
  let yyyy := square yy
  let t := square (p.x + yy) - xx - yyyy
  let d := t + t
  let e := xx + xx + xx
  let ee := square e
  let zz := square p.z
  let x := ee - d - d
  let z := square (p.z + p.y) - yy - zz
  let c2 := yyyy + yyyy
  let c4 := c2 + c2
  let y := (d - x) * e - (c4 + c4)
  let atX := e * zz
  let yy2 := yy + yy
  let atY := z * zz
  (⟨atY + atY, -(atX + atX), square (p.x + e) - xx - ee - (yy2 + yy2)⟩, ⟨x, y, z⟩)

/-- Adds the affine point `(x₂, y₂)` and gives the line through both points. -/
def chord (p : Jacobian Fp2) (x₂ y₂ : Fp2) : Line × Jacobian Fp2 :=
  let zz := square p.z
  let yy₂ := square y₂
  let u := zz * x₂
  let s := (square (y₂ + p.z) - yy₂ - zz) * zz
  let h := u - p.x
  let hh := square h
  let hh2 := hh + hh
  let hh4 := hh2 + hh2
  let hhh := hh4 * h
  let r := s - p.y - p.y
  let v := hh4 * p.x
  let x := square r - hhh - v - v
  let z := square (p.z + h) - zz - hh
  let yh := p.y * hhh
  let y := (v - x) * r - (yh + yh)
  let rx := r * x₂
  let free := rx + rx - (square (y₂ + z) - yy₂ - square z)
  (⟨z + z, -(r + r), free⟩, ⟨x, y, z⟩)

/-- Multiplies by the value of a line at the affine point `(x, y)`. -/
def timesLine (f : Fp12) (l : Line) (x y : Fp) : Fp12 :=
  f.mulBy014 l.free (l.atX.scale x) (l.atY.scale y)

/-- The product of the lines for the low `bits` bits of `k`, highest first. -/
def millerFrom (k : Nat) (px py : Fp) (qx qy : Fp2) :
    (bits : Nat) → (f : Fp12) → Jacobian Fp2 → Fp12
  | 0, f, _ => f
  | bits + 1, f, t =>
    let (line, t) := tangent t
    let f := timesLine f.square line px py
    if k.testBit bits then
      let (line, t) := chord t qx qy
      millerFrom k px py qx qy bits (timesLine f line px py) t
    else millerFrom k px py qx qy bits f t

/-- The product of lines for the parameter of the curve, with the sign of the parameter. -/
def miller (px py : Fp) (qx qy : Fp2) : Fp12 :=
  (millerFrom parameter px py qx qy parameter.log2 1 ⟨qx, qy, 1⟩).conj

/-- The power by the parameter of a number that `Fp12.squareUnit` squares. -/
def powParameter (f : Fp12) : Fp12 := (power Fp12.squareUnit Fp12.mul 1 f parameter).conj

/-- The power by three times `(p ^ 12 - 1) / q`. The first factors are `p ^ 6 - 1` and
`p ^ 2 + 1`; the last is `(z - 1) ^ 2 (z + p) (z ^ 2 + p ^ 2 - 1) + 3` for the parameter `z`. -/
def finalPower (f : Fp12) : Fp12 :=
  let f := f.conj * f.inverse
  let f := f.frobenius.frobenius * f
  let a := powParameter f * f.conj
  let a := powParameter a * a.conj
  let a := powParameter a * a.frobenius
  let a := powParameter (powParameter a) * a.frobenius.frobenius * a.conj
  a * (f.square * f)

/-- The pairing. -/
def pairing : Point Fp → Point Fp2 → Fp12
  | .affine px py, .affine qx qy => finalPower (miller px py qx qy)
  | _, _ => 1

/-- The text of a value of the pairing, all coefficients in hexadecimal. -/
def pairingText (f : Fp12) : Bytes :=
  ("Gt(" ++ f.render ++ ")").toList.map fun c => UInt8.ofNat c.toNat

end GroupKey.Curve
