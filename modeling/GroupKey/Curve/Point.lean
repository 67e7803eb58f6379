import GroupKey.Curve.Field

/-!
# Points of short Weierstrass curves

Points of a curve `y ^ 2 = x ^ 3 + b` with chord-and-tangent addition. A multiple of a point is
computed in Jacobian coordinates, where no division is needed until the end.
-/

namespace GroupKey.Curve

/-- A point of the plane or the point at infinity. -/
inductive Point (F : Type) where
  | infinity
  | affine (x y : F)
  deriving DecidableEq

/-- The point `(x / z ^ 2, y / z ^ 3)`, at infinity for `z = 0`. -/
structure Jacobian (F : Type) where
  x : F
  y : F
  z : F

variable {F : Type} [FieldOps F]

namespace Jacobian

/-- The point at infinity. -/
def infinity : Jacobian F := ⟨1, 1, 0⟩

/-- Twice a point. -/
@[specialize] def double (p : Jacobian F) : Jacobian F :=
  let a := square p.x
  let b := square p.y
  let c := square b
  let t := square (p.x + b) - a - c
  let d := t + t
  let e := a + a + a
  let x := square e - d - d
  let c2 := c + c
  let c4 := c2 + c2
  let yz := p.y * p.z
  ⟨x, e * (d - x) - (c4 + c4), yz + yz⟩

/-- The sum with the affine point `(x₂, y₂)`. -/
@[specialize] def addAffine (p : Jacobian F) (x₂ y₂ : F) : Jacobian F :=
  if p.z = 0 then ⟨x₂, y₂, 1⟩
  else
    let zz := square p.z
    let h := x₂ * zz - p.x
    let s := y₂ * p.z * zz - p.y
    if h = 0 then if s = 0 then p.double else infinity
    else
      let hh := square h
      let hhh := h * hh
      let v := p.x * hh
      let x := square s - hhh - v - v
      ⟨x, s * (v - x) - p.y * hhh, p.z * h⟩

/-- The same point with coordinates in the plane. -/
@[specialize] def toPoint (p : Jacobian F) : Point F :=
  if p.z = 0 then .infinity
  else
    let k := inverse p.z
    let kk := square k
    .affine (p.x * kk) (p.y * kk * k)

/-- Doubles `acc` for each of the low `bits` bits of `k`, highest first, and adds `(x, y)` where
the bit is set. -/
@[specialize] def multiplyFrom (x y : F) (k : Nat) : (bits : Nat) → Jacobian F → Jacobian F
  | 0, acc => acc
  | bits + 1, acc =>
    let acc := acc.double
    multiplyFrom x y k bits (if k.testBit bits then acc.addAffine x y else acc)

end Jacobian

namespace Point

/-- The reflection of a point. -/
def neg : Point F → Point F
  | infinity => infinity
  | affine x y => affine x (-y)

/-- The third point on the line of the given slope through two points with abscissas `x₁` and
`x₂`, the first with ordinate `y₁`, reflected. -/
@[inline] def onLine (slope x₁ y₁ x₂ : F) : Point F :=
  let x := square slope - x₁ - x₂
  affine x (slope * (x₁ - x) - y₁)

/-- The sum of two points by chord and tangent. -/
@[specialize] def add : Point F → Point F → Point F
  | infinity, q => q
  | p, infinity => p
  | affine x₁ y₁, affine x₂ y₂ =>
    if x₁ = x₂ then
      if y₁ + y₂ = 0 then infinity
      else
        let a := square x₁
        onLine ((a + a + a) * inverse (y₁ + y₁)) x₁ y₁ x₂
    else onLine ((y₂ - y₁) * inverse (x₂ - x₁)) x₁ y₁ x₂

/-- A multiple of a point. -/
@[specialize] def multiply (k : Nat) : Point F → Point F
  | infinity => infinity
  | affine x y => (Jacobian.multiplyFrom x y k (k.log2 + 1) .infinity).toPoint

end Point

end GroupKey.Curve
