import GroupKey.Curve.BaseField

/-!
# The quadratic extension

Numbers `re + im * u` over the base field with `u * u = -1`. Products are multiplied out before
they are reduced.
-/

namespace GroupKey.Curve

/-- A number `re + im * u` with `u * u = -1`. -/
structure Fp2 where
  re : Fp
  im : Fp
  deriving DecidableEq

namespace Fp2

/-- The square of the prime, a multiple of it above every product of residues. -/
def modulusSquared : Nat := modulus * modulus

@[inline] def add (a b : Fp2) : Fp2 := ⟨a.re + b.re, a.im + b.im⟩

@[inline] def sub (a b : Fp2) : Fp2 := ⟨a.re - b.re, a.im - b.im⟩

@[inline] def neg (a : Fp2) : Fp2 := ⟨-a.re, -a.im⟩

/-- The product, by three products of natural numbers. -/
def mul (a b : Fp2) : Fp2 :=
  let re := a.re.val * b.re.val
  let im := a.im.val * b.im.val
  let mixed := (a.re.val + a.im.val) * (b.re.val + b.im.val)
  ⟨Fp.ofNat (re + modulusSquared - im), Fp.ofNat (mixed - re - im)⟩

/-- The square, by two products of natural numbers. -/
def square (a : Fp2) : Fp2 :=
  ⟨Fp.ofNat ((a.re.val + a.im.val) * (a.re.val + modulus - a.im.val)),
    Fp.ofNat (2 * (a.re.val * a.im.val))⟩

/-- The number with the sign of `u` changed. -/
@[inline] def conj (a : Fp2) : Fp2 := ⟨a.re, -a.im⟩

/-- The product with an element of the base field. -/
@[inline] def scale (a : Fp2) (k : Fp) : Fp2 := ⟨a.re * k, a.im * k⟩

/-- The product of a number and its conjugate. -/
def norm (a : Fp2) : Fp := Curve.square a.re + Curve.square a.im

/-- The inverse; zero for zero. -/
def inverse (a : Fp2) : Fp2 := a.conj.scale (Curve.inverse a.norm)

instance : FieldOps Fp2 where
  add := add
  sub := sub
  mul := mul
  neg := neg
  zero := ⟨0, 0⟩
  one := ⟨1, 0⟩
  square := square
  inverse := inverse
  decEq := inferInstance

/-- The product with `1 + u`, of which the next extension adjoins a cube root. -/
@[inline] def mulByXi (a : Fp2) : Fp2 := ⟨a.re - a.im, a.re + a.im⟩

/-- The number `1 + u`. -/
def xi : Fp2 := ⟨1, 1⟩

/-- A power. -/
def pow (a : Fp2) (e : Nat) : Fp2 := power square mul 1 a e

/-- One half in the base field. -/
def half : Fp := Fp.ofNat ((modulus + 1) / 2)

/-- A square root, if there is one. With `s` a root of the norm, the square of the real part of a
root is the mean of the real part and `s` or `-s`. -/
def sqrt? (a : Fp2) : Option Fp2 := do
  if a.im = 0 then
    match a.re.sqrt? with
    | some root => return ⟨root, 0⟩
    | none => return ⟨0, ← (-a.re).sqrt?⟩
  else
    let s ← a.norm.sqrt?
    let re ← ((a.re + s) * half).sqrt? <|> ((a.re - s) * half).sqrt?
    let root : Fp2 := ⟨re, a.im * half * Curve.inverse re⟩
    if square root = a then some root else none

/-- Whether a number is larger than its negative, the part at `u` counting first. -/
def isLarge (a : Fp2) : Bool := a.im.isLarge || (a.im = 0 && a.re.isLarge)

/-- Both parts in hexadecimal. -/
def render (a : Fp2) : String := a.re.render ++ " + " ++ a.im.render ++ "*u"

end Fp2

end GroupKey.Curve
