import GroupKey.Curve.QuadraticField

/-!
# The extensions of degree six and twelve

The cubic extension adjoins `v` with `v ^ 3 = 1 + u`, and on top of it the quadratic extension
adjoins `w` with `w ^ 2 = v`. Values of the pairing lie in the upper field.
-/

namespace GroupKey.Curve

/-- A number `c0 + c1 * v + c2 * v ^ 2` with `v ^ 3 = 1 + u`. -/
structure Fp6 where
  c0 : Fp2
  c1 : Fp2
  c2 : Fp2
  deriving DecidableEq

namespace Fp6

instance : Zero Fp6 := ⟨⟨0, 0, 0⟩⟩
instance : One Fp6 := ⟨⟨1, 0, 0⟩⟩
instance : Add Fp6 := ⟨fun a b => ⟨a.c0 + b.c0, a.c1 + b.c1, a.c2 + b.c2⟩⟩
instance : Sub Fp6 := ⟨fun a b => ⟨a.c0 - b.c0, a.c1 - b.c1, a.c2 - b.c2⟩⟩
instance : Neg Fp6 := ⟨fun a => ⟨-a.c0, -a.c1, -a.c2⟩⟩

/-- The product, by six products in the field below. -/
def mul (a b : Fp6) : Fp6 :=
  let t0 := a.c0 * b.c0
  let t1 := a.c1 * b.c1
  let t2 := a.c2 * b.c2
  ⟨t0 + ((a.c1 + a.c2) * (b.c1 + b.c2) - t1 - t2).mulByXi,
    (a.c0 + a.c1) * (b.c0 + b.c1) - t0 - t1 + t2.mulByXi,
    (a.c0 + a.c2) * (b.c0 + b.c2) - t0 - t2 + t1⟩

instance : Mul Fp6 := ⟨mul⟩

/-- The product with `v`. -/
def mulByV (a : Fp6) : Fp6 := ⟨a.c2.mulByXi, a.c0, a.c1⟩

/-- The product with `b0 + b1 * v`. -/
def mulBy01 (a : Fp6) (b0 b1 : Fp2) : Fp6 :=
  let t0 := a.c0 * b0
  let t1 := a.c1 * b1
  ⟨t0 + ((a.c1 + a.c2) * b1 - t1).mulByXi, (a.c0 + a.c1) * (b0 + b1) - t0 - t1,
    (a.c0 + a.c2) * b0 - t0 + t1⟩

/-- The product with `b1 * v`. -/
def mulBy1 (a : Fp6) (b1 : Fp2) : Fp6 := ⟨(a.c2 * b1).mulByXi, a.c0 * b1, a.c1 * b1⟩

/-- The inverse; zero for zero. -/
def inverse (a : Fp6) : Fp6 :=
  let t0 := square a.c0 - (a.c1 * a.c2).mulByXi
  let t1 := (square a.c2).mulByXi - a.c0 * a.c1
  let t2 := square a.c1 - a.c0 * a.c2
  let norm := a.c0 * t0 + (a.c2 * t1 + a.c1 * t2).mulByXi
  let k := Curve.inverse norm
  ⟨t0 * k, t1 * k, t2 * k⟩

/-- The coefficients as text. -/
def render (a : Fp6) : String :=
  a.c0.render ++ " + (" ++ a.c1.render ++ ")*v + (" ++ a.c2.render ++ ")*v^2"

end Fp6

/-- A number `c0 + c1 * w` with `w ^ 2 = v`. -/
structure Fp12 where
  c0 : Fp6
  c1 : Fp6
  deriving DecidableEq

namespace Fp12

instance : One Fp12 := ⟨⟨1, 0⟩⟩

/-- The product, by three products in the field below. -/
def mul (a b : Fp12) : Fp12 :=
  let t0 := a.c0 * b.c0
  let t1 := a.c1 * b.c1
  ⟨t0 + t1.mulByV, (a.c0 + a.c1) * (b.c0 + b.c1) - t0 - t1⟩

instance : Mul Fp12 := ⟨mul⟩

/-- The square, by two products in the field below. -/
def square (a : Fp12) : Fp12 :=
  let t := a.c0 * a.c1
  ⟨(a.c0 + a.c1) * (a.c0 + a.c1.mulByV) - t - t.mulByV, t + t⟩

/-- The square of `a + b * s` for a square root `s` of `v`, in the field of degree four. -/
def squarePair (a b : Fp2) : Fp2 × Fp2 :=
  let aa := Curve.square a
  let bb := Curve.square b
  (bb.mulByXi + aa, Curve.square (a + b) - aa - bb)

/-- The square of a number of norm one whose order divides `p ^ 4 - p ^ 2 + 1`, by three squares
in the field of degree four. -/
def squareUnit (a : Fp12) : Fp12 :=
  let minus (t z : Fp2) : Fp2 := let d := t - z; d + d + t
  let plus (t z : Fp2) : Fp2 := let d := t + z; d + d + t
  let (t0, t1) := squarePair a.c0.c0 a.c1.c1
  let (t2, t3) := squarePair a.c1.c0 a.c0.c2
  let (t4, t5) := squarePair a.c0.c1 a.c1.c2
  ⟨⟨minus t0 a.c0.c0, minus t2 a.c0.c1, minus t4 a.c0.c2⟩,
    ⟨plus t5.mulByXi a.c1.c0, plus t1 a.c1.c1, plus t3 a.c1.c2⟩⟩

/-- The product with `b0 + b1 * v + b4 * v * w`. -/
def mulBy014 (a : Fp12) (b0 b1 b4 : Fp2) : Fp12 :=
  let t0 := a.c0.mulBy01 b0 b1
  let t1 := a.c1.mulBy1 b4
  ⟨t1.mulByV + t0, (a.c1 + a.c0).mulBy01 b0 (b1 + b4) - t0 - t1⟩

/-- The number with the sign of `w` changed: the power by `p ^ 6`, and the inverse of a number of
norm one. -/
def conj (a : Fp12) : Fp12 := ⟨a.c0, -a.c1⟩

/-- The inverse; zero for zero. -/
def inverse (a : Fp12) : Fp12 :=
  let k := (a.c0 * a.c0 - (a.c1 * a.c1).mulByV).inverse
  ⟨a.c0 * k, -(a.c1 * k)⟩

/-- The sixth part of `p - 1` as a power of `1 + u`: what the power by `p` multiplies `w` with. -/
def gamma : Fp2 := Fp2.xi.pow ((modulus - 1) / 6)

/-- The powers of `gamma` up to the fifth. -/
def gammaPowers : Array Fp2 := Array.ofFn fun i : Fin 6 => gamma.pow i

/-- The power by `p` of a coefficient at `w ^ i`. -/
def frobeniusPart (i : Nat) (a : Fp2) : Fp2 := a.conj * gammaPowers.getD i 1

/-- The power by `p`. -/
def frobenius (a : Fp12) : Fp12 :=
  ⟨⟨a.c0.c0.conj, frobeniusPart 2 a.c0.c1, frobeniusPart 4 a.c0.c2⟩,
    ⟨frobeniusPart 1 a.c1.c0, frobeniusPart 3 a.c1.c1, frobeniusPart 5 a.c1.c2⟩⟩

/-- A power. -/
def pow (a : Fp12) (e : Nat) : Fp12 := power square mul 1 a e

/-- The coefficients as text. -/
def render (a : Fp12) : String := a.c0.render ++ " + (" ++ a.c1.render ++ ")*w"

end Fp12

end GroupKey.Curve
