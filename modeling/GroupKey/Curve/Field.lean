/-!
# Fields

The operations that the curve formulas use, and powers by repeated squaring. The formulas are
the same over the base field and over its quadratic extension.
-/

namespace GroupKey.Curve

/-- The operations of a field. -/
class FieldOps (F : Type) extends Add F, Sub F, Mul F, Neg F, Zero F, One F where
  square : F → F
  /-- The multiplicative inverse; zero for zero. -/
  inverse : F → F
  decEq : DecidableEq F

instance {F : Type} [FieldOps F] : DecidableEq F := FieldOps.decEq

export FieldOps (square inverse)

/-- Multiplies `acc` by `base` to the low `bits` bits of `e`, highest first, squaring `acc` for each
bit. -/
@[specialize] def powerFrom {M : Type} (squareM : M → M) (mulM : M → M → M) (base : M) (e : Nat) :
    (bits : Nat) → (acc : M) → M
  | 0, acc => acc
  | bits + 1, acc =>
    let acc := squareM acc
    powerFrom squareM mulM base e bits (if e.testBit bits then mulM acc base else acc)

/-- The power of `base` to the `e`, for a multiplication with neutral element `one` and its
squares. -/
@[inline] def power {M : Type} (squareM : M → M) (mulM : M → M → M) (one base : M) (e : Nat) : M :=
  powerFrom squareM mulM base e (e.log2 + 1) one

end GroupKey.Curve
