import GroupKey.Bytes
import GroupKey.Curve.Field

/-!
# The base field of BLS12-381

Integers modulo the prime of the curve. Sums and differences are brought back below the prime
by one subtraction or addition, products by a remainder.
-/

namespace GroupKey.Curve

/-- The prime of the base field. -/
def modulus : Nat :=
  0x1a0111ea397fe69a4b1ba7b6434bacd764774b84f38512bf6730d2a0f6b0f6241eabfffeb153ffffb9feffffffffaaab

theorem modulus_pos : 0 < modulus := by decide

/-- An integer modulo the prime. -/
structure Fp where
  val : Nat
  isLt : val < modulus
  deriving DecidableEq

namespace Fp

/-- The residue of a natural number. -/
@[inline] def ofNat (n : Nat) : Fp := ⟨n % modulus, Nat.mod_lt _ modulus_pos⟩

/-- The sum of two residues. -/
@[inline] def add (a b : Fp) : Fp :=
  let s := a.val + b.val
  if h : s < modulus then ⟨s, h⟩
  else ⟨s - modulus, by have := a.isLt; have := b.isLt; omega⟩

/-- The difference of two residues. -/
@[inline] def sub (a b : Fp) : Fp :=
  if h : b.val ≤ a.val then ⟨a.val - b.val, by have := a.isLt; omega⟩
  else ⟨a.val + modulus - b.val, by have := a.isLt; have := b.isLt; omega⟩

/-- The product of two residues. -/
@[inline] def mul (a b : Fp) : Fp := ofNat (a.val * b.val)

/-- The negative of a residue. -/
@[inline] def neg (a : Fp) : Fp :=
  if h : a.val = 0 then a else ⟨modulus - a.val, by have := a.isLt; omega⟩

/-- The steps of Euclid's algorithm: each remainder `r` comes with an `s` such that `s` times the
number to be inverted is `r` modulo the prime. -/
def inverseFrom : (fuel : Nat) → (r₀ r₁ : Nat) → (s₀ s₁ : Int) → Int
  | 0, _, _, s₀, _ => s₀
  | fuel + 1, r₀, r₁, s₀, s₁ =>
    if r₁ = 0 then s₀
    else
      let quotient := r₀ / r₁
      inverseFrom fuel r₁ (r₀ - quotient * r₁) s₁ (s₀ - quotient * s₁)

/-- The inverse of a residue; zero for zero. A remainder at least halves in two steps, so that
twice the bits of the prime are steps enough. -/
def inverse (a : Fp) : Fp :=
  if a.val = 0 then a
  else ofNat ((inverseFrom 800 modulus a.val 0 1) % (modulus : Int)).toNat

instance : FieldOps Fp where
  add := add
  sub := sub
  mul := mul
  neg := neg
  zero := ⟨0, modulus_pos⟩
  one := ⟨1, by decide⟩
  square a := mul a a
  inverse := inverse
  decEq := inferInstance

/-- A power of a residue. -/
def pow (a : Fp) (e : Nat) : Fp := power square mul 1 a e

/-- A square root, if there is one. The prime is 3 modulo 4, so that the power by a quarter of
its successor is a root of every square. -/
def sqrt? (a : Fp) : Option Fp :=
  let root := a.pow ((modulus + 1) / 4)
  if square root = a then some root else none

/-- Whether a residue is larger than its negative. -/
def isLarge (a : Fp) : Bool := (modulus - 1) / 2 < a.val

/-- The number of bytes of a residue. -/
def byteCount : Nat := 48

/-- The bytes of a residue, most significant first. -/
def toBytes (a : Fp) : Bytes := Bytes.ofNatBE byteCount a.val

/-- The residue with the given bytes, which have to spell a number below the prime. -/
def ofBytes? (bytes : Bytes) : Option Fp :=
  let n := Bytes.toNatBE bytes
  if h : n < modulus then some ⟨n, h⟩ else none

/-- All digits of a residue in hexadecimal. -/
def render (a : Fp) : String := "0x" ++ Bytes.toHex a.toBytes

end Fp

end GroupKey.Curve
