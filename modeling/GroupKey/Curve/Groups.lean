import GroupKey.Curve.Point
import GroupKey.Curve.TowerField

/-!
# The source groups of BLS12-381

The first source group consists of the points of prime order on `y ^ 2 = x ^ 3 + 4` over the
base field, the second of those on `y ^ 2 = x ^ 3 + 4 (1 + u)` over its quadratic extension. On
either group a cheap endomorphism agrees with a multiple by a small power of the curve's
parameter, and no other points of the curve have that property; this is how membership is told.
-/

namespace GroupKey.Curve

/-- The order of the groups. -/
def groupOrder : Nat := 0x73eda753299d7d483339d80809a1d80553bda402fffe5bfeffffffff00000001

/-- The absolute value of the parameter of the curve, which is negative. -/
def parameter : Nat := 0xd201000000010000

/-! ## The first source group -/

/-- The constant of the curve of the first group. -/
def constant1 : Fp := Fp.ofNat 4

/-- The generator of the first group. -/
def generator1 : Point Fp :=
  .affine
    (Fp.ofNat 0x17f1d3a73197d7942695638c4fa9ac0fc3688c4f9774b905a14e3a3f171bac586c55e83ff97a1aeffb3af00adb22c6bb)
    (Fp.ofNat 0x08b3f481e3aaa0f1a09e30ed741d8ae4fcf5e095d5d00af600db18cb2c04b3edd03cc744a2888ae40caa232946c5e7e1)

/-- A primitive cube root of unity. -/
def cubeRoot : Fp := (Fp.ofNat 2).pow ((modulus - 1) / 3)

/-- The endomorphism that multiplies the abscissa by the cube root of unity. -/
def endomorphism1 : Point Fp → Point Fp
  | .infinity => .infinity
  | .affine x y => .affine (cubeRoot * x) y

/-- Whether a point of the first curve belongs to the group: the endomorphism multiplies it by
minus the square of the parameter. -/
def InGroup1 (p : Point Fp) : Prop :=
  endomorphism1 p = ((p.multiply parameter).multiply parameter).neg

instance (p : Point Fp) : Decidable (InGroup1 p) := inferInstanceAs (Decidable (_ = _))

/-! ## The second source group -/

/-- The constant of the curve of the second group. -/
def constant2 : Fp2 := ⟨Fp.ofNat 4, Fp.ofNat 4⟩

/-- The generator of the second group. -/
def generator2 : Point Fp2 :=
  .affine
    ⟨Fp.ofNat 0x024aa2b2f08f0a91260805272dc51051c6e47ad4fa403b02b4510b647ae3d1770bac0326a805bbefd48056c8c121bdb8,
      Fp.ofNat 0x13e02b6052719f607dacd3a088274f65596bd0d09920b61ab5da61bbdc7f5049334cf11213945d57e5ac7d055d042b7e⟩
    ⟨Fp.ofNat 0x0ce5d527727d6e118cc9cdc6da2e351aadfd9baa8cbdd3a76d429a695160d12c923ac9cc3baca289e193548608b82801,
      Fp.ofNat 0x0606c4a02ea734cc32acd2b02bc28b99cb3e287e85a763af267492ab572e99ab3f370d275cec1da1aaa9075ff05f79be⟩

/-- What the endomorphism of the second group multiplies conjugate abscissas with. -/
def twistX : Fp2 := Fp2.inverse (Fp2.xi.pow ((modulus - 1) / 3))

/-- What the endomorphism of the second group multiplies conjugate ordinates with. -/
def twistY : Fp2 := Fp2.inverse (Fp2.xi.pow ((modulus - 1) / 2))

/-- The power by the prime, carried over to the second curve. -/
def endomorphism2 : Point Fp2 → Point Fp2
  | .infinity => .infinity
  | .affine x y => .affine (x.conj * twistX) (y.conj * twistY)

/-- Whether a point of the second curve belongs to the group: the endomorphism multiplies it by
the parameter. -/
def InGroup2 (p : Point Fp2) : Prop := endomorphism2 p = (p.multiply parameter).neg

instance (p : Point Fp2) : Decidable (InGroup2 p) := inferInstanceAs (Decidable (_ = _))

end GroupKey.Curve
