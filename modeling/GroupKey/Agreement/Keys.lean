import GroupKey.GroupId
import GroupKey.Suite

/-!
# Keys, join proofs and ciphertexts

The values that the key agreement passes around, over an arbitrary suite. A group's encryption
key is the sum of one contribution per slot; `mu` stands for the target-group element
`e(mu, g0)`, because it has a byte form and the target group has none.
-/

namespace GroupKey

/-- A node's secret exponents. -/
structure SecretKey (S : Suite) where
  x1 : S.Scalar
  x2 : S.Scalar

/-- The public counterpart of a secret key, as published in the directory. -/
structure PublicKey (S : Suite) where
  y1 : S.G1
  y2 : S.G1
  deriving DecidableEq

/-- A group's encryption key. -/
structure EncryptionKey (S : Suite) where
  /-- The sum of the slots' ephemeral keys. -/
  lambda : S.G2
  /-- The sum of the slots' combined public keys. -/
  mu : S.G1
  deriving DecidableEq

/-- What a slot changing hands adds to an encryption key. -/
structure KeyChange (S : Suite) where
  lambda : S.G2
  mu : S.G1

/-- A join proof for one slot of one group. The entry of the slot itself is kept back by the
joiner, so it is absent from `z`. -/
structure JoinProof (S : Suite) where
  /-- The directory number of the joiner's public key. -/
  keyId : UInt32
  /-- The size tier of the group. -/
  tier : UInt16
  /-- The slot to be taken. -/
  slot : UInt32
  /-- The group to be joined. -/
  group : GroupId
  /-- The joiner's ephemeral key. -/
  u : S.G2
  /-- The joiner's contribution to the share of every other slot. -/
  z : List (Option S.G1)

/-- The part of a broadcast ciphertext for one recipient group. -/
structure CiphertextPart (S : Suite) where
  c2 : S.G2
  c3 : Bytes
  deriving DecidableEq

/-- A broadcast ciphertext; all parts share the ephemeral `c1`. -/
structure Ciphertext (S : Suite) where
  c1 : S.G2
  parts : List (CiphertextPart S)
  deriving DecidableEq

variable {S : Suite} {ρ : Type} [Generator ρ]

namespace SecretKey

/-- Two random exponents. -/
def random (r : ρ) : SecretKey S × ρ :=
  let (x1, r) := S.randomScalar r
  let (x2, r) := S.randomScalar r
  (⟨x1, x2⟩, r)

/-- The public key of a secret key. -/
def publicKey (k : SecretKey S) : PublicKey S := ⟨k.x1 • S.base1, k.x2 • S.base1⟩

/-- The exponent that a join proof under the challenge `v` commits to. -/
def exponent (k : SecretKey S) (v : S.Scalar) : S.Scalar := k.x1 + k.x2 * v

/-- Secret keys are not shown. -/
def debugText (_ : SecretKey S) : String := "PrivateKey(..)"

end SecretKey

namespace PublicKey

/-- The public counterpart of `SecretKey.exponent`. -/
def combined (k : PublicKey S) (v : S.Scalar) : S.G1 := k.y1 + v • k.y2

end PublicKey

namespace EncryptionKey

/-- The key after a slot has changed hands. -/
def apply (k : EncryptionKey S) (change : KeyChange S) : EncryptionKey S :=
  ⟨k.lambda + change.lambda, k.mu + change.mu⟩

/-- Eight bytes of the hash of the key's byte form, in hexadecimal. -/
def shortHex (k : EncryptionKey S) : String :=
  (S.hash (S.write2 k.lambda ++ S.write1 k.mu)).shortHex

end EncryptionKey

namespace JoinProof

/-- The number of slots that the proof speaks of. -/
def scale (p : JoinProof S) : Nat := p.z.length

/-- The contribution to the share of slot `j`, if the proof holds one. -/
def entry? (p : JoinProof S) (j : Nat) : Option S.G1 := (p.z[j]?).join

end JoinProof

namespace Ciphertext

/-- The length of the encrypted message, zero when no group receives it. -/
def messageLength (c : Ciphertext S) : Nat :=
  match c.parts with
  | [] => 0
  | part :: _ => part.c3.length

end Ciphertext

end GroupKey
