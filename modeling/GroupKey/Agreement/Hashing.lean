import GroupKey.Agreement.Keys

/-!
# Challenges and keystreams

Two uses of the suite's hash function: the challenge that binds a join attempt to a scalar, and
the keystream that a target-group element is stretched to.
-/

namespace GroupKey

/-- The bytes of an ASCII text. -/
def Bytes.ofAscii (text : String) : Bytes := text.toList.map fun c => UInt8.ofNat c.toNat

namespace Suite

/-- Marks the input of a challenge. -/
def challengeDomain : Bytes := Bytes.ofAscii "SAAGKA_HASH_TO_SCALAR_V1:"

/-- Marks the input of a keystream block. -/
def keystreamDomain : Bytes := Bytes.ofAscii "SAAGKA_HASH_TO_BYTES_V1:"

variable (S : Suite)

/-- The challenge of a join attempt: the hash of group name, public key and ephemeral key, read as
a scalar, with one in place of zero. The length of the name is counted modulo `2 ^ 16`. -/
def challenge (name : Bytes) (key : PublicKey S) (u : S.G2) : S.Scalar :=
  let digest := S.hash (challengeDomain ++ Bytes.ofUInt16 (.ofNat name.length) ++ name ++
    S.write1 key.y1 ++ S.write1 key.y2 ++ S.write2 u)
  let v := S.scalar (Bytes.toNatBE digest.bytes)
  if v.val = 0 then S.scalar 1 else v

/-- The block of a keystream with the given number. -/
def keystreamBlock (seed : Bytes) (counter : UInt32) : Bytes :=
  (S.hash (keystreamDomain ++ seed ++ Bytes.ofUInt32 counter)).bytes

/-- The first `len` bytes of the keystream of a target-group element. -/
def keystream (x : S.GT) (len : Nat) : Bytes :=
  let seed := S.textT x
  ((List.range ((len + 31) / 32)).flatMap fun i => S.keystreamBlock seed (.ofNat i)).take len

end Suite

end GroupKey
