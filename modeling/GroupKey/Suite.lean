import GroupKey.Digest
import GroupKey.Random

/-!
# Pairing suites

The key agreement works in three groups of one order with a pairing between them, a hash
function, and byte forms of the group elements. A suite supplies these operations and promises
nothing about them, so a statement about the agreement names the laws it needs. All three
groups are written additively.
-/

namespace GroupKey

/-- The operations of a commutative group on which the numbers below `order` act. -/
structure GroupOps (order : Nat) (G : Type) where
  zero : G
  add : G → G → G
  neg : G → G
  smul : Fin order → G → G
  decEq : DecidableEq G

/-- What the key agreement computes with. -/
structure Suite where
  /-- The order of the three groups. -/
  order : Nat
  order_pos : 0 < order
  /-- The first source group. -/
  G1 : Type
  /-- The second source group. -/
  G2 : Type
  /-- The target group. -/
  GT : Type
  ops1 : GroupOps order G1
  ops2 : GroupOps order G2
  opsT : GroupOps order GT
  /-- The generator of the first source group. -/
  base1 : G1
  /-- The generator of the second source group. -/
  base2 : G2
  /-- The pairing. -/
  pair : G1 → G2 → GT
  /-- The hash function. -/
  hash : Bytes → Digest
  /-- The compressed form of an element of the first source group. -/
  write1 : G1 → Bytes
  /-- The element of the first source group with a given compressed form. -/
  read1? : Bytes → Option G1
  /-- The compressed form of an element of the second source group. -/
  write2 : G2 → Bytes
  /-- The element of the second source group with a given compressed form. -/
  read2? : Bytes → Option G2
  /-- A text that determines an element of the target group. -/
  textT : GT → Bytes

namespace Suite

variable (S : Suite)

/-- Scalars: the numbers below the order of the groups. -/
abbrev Scalar : Type := Fin S.order

/-- A number modulo the order of the groups. -/
def scalar (n : Nat) : S.Scalar := ⟨n % S.order, Nat.mod_lt n S.order_pos⟩

instance : Zero S.G1 := ⟨S.ops1.zero⟩
instance : Add S.G1 := ⟨S.ops1.add⟩
instance : Neg S.G1 := ⟨S.ops1.neg⟩
instance : Sub S.G1 := ⟨fun a b => a + -b⟩
instance : SMul S.Scalar S.G1 := ⟨S.ops1.smul⟩
instance : DecidableEq S.G1 := S.ops1.decEq

instance : Zero S.G2 := ⟨S.ops2.zero⟩
instance : Add S.G2 := ⟨S.ops2.add⟩
instance : Neg S.G2 := ⟨S.ops2.neg⟩
instance : Sub S.G2 := ⟨fun a b => a + -b⟩
instance : SMul S.Scalar S.G2 := ⟨S.ops2.smul⟩
instance : DecidableEq S.G2 := S.ops2.decEq

instance : Zero S.GT := ⟨S.opsT.zero⟩
instance : Add S.GT := ⟨S.opsT.add⟩
instance : Neg S.GT := ⟨S.opsT.neg⟩
instance : Sub S.GT := ⟨fun a b => a + -b⟩
instance : SMul S.Scalar S.GT := ⟨S.opsT.smul⟩
instance : DecidableEq S.GT := S.opsT.decEq

variable {ρ : Type} [Generator ρ]

/-- A scalar drawn at random. -/
def randomScalar (r : ρ) : S.Scalar × ρ := Generator.residue S.order S.order_pos r

end Suite

end GroupKey
