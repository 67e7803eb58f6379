import GroupKey.Suite
import Mathlib.Algebra.Module.Defs
import Mathlib.Data.ZMod.Defs

/-!
# The laws of a pairing suite

A suite only names operations. This file states what a statement may ask of them, one law after the
other, and hands the operations over to Mathlib's algebra once they are lawful.

* `AbelianSources` — both source groups are abelian groups.
* `BilinearPairing` — the scalars act on all three groups and the pairing is bilinear.
* `FaithfulPoints` — elements of the source groups are read as they were written.
* `CanonicalPoints` — nothing is read as an element but what is written for it.
* `Subgroups` — the same for those elements only that lie in given subgroups.

The groups of Mathlib built here have the suite's own operations, so that no rewriting is needed
to move between the two.
-/

namespace GroupKey

/-- The operations are those of an abelian group. -/
structure GroupOps.IsAbelian {order : Nat} {G : Type} (o : GroupOps order G) : Prop where
  add_assoc : ∀ a b c, o.add (o.add a b) c = o.add a (o.add b c)
  add_comm : ∀ a b, o.add a b = o.add b a
  zero_add : ∀ a, o.add o.zero a = a
  neg_add : ∀ a, o.add (o.neg a) a = o.zero

/-- The numbers below the order act on the abelian group as multiples. -/
structure GroupOps.IsModule {order : Nat} {G : Type} (o : GroupOps order G) : Prop
    extends o.IsAbelian where
  one_smul : ∀ (h : 0 < order) a, o.smul ⟨1 % order, Nat.mod_lt _ h⟩ a = a
  mul_smul : ∀ j k a, o.smul (j * k) a = o.smul j (o.smul k a)
  smul_add : ∀ k a b, o.smul k (o.add a b) = o.add (o.smul k a) (o.smul k b)
  add_smul : ∀ j k a, o.smul (j + k) a = o.add (o.smul j a) (o.smul k a)

namespace Suite

variable (S : Suite)

/-- Both source groups are abelian. -/
class AbelianSources : Prop where
  group1 : S.ops1.IsAbelian
  group2 : S.ops2.IsAbelian

/-- The scalars act on the three groups, and the pairing is linear in both arguments. -/
class BilinearPairing : Prop where
  module1 : S.ops1.IsModule
  module2 : S.ops2.IsModule
  moduleT : S.opsT.IsModule
  pair_add_left : ∀ (a b : S.G1) (q : S.G2), S.pair (a + b) q = S.pair a q + S.pair b q
  pair_add_right : ∀ (a : S.G1) (p q : S.G2), S.pair a (p + q) = S.pair a p + S.pair a q
  pair_smul_left : ∀ (k : S.Scalar) (a : S.G1) (q : S.G2), S.pair (k • a) q = k • S.pair a q
  pair_smul_right : ∀ (k : S.Scalar) (a : S.G1) (q : S.G2), S.pair a (k • q) = k • S.pair a q

/-- Elements of the source groups have compressed forms of fixed length, and are read back from
them. -/
class FaithfulPoints : Prop where
  length_write1 : ∀ x : S.G1, (S.write1 x).length = 48
  length_write2 : ∀ x : S.G2, (S.write2 x).length = 96
  read1?_write1 : ∀ x : S.G1, S.read1? (S.write1 x) = some x
  read2?_write2 : ∀ x : S.G2, S.read2? (S.write2 x) = some x

/-- No element of a source group is read from any bytes but its compressed form, among those of the
right length. -/
class CanonicalPoints : Prop where
  write1_of_read1? : ∀ bytes x, bytes.length = 48 → S.read1? bytes = some x → S.write1 x = bytes
  write2_of_read2? : ∀ bytes x, bytes.length = 96 → S.read2? bytes = some x → S.write2 x = bytes

/-- The elements of the source groups that may go over the wire, where a group holds others beside
them. They have compressed forms of fixed length and are read back from them, and nothing else is
ever read. -/
structure Subgroups where
  mem1 : S.G1 → Prop
  mem2 : S.G2 → Prop
  length_write1 : ∀ x, mem1 x → (S.write1 x).length = 48
  length_write2 : ∀ x, mem2 x → (S.write2 x).length = 96
  read1?_write1 : ∀ x, mem1 x → S.read1? (S.write1 x) = some x
  read2?_write2 : ∀ x, mem2 x → S.read2? (S.write2 x) = some x
  mem1_of_read1? : ∀ bytes x, S.read1? bytes = some x → mem1 x
  mem2_of_read2? : ∀ bytes x, S.read2? bytes = some x → mem2 x

/-- All elements, where every one of them is read as it was written. -/
def Subgroups.all [h : S.FaithfulPoints] : S.Subgroups where
  mem1 _ := True
  mem2 _ := True
  length_write1 x _ := h.length_write1 x
  length_write2 x _ := h.length_write2 x
  read1?_write1 x _ := h.read1?_write1 x
  read2?_write2 x _ := h.read2?_write2 x
  mem1_of_read1? _ _ _ := trivial
  mem2_of_read2? _ _ _ := trivial

instance [h : S.BilinearPairing] : S.AbelianSources :=
  ⟨h.module1.toIsAbelian, h.module2.toIsAbelian⟩

/-! ## The groups as Mathlib knows them -/

/-- The abelian group with the given operations. -/
abbrev addCommGroupOf {G : Type} [z : Zero G] [a : Add G] [n : Neg G] [s : Sub G]
    (add_assoc : ∀ a b c : G, a + b + c = a + (b + c)) (add_comm : ∀ a b : G, a + b = b + a)
    (zero_add : ∀ a : G, 0 + a = a) (neg_add : ∀ a : G, -a + a = 0)
    (sub_eq : ∀ a b : G, a - b = a + -b) : AddCommGroup G :=
  { z, a, n, s with
    add_assoc
    add_comm
    zero_add
    add_zero := fun a => by rw [add_comm, zero_add]
    neg_add_cancel := neg_add
    sub_eq_add_neg := sub_eq
    nsmul := nsmulRec
    zsmul := zsmulRec }

instance [h : S.AbelianSources] : AddCommGroup S.G1 :=
  addCommGroupOf h.group1.add_assoc h.group1.add_comm h.group1.zero_add h.group1.neg_add
    fun _ _ => rfl

instance [h : S.AbelianSources] : AddCommGroup S.G2 :=
  addCommGroupOf h.group2.add_assoc h.group2.add_comm h.group2.zero_add h.group2.neg_add
    fun _ _ => rfl

instance [h : S.BilinearPairing] : AddCommGroup S.GT :=
  addCommGroupOf h.moduleT.add_assoc h.moduleT.add_comm h.moduleT.zero_add h.moduleT.neg_add
    fun _ _ => rfl

instance : NeZero S.order := ⟨S.order_pos.ne'⟩

instance : CommRing S.Scalar := Fin.instCommRing S.order

/-- The module with the given action. -/
abbrev moduleOf {G : Type} [AddCommGroup G] [a : SMul S.Scalar G]
    (one_smul : ∀ x : G, (1 : S.Scalar) • x = x)
    (mul_smul : ∀ (j k : S.Scalar) (x : G), (j * k) • x = j • k • x)
    (smul_add : ∀ (k : S.Scalar) (x y : G), k • (x + y) = k • x + k • y)
    (add_smul : ∀ (j k : S.Scalar) (x : G), (j + k) • x = j • x + k • x) : Module S.Scalar G :=
  { a with
    one_smul
    mul_smul
    smul_add
    add_smul
    smul_zero := fun k => by
      have h := smul_add k 0 0
      rwa [add_zero, left_eq_add] at h
    zero_smul := fun x => by
      have h := add_smul 0 0 x
      rwa [add_zero, left_eq_add] at h }

instance [h : S.BilinearPairing] : Module S.Scalar S.G1 :=
  S.moduleOf (h.module1.one_smul S.order_pos) h.module1.mul_smul h.module1.smul_add
    h.module1.add_smul

instance [h : S.BilinearPairing] : Module S.Scalar S.G2 :=
  S.moduleOf (h.module2.one_smul S.order_pos) h.module2.mul_smul h.module2.smul_add
    h.module2.add_smul

instance [h : S.BilinearPairing] : Module S.Scalar S.GT :=
  S.moduleOf (h.moduleT.one_smul S.order_pos) h.moduleT.mul_smul h.moduleT.smul_add
    h.moduleT.add_smul

/-! ## The pairing -/

section Pairing

variable {S} [h : S.BilinearPairing]

theorem pair_add_left (a b : S.G1) (q : S.G2) : S.pair (a + b) q = S.pair a q + S.pair b q :=
  h.pair_add_left a b q

theorem pair_add_right (a : S.G1) (p q : S.G2) : S.pair a (p + q) = S.pair a p + S.pair a q :=
  h.pair_add_right a p q

theorem pair_smul_left (k : S.Scalar) (a : S.G1) (q : S.G2) :
    S.pair (k • a) q = k • S.pair a q :=
  h.pair_smul_left k a q

theorem pair_smul_right (k : S.Scalar) (a : S.G1) (q : S.G2) :
    S.pair a (k • q) = k • S.pair a q :=
  h.pair_smul_right k a q

theorem pair_zero_left (q : S.G2) : S.pair 0 q = 0 := by
  have h := pair_add_left (0 : S.G1) 0 q
  rwa [add_zero, left_eq_add] at h

theorem pair_zero_right (a : S.G1) : S.pair a 0 = 0 := by
  have h := pair_add_right a (0 : S.G2) 0
  rwa [add_zero, left_eq_add] at h

theorem pair_sub_left (a b : S.G1) (q : S.G2) : S.pair (a - b) q = S.pair a q - S.pair b q := by
  rw [eq_sub_iff_add_eq, ← pair_add_left, sub_add_cancel]

theorem pair_sub_right (a : S.G1) (p q : S.G2) : S.pair a (p - q) = S.pair a p - S.pair a q := by
  rw [eq_sub_iff_add_eq, ← pair_add_right, sub_add_cancel]

end Pairing

end Suite

end GroupKey
