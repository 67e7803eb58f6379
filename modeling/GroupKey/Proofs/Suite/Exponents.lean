import GroupKey.Agreement.Parameters
import GroupKey.Curve.Groups
import GroupKey.Node.Context
import GroupKey.Proofs.Suite.Laws
import GroupKey.Proofs.Wire.Fields
import Mathlib.Tactic.Ring

/-!
# The suite of exponents

Every element of the groups of a pairing is a multiple of a generator. Written as that multiple, the
three groups are the numbers modulo the order and the pairing is their product. This suite is
lawful and can be computed with, so it shows that the laws ask for nothing impossible, and runs of
the protocol can be looked at in it. Points take as many bytes as those of the curve; the hash just
keeps the last bytes of its input.
-/

namespace GroupKey

namespace Exponents

/-- The numbers modulo `q` as a group. -/
def ops (q : Nat) [NeZero q] : GroupOps q (Fin q) where
  zero := 0
  add := (· + ·)
  neg := (- ·)
  smul := (· * ·)
  decEq := inferInstance

/-- The last thirty-two bytes, behind zeros if there are fewer. -/
def lastBytes (bytes : Bytes) : Digest where
  bytes := ((bytes.reverse ++ List.replicate 32 0).take 32).reverse
  length_bytes := by simp

/-- The number that `width` bytes spell, if it is below `q`. -/
def read? (q width : Nat) (bytes : Bytes) : Option (Fin q) :=
  if h : bytes.length = width ∧ Bytes.toNatBE bytes < q then some ⟨_, h.2⟩ else none

end Exponents

/-- The suite whose groups are the numbers modulo `q`. -/
def Suite.exponents (q : Nat) [NeZero q] : Suite where
  order := q
  order_pos := Nat.pos_of_neZero q
  G1 := Fin q
  G2 := Fin q
  GT := Fin q
  ops1 := Exponents.ops q
  ops2 := Exponents.ops q
  opsT := Exponents.ops q
  base1 := 1
  base2 := 1
  pair := (· * ·)
  hash := Exponents.lastBytes
  write1 x := Bytes.ofNatBE 48 x.val
  read1? := Exponents.read? q 48
  write2 x := Bytes.ofNatBE 96 x.val
  read2? := Exponents.read? q 96
  textT x := Bytes.ofNatBE 48 x.val

namespace Exponents

variable (q : Nat)

theorem read?_ofNatBE (width : Nat) (h : q ≤ 256 ^ width) (x : Fin q) :
    read? q width (Bytes.ofNatBE width x.val) = some x := by
  have hvalue := Bytes.toNatBE_ofNatBE (Nat.lt_of_lt_of_le x.isLt h)
  have hlt : (Bytes.ofNatBE width x.val).toNatBE < q := by
    rw [hvalue]
    exact x.isLt
  rw [read?, dif_pos ⟨Bytes.length_ofNatBE _ _, hlt⟩, Option.some.injEq]
  exact Fin.ext hvalue

theorem ofNatBE_of_read? {width : Nat} {bytes : Bytes} {x : Fin q}
    (h : read? q width bytes = some x) : Bytes.ofNatBE width x.val = bytes := by
  unfold read? at h
  split at h
  next hread =>
    obtain rfl := Option.some.inj h
    exact Bytes.ofNatBE_toNatBE hread.1
  next => simp at h

variable [NeZero q]

local instance commRingFin : CommRing (Fin q) := Fin.instCommRing q

theorem isModule_ops : (ops q).IsModule where
  add_assoc := add_assoc
  add_comm := add_comm
  zero_add := zero_add
  neg_add := neg_add_cancel
  one_smul _ a := by
    show (⟨1 % q, _⟩ : Fin q) * a = a
    exact one_mul a
  mul_smul := mul_assoc
  smul_add := mul_add
  add_smul := add_mul

/-- **The laws of a pairing can be satisfied.** -/
instance : (Suite.exponents q).BilinearPairing where
  module1 := isModule_ops q
  module2 := isModule_ops q
  moduleT := isModule_ops q
  pair_add_left := add_mul (R := Fin q)
  pair_add_right := mul_add (R := Fin q)
  pair_smul_left := mul_assoc (G := Fin q)
  pair_smul_right k a b := mul_left_comm (G := Fin q) a k b

/-- Exponents are read from nothing else. -/
instance : (Suite.exponents q).CanonicalPoints where
  write1_of_read1? _ _ _ h := ofNatBE_of_read? q h
  write2_of_read2? _ _ _ h := ofNatBE_of_read? q h

theorem faithfulPoints (h : q ≤ 256 ^ 48) : (Suite.exponents q).FaithfulPoints where
  length_write1 x := Bytes.length_ofNatBE 48 x.val
  length_write2 x := Bytes.length_ofNatBE 96 x.val
  read1?_write1 x := by
    rw [show (Suite.exponents q).read1? = read? q 48 from rfl]
    exact read?_ofNatBE q 48 h x
  read2?_write2 x := by
    rw [show (Suite.exponents q).read2? = read? q 96 from rfl]
    exact read?_ofNatBE q 96 (h.trans (Nat.pow_le_pow_right (by decide) (by decide))) x

end Exponents

/-! ## A generator to go with it -/

/-- A generator that counts: each request is served with the next number. -/
structure Counter where
  next : Nat

namespace Counter

instance : Generator Counter where
  bytes n r := (Bytes.ofNatLE n r.next, ⟨r.next + 1⟩)
  length_bytes n r := by simp

end Counter

/-! ## A small setup -/

instance : NeZero Curve.groupOrder := ⟨by decide⟩

/-- The exponents of the groups of the curve. -/
abbrev Suite.sample : Suite := .exponents Curve.groupOrder

instance : Suite.sample.FaithfulPoints := Exponents.faithfulPoints _ (by decide)

theorem eq_ok_of_toOption {ε α : Type} {e : Except ε α} (h : e.toOption.isSome = true) :
    e = .ok (e.toOption.get h) := by
  cases e with
  | error err => simp [Except.toOption] at h
  | ok a => rfl

theorem exists_error_of_toOption {ε α : Type} {e : Except ε α} (h : e.toOption.isSome = false) :
    ∃ err, e = .error err := by
  cases e with
  | error err => exact ⟨err, rfl⟩
  | ok a => simp [Except.toOption] at h

/-- Parameters for groups of two, as a counting generator draws them, and their unpublished
entries. -/
def sampleSetup : Parameters .sample × SlotSecrets .sample :=
  ((Parameters.setup 80 2 2 (Counter.mk 1)).1.toOption).get (by decide +kernel)

theorem setup_sample : Parameters.setup 80 2 2 (Counter.mk 1) =
    (.ok (sampleSetup.1, sampleSetup.2),
      (Parameters.setup (S := .sample) 80 2 2 (Counter.mk 1)).2) :=
  Prod.ext (eq_ok_of_toOption (by decide +kernel)) rfl

/-- The standard tunables, for groups of two. -/
def sampleContext : Context .sample :=
  ⟨sampleSetup.1, { Config.standard with maxGroupSize := 2, sizeStep := 2, groupSize := 2 }⟩

end GroupKey
