import GroupKey.Agreement.Error
import GroupKey.Agreement.Hashing

/-!
# Public parameters

The one-time setup draws generators and, for every size tier, a matrix of pseudo members. A new
group starts as if the pseudo members of its tier had already agreed on a key; each joiner then
takes the place of one of them. The matrix entries on the diagonal are not published: whoever
holds them has the decryption key of every slot still held by its pseudo member.
-/

namespace GroupKey

/-- The public part of a pseudo member. -/
structure PseudoMember (S : Suite) where
  /-- The contribution to the share of every slot but its own, where the entry is absent. -/
  commitments : List (Option S.G1)
  /-- The ephemeral key. -/
  u : S.G2
  publicKey : PublicKey S
  /-- The challenge of the empty group name. -/
  v : S.Scalar

/-- The pseudo members of one size tier, by slot. -/
structure SizeTier (S : Suite) where
  members : List (PseudoMember S)

/-- The constants shared by all nodes. -/
structure Parameters (S : Suite) where
  securityLevel : UInt32
  g1 : S.G1
  /-- The multiple of `g1` by a secret exponent. -/
  g0G1 : S.G1
  g2 : S.G2
  /-- The multiple of `g2` by the same exponent. -/
  g0G2 : S.G2
  /-- One generator per slot. -/
  h : List S.G1
  tiers : List (SizeTier S)

/-- The unpublished diagonal entries, by tier and slot. -/
structure SlotSecrets (S : Suite) where
  diagonals : List (List S.G1)

variable {S : Suite} {ρ : Type} [Generator ρ]

namespace PseudoMember

/-- The combined public key. -/
def combined (m : PseudoMember S) : S.G1 := m.publicKey.combined m.v

end PseudoMember

namespace SizeTier

/-- The number of slots. -/
def scale (t : SizeTier S) : Nat := t.members.length

/-- The pseudo member of a slot. -/
def member (t : SizeTier S) (slot : UInt32) : Except AgreementError (PseudoMember S) :=
  match t.members[slot.toNat]? with
  | some m => .ok m
  | none => .error (.slotOutOfRange slot.toNat t.scale)

/-- What the pseudo member of slot `row` contributes to the share of slot `column`. -/
def commitment (t : SizeTier S) (row column : UInt32) : Except AgreementError S.G1 :=
  match t.member row with
  | .error e => .error e
  | .ok m =>
    match (m.commitments[column.toNat]?).join with
    | some c => .ok c
    | none => .error (.slotOutOfRange column.toNat t.scale)

end SizeTier

namespace SlotSecrets

/-- The unpublished entry of a slot. -/
def diagonal? (s : SlotSecrets S) (tier : UInt16) (slot : UInt32) : Option S.G1 := do
  let entries ← s.diagonals[tier.toNat]?
  entries[slot.toNat]?

end SlotSecrets

namespace Parameters

/-- The tier with a given number. -/
def tier (p : Parameters S) (number : UInt16) : Except AgreementError (SizeTier S) :=
  match p.tiers[number.toNat]? with
  | some t => .ok t
  | none => .error (.unknownSizeTier number)

/-- The number of slots of a tier. -/
def scale (p : Parameters S) (number : UInt16) : Except AgreementError Nat :=
  match p.tier number with
  | .ok t => .ok t.scale
  | .error e => .error e

/-- The first tier with room for `size` members, if its number fits sixteen bits. -/
def tierForSize? (p : Parameters S) (size : Nat) : Option UInt16 :=
  match p.tiers.findIdx? (fun t => size ≤ t.scale) with
  | some i => if i < UInt16.size then some (.ofNat i) else none
  | none => none

/-- The generator of a slot. -/
def slotBase (p : Parameters S) (slot : Nat) : S.G1 := (p.h[slot]?).getD 0

/-! ## Setup -/

/-- Does `f` for every element in order, passing the generator along. -/
def forEachDraw {α β : Type} (f : α → ρ → β × ρ) : List α → ρ → List β × ρ
  | [], r => ([], r)
  | a :: as, r =>
    let (b, r) := f a r
    let (bs, r) := forEachDraw f as r
    (b :: bs, r)

/-- The entries `z_j` that the exponents `exponent` and `w` give for the first `scale` slots. -/
def entries (p : Parameters S) (scale : Nat) (exponent w : S.Scalar) : List S.G1 :=
  let base := exponent • p.g0G1
  (p.h.take scale).map fun h => base + w • h

/-- Takes the entry of `slot` out of a list of entries. -/
def withoutSlot (slot : Nat) (entries : List S.G1) : List (Option S.G1) :=
  entries.mapIdx fun j z => if j = slot then none else some z

/-- Draws the pseudo member of a slot, with its unpublished entry. -/
def drawMember (p : Parameters S) (scale slot : Nat) (r : ρ) : (PseudoMember S × S.G1) × ρ :=
  let (secret, r) := SecretKey.random r
  let publicKey := secret.publicKey
  let (w, r) := S.randomScalar r
  let u := w • S.base2
  let v := S.challenge [] publicKey u
  let entries := p.entries scale (secret.exponent v) w
  ((⟨withoutSlot slot entries, u, publicKey, v⟩, (entries[slot]?).getD 0), r)

/-- Draws the pseudo members of a tier, with their unpublished entries. -/
def drawTier (p : Parameters S) (scale : Nat) (r : ρ) : (SizeTier S × List S.G1) × ρ :=
  let (rows, r) := forEachDraw (p.drawMember scale) (List.range scale) r
  ((⟨rows.map (·.1)⟩, rows.map (·.2)), r)

/-- The highest security level that the groups offer. -/
def maxSecurityLevel : UInt32 := 128

/-- The scales of the tiers: the multiples of `sizeStep` up to `maxGroupSize`. -/
def tierScales (maxGroupSize sizeStep : Nat) : List Nat :=
  (List.range (maxGroupSize / sizeStep)).map fun t => (t + 1) * sizeStep

/-- Draws fresh parameters: the shared exponent, the slot generators, then the tiers. -/
def setup (securityLevel : UInt32) (maxGroupSize sizeStep : Nat) (r : ρ) :
    Except AgreementError (Parameters S × SlotSecrets S) × ρ :=
  if maxSecurityLevel < securityLevel then (.error (.unsupportedSecurityLevel securityLevel), r)
  else if sizeStep = 0 ∨ maxGroupSize < sizeStep ∨ UInt32.size ≤ maxGroupSize then
    (.error (.invalidSizeTiers maxGroupSize sizeStep), r)
  else
    let (e, r) := S.randomScalar r
    let (exponents, r) := forEachDraw (fun _ => S.randomScalar) (List.range maxGroupSize) r
    let p : Parameters S :=
      { securityLevel, g1 := S.base1, g0G1 := e • S.base1, g2 := S.base2, g0G2 := e • S.base2,
        h := exponents.map (· • S.base1), tiers := [] }
    let (drawn, r) := forEachDraw p.drawTier (tierScales maxGroupSize sizeStep) r
    (.ok ({ p with tiers := drawn.map (·.1) }, ⟨drawn.map (·.2)⟩), r)

end Parameters

/-- Keeps the outcome of the first successful setup. -/
structure ParameterStore (S : Suite) where
  built : Option (Parameters S × SlotSecrets S)

namespace ParameterStore

/-- A store in which no setup was done. -/
def empty : ParameterStore S := ⟨none⟩

/-- The stored parameters, drawn now if no setup succeeded before. -/
def setup (store : ParameterStore S) (securityLevel : UInt32) (maxGroupSize sizeStep : Nat)
    (r : ρ) : Except AgreementError (Parameters S) × ParameterStore S × ρ :=
  match store.built with
  | some (p, _) => (.ok p, store, r)
  | none =>
    match Parameters.setup securityLevel maxGroupSize sizeStep r with
    | (.ok (p, secrets), r) => (.ok p, ⟨some (p, secrets)⟩, r)
    | (.error e, r) => (.error e, store, r)

end ParameterStore

end GroupKey
