import GroupKey.Agreement.Parameters
import GroupKey.Group.Snapshot

/-!
# Groups as their coordinator holds them

Beside the public snapshot the coordinator keeps, for every slot, the share that the slot's
holder needs for its decryption key: the sum of what all other slots contribute to it.
-/

namespace GroupKey

/-- A group with the shares of its slots. -/
structure ManagedGroup (S : Suite) where
  info : Snapshot S
  scale : Nat
  shares : List S.G1

variable {S : Suite}

namespace ManagedGroup

/-- The sums over the pseudo members seen so far, from which a group starts. -/
structure Sums (S : Suite) where
  lambda : S.G2
  mu : S.G1
  shares : List S.G1

/-- Adds the contribution of one pseudo member. -/
def Sums.add (sums : Sums S) (m : PseudoMember S) : Sums S where
  lambda := sums.lambda + m.u
  mu := sums.mu + m.combined
  shares := sums.shares.mapIdx fun j share =>
    match (m.commitments[j]?).join with
    | some c => share + c
    | none => share

/-- The sums over the pseudo members of a tier. -/
def Sums.ofTier (t : SizeTier S) : Sums S :=
  t.members.foldl Sums.add ⟨0, 0, List.replicate t.scale 0⟩

/-- A new group, all of whose slots are held by the pseudo members of its tier. -/
def bootstrap (p : Parameters S) (seq tier : UInt16) (expiry : Timestamp) :
    Except AgreementError (ManagedGroup S) :=
  match p.tier tier with
  | .error e => .error e
  | .ok t =>
    let sums := Sums.ofTier t
    .ok
      { info :=
          { tier, memberCount := 0, id := .new seq tier expiry, slots := .free t.scale,
            key := ⟨sums.lambda, sums.mu⟩, expiry }
        scale := t.scale
        shares := sums.shares }

/-- Whether the group has as many members as slots. -/
def isFull (g : ManagedGroup S) : Bool := g.scale ≤ g.info.memberCount.toNat

/-- The slots still held by pseudo members, in ascending order. -/
def freeSlots (g : ManagedGroup S) : List UInt32 :=
  (Bitmap.slotsBelow g.scale).filter fun slot => !g.info.isOccupied slot

/-- Replaces, from slot `j` on, the pseudo member's part of every share by the entry of the proof.
A failure keeps what was replaced before it. -/
def replaceShares (t : SizeTier S) (slot : UInt32) :
    (j : Nat) → List (Option S.G1) → List S.G1 → Except AgreementError Unit × List S.G1
  | _, [], shares => (.ok (), shares)
  | j, none :: zs, shares => replaceShares t slot (j + 1) zs shares
  | j, some z :: zs, shares =>
    match t.commitment slot (.ofNat j) with
    | .error e => (.error e, shares)
    | .ok displaced =>
      replaceShares t slot (j + 1) zs (shares.modify j fun share => share + z - displaced)

/-- Puts the joiner's entries in the place of the pseudo member's in the shares of all other
slots. -/
def applyShares (p : Parameters S) (proof : JoinProof S) (g : ManagedGroup S) :
    Except AgreementError Unit × ManagedGroup S :=
  match p.tier proof.tier with
  | .error e => (.error e, g)
  | .ok t =>
    let (result, shares) := replaceShares t proof.slot 0 proof.z g.shares
    (result, { g with shares })

end ManagedGroup

end GroupKey
