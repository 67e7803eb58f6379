import GroupKey.Agreement.Keys
import GroupKey.Group.Bitmap

/-!
# Group snapshots

What every node knows about a group: its name, size, occupied slots and encryption key.
-/

namespace GroupKey

/-- The public state of a group. -/
structure Snapshot (S : Suite) where
  tier : UInt16
  memberCount : UInt32
  id : GroupId
  slots : Bitmap
  key : EncryptionKey S
  expiry : Timestamp
  deriving DecidableEq

namespace Snapshot

variable {S : Suite}

/-- Whether a slot is held by a member. -/
def isOccupied (g : Snapshot S) (slot : UInt32) : Bool := g.slots.isOccupied slot

/-- Marks a slot as held by a member. -/
def occupy (g : Snapshot S) (slot : UInt32) : Snapshot S := { g with slots := g.slots.occupy slot }

/-- A group is expired once its expiry lies in the past. -/
def isExpired (g : Snapshot S) (now : Timestamp) : Bool := g.expiry < now

/-- Counts one more member; none when the count is at its limit. -/
def countMember? (g : Snapshot S) : Option (Snapshot S) :=
  if g.memberCount.toNat + 1 < UInt32.size then some { g with memberCount := g.memberCount + 1 }
  else none

end Snapshot

end GroupKey
