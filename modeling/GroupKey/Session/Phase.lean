/-!
# The phases of a member
-/

namespace GroupKey

/-- Where a member stands, as it reports to the coordinator. -/
inductive Phase where
  /-- In no group and not joining one. -/
  | unset
  /-- A join proof was sent and not yet acknowledged. -/
  | joining
  /-- Holds a decryption key for its group. -/
  | joined
  deriving DecidableEq, Repr

namespace Phase

/-- The number that stands for a phase in a message. -/
def code : Phase → UInt32
  | unset => 1
  | joining => 2
  | joined => 3

/-- The phase that a number stands for. -/
def ofCode? (code : UInt32) : Option Phase :=
  if code = 1 then some unset
  else if code = 2 then some joining
  else if code = 3 then some joined
  else none

/-- The name of a phase in reports. -/
def name : Phase → String
  | unset => "Unset"
  | joining => "Joining"
  | joined => "Joined"

end Phase

end GroupKey
