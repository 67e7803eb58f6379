import GroupKey.Agreement.Keys
import Std.Data.ExtTreeMap

/-!
# The directory of public keys

Nodes publish their public keys under numbers, where the verifiers of join proofs look them up.
A number, once taken, keeps its key. A directory may start out refusing a number of uploads.
-/

namespace GroupKey

/-- A directory of public keys. -/
structure Directory (S : Suite) where
  /-- How many uploads it still refuses. -/
  refusals : Nat
  entries : Std.ExtTreeMap UInt32 (PublicKey S)

variable {S : Suite}

namespace Directory

/-- A directory without entries that refuses its first `refusals` uploads. -/
def refusing (refusals : Nat) : Directory S := ⟨refusals, ∅⟩

/-- A directory without entries. -/
def empty : Directory S := refusing 0

/-- The key published under a number. -/
def get? (d : Directory S) (id : UInt32) : Option (PublicKey S) := d.entries[id]?

/-- The number of entries. -/
def size (d : Directory S) : Nat := d.entries.size

/-- Publishes a key under a number; false when the upload is refused or the number taken. -/
def upload (d : Directory S) (id : UInt32) (key : PublicKey S) : Bool × Directory S :=
  match d.refusals with
  | refusals + 1 => (false, { d with refusals })
  | 0 => if id ∈ d.entries then (false, d) else (true, { d with entries := d.entries.insert id key })

end Directory

end GroupKey
