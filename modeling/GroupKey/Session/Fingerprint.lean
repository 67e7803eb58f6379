import GroupKey.Digest
import GroupKey.Time

/-!
# Fingerprints of session keys

Nodes gossip the fingerprint of a session key in place of the key, so that they can agree on
which key is current. Version zero stands for "no key yet" and carries no hash.
-/

namespace GroupKey

/-- The version, time of issue and hash of a session key. -/
structure Fingerprint where
  version : UInt32
  issued : Timestamp
  digest : Digest
  deriving DecidableEq

namespace Fingerprint

/-- The fingerprint of no key. -/
def zero : Fingerprint := ⟨0, .zero, .zero⟩

instance : Inhabited Fingerprint := ⟨zero⟩

/-- The fingerprint of `key` as version `version`; version zero has the zero hash whatever the
key. -/
def ofKey (hash : Bytes → Digest) (version : UInt32) (issued : Timestamp) (key : Bytes) :
    Fingerprint :=
  ⟨version, issued, if version = 0 then .zero else hash key⟩

/-- Whether `key` is the key of this fingerprint. No key is that of version zero. -/
def Matches (hash : Bytes → Digest) (f : Fingerprint) (key : Bytes) : Prop :=
  0 < f.version ∧ hash key = f.digest

instance (hash : Bytes → Digest) (f : Fingerprint) (key : Bytes) : Decidable (f.Matches hash key) :=
  inferInstanceAs (Decidable (_ ∧ _))

/-- Whether `f` has a higher version than `g`. -/
def IsNewer (f g : Fingerprint) : Prop := g.version < f.version

instance (f g : Fingerprint) : Decidable (f.IsNewer g) := inferInstanceAs (Decidable (_ < _))

end Fingerprint

end GroupKey
