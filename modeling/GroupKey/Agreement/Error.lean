/-!
# Why a key agreement operation fails
-/

namespace GroupKey

/-- The causes of failure of the key agreement. -/
inductive AgreementError where
  /-- More bits of security were asked for than the groups offer. -/
  | unsupportedSecurityLevel (level : UInt32)
  /-- The sizes describe no tier. -/
  | invalidSizeTiers (maxGroupSize sizeStep : Nat)
  /-- No tier has this number. -/
  | unknownSizeTier (tier : UInt16)
  /-- The slot does not exist, or holds no value, in a group of this scale. -/
  | slotOutOfRange (slot scale : Nat)
  /-- The directory holds no key under this number. -/
  | unknownPublicKey (id : UInt32)
  /-- No free directory number was found. -/
  | keyIdExhausted
  /-- The node holds no group key. -/
  | notJoined
  /-- The ciphertext has too few parts. -/
  | ciphertextIndexOutOfRange (index count : Nat)
  deriving DecidableEq, Repr

namespace AgreementError

/-- The failure in words. -/
def message : AgreementError → String
  | unsupportedSecurityLevel level => s!"Unsupported security level {level} (at most 128 bits)"
  | invalidSizeTiers maxGroupSize sizeStep =>
    s!"Invalid size tiers: max group size {maxGroupSize}, step {sizeStep}"
  | unknownSizeTier tier => s!"Unknown size tier {tier}"
  | slotOutOfRange slot scale => s!"Slot {slot} out of range for group of {scale}"
  | unknownPublicKey id => s!"Public key {id} not found in directory"
  | keyIdExhausted => "Could not allocate a public key id"
  | notJoined => "Node has not derived a group decryption key"
  | ciphertextIndexOutOfRange index count =>
    s!"Ciphertext has no component {index} (holds {count})"

end AgreementError

end GroupKey
