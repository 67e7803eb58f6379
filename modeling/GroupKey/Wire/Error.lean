/-!
# Why a frame is not accepted
-/

namespace GroupKey

/-- The causes for which a frame is not accepted. -/
inductive WireError where
  /-- The input ends within a field. -/
  | unexpectedEof (needed remaining : Nat)
  /-- No kind of message has this tag. -/
  | unknownMessageType (tag : UInt32)
  /-- A record is not as long as it says. -/
  | lengthMismatch (declared actual : Nat)
  /-- A field of fixed length has another length. -/
  | invalidFieldLength (expected got : Nat)
  /-- Not the compressed form of an element of the first source group. -/
  | invalidG1Point
  /-- Not the compressed form of an element of the second source group. -/
  | invalidG2Point
  /-- No phase has this number. -/
  | invalidMemberState (code : UInt32)
  /-- A group identifier without the standard tag. -/
  | invalidSid
  /-- No size tier has this number. -/
  | unknownSizeTier (tier : UInt32)
  /-- The slot does not exist in a group of this scale. -/
  | slotOutOfRange (slot : UInt32) (scale : Nat)
  /-- The input goes on after the message. -/
  | trailingBytes (count : Nat)
  deriving DecidableEq, Repr

namespace WireError

/-- The cause in words. -/
def message : WireError → String
  | unexpectedEof needed remaining =>
    s!"Unexpected end of input: need {needed} bytes, {remaining} left"
  | unknownMessageType tag => s!"Unknown message type {tag}"
  | lengthMismatch declared actual => s!"Length mismatch: declared {declared}, actual {actual}"
  | invalidFieldLength expected got => s!"Invalid field length: expected {expected}, got {got}"
  | invalidG1Point => "Invalid G1 point encoding"
  | invalidG2Point => "Invalid G2 point encoding"
  | invalidMemberState code => s!"Invalid member state {code}"
  | invalidSid => "Malformed session id"
  | unknownSizeTier tier => s!"Unknown size tier {tier}"
  | slotOutOfRange slot scale => s!"Slot {slot} out of range for group of {scale}"
  | trailingBytes count => s!"{count} trailing bytes"

end WireError

end GroupKey
