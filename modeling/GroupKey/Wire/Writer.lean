import GroupKey.GroupId
import GroupKey.Suite

/-!
# Fields of a frame, written

Integers are written most significant byte first. Group elements are written as two bytes of
length and their compressed form. A writer is the output so far; a reserved word is filled in
once its value is known.
-/

namespace GroupKey

namespace Wire

/-- Bytes behind their length, which is counted modulo `2 ^ 16`. -/
def prefixed (bytes : Bytes) : Bytes := Bytes.ofUInt16 (.ofNat bytes.length) ++ bytes

variable {S : Suite}

/-- An element of the first source group. -/
def point1 (x : S.G1) : Bytes := prefixed (S.write1 x)

/-- An element of the second source group. -/
def point2 (x : S.G2) : Bytes := prefixed (S.write2 x)

/-- A point in time, in microseconds. -/
def time (t : Timestamp) : Bytes := Bytes.ofUInt64 t.micros

/-- Replaces the word at `offset`, which has to lie within the output. -/
def patch? (output : Bytes) (offset : Nat) (value : UInt32) : Option Bytes :=
  if offset + 4 ≤ output.length then
    some (output.take offset ++ Bytes.ofUInt32 value ++ output.drop (offset + 4))
  else none

end Wire

end GroupKey
