import GroupKey.GroupId
import GroupKey.Suite
import GroupKey.Wire.Error

/-!
# Fields of a frame, read

A cursor holds what is left of the input and counts what was read. A read that fails leaves the
cursor behind the last field that was there in full.
-/

namespace GroupKey

/-- The rest of an input and the number of bytes read so far. -/
structure Cursor where
  rest : Bytes
  position : Nat
  deriving DecidableEq

/-- A cursor at the start of an input. -/
def Cursor.ofBytes (input : Bytes) : Cursor := ⟨input, 0⟩

/-- A read either gives a value or fails, and moves the cursor in both cases. -/
abbrev Read (α : Type) : Type := EStateM WireError Cursor α

namespace Read

/-- The next `n` bytes. -/
def bytes (n : Nat) : Read { bs : Bytes // bs.length = n } := fun c =>
  let chunk := c.rest.take n
  if h : chunk.length = n then .ok ⟨chunk, h⟩ ⟨c.rest.drop n, c.position + n⟩
  else .error (.unexpectedEof n chunk.length) c

/-- A two-byte integer. -/
def uint16 : Read UInt16 := do return .ofNat (Bytes.toNatBE (← bytes 2).val)

/-- A four-byte integer. -/
def uint32 : Read UInt32 := do return .ofNat (Bytes.toNatBE (← bytes 4).val)

/-- An eight-byte integer. -/
def uint64 : Read UInt64 := do return .ofNat (Bytes.toNatBE (← bytes 8).val)

/-- Bytes behind a two-byte length. -/
def prefixed : Read Bytes := do
  let length ← uint16
  return (← bytes length.toNat).val

/-- Bytes behind a two-byte length that has to be `n`. -/
def prefixedExact (n : Nat) : Read Bytes := do
  let field ← prefixed
  if field.length = n then return field else throw (.invalidFieldLength n field.length)

variable (S : Suite)

/-- The length of the compressed form of an element of the first source group. -/
def pointLength1 : Nat := 48

/-- The length of the compressed form of an element of the second source group. -/
def pointLength2 : Nat := 96

/-- An element of the first source group. -/
def point1 : Read S.G1 := do
  match S.read1? (← prefixedExact pointLength1) with
  | some x => return x
  | none => throw .invalidG1Point

/-- An element of the second source group. -/
def point2 : Read S.G2 := do
  match S.read2? (← prefixedExact pointLength2) with
  | some x => return x
  | none => throw .invalidG2Point

/-- A group identifier with the standard tag. -/
def groupId : Read GroupId := do
  let id := GroupId.ofBytes (← bytes GroupId.size).val
  if id.IsWellFormed then return id else throw .invalidSid

/-- A point in time, in microseconds. -/
def time : Read Timestamp := do return ⟨← uint64⟩

/-- Succeeds at the end of the input only. -/
def finish : Read Unit := fun c =>
  match c.rest.length with
  | 0 => .ok () c
  | n + 1 => .error (.trailingBytes (n + 1)) c

/-- Reads `n` values in a row. -/
def times {α : Type} (read : Read α) : (n : Nat) → Read (List α)
  | 0 => return []
  | n + 1 => do
    let a ← read
    let as ← times read n
    return a :: as

/-- Reads values until the input ends, at most `limit` of them. -/
def untilEnd {α : Type} (read : Read α) : (limit : Nat) → Read (List α)
  | 0 => return []
  | limit + 1 => do
    if (← get).rest.isEmpty then return []
    else
      let a ← read
      let as ← untilEnd read limit
      return a :: as

end Read

end GroupKey
