import GroupKey.Agreement.Parameters
import GroupKey.Wire.Message
import GroupKey.Wire.Reader

/-!
# Frames as messages

Decoding undoes encoding and refuses everything else. It needs the public parameters: the
number of slots of a group, and with it the length of bitmaps and join proofs, follows from the
size tier.
-/

namespace GroupKey

namespace Read

variable {S : Suite}

/-- A fingerprint; version zero has no hash in the input. -/
def fingerprint : Read Fingerprint := do
  let version ← uint32
  let issued ← time
  if 0 < version then
    let hash ← bytes 32
    return ⟨version, issued, ⟨hash.val, hash.property⟩⟩
  else return ⟨version, issued, .zero⟩

/-- Both components of an encryption key. -/
def encryptionKey : Read (EncryptionKey S) := do
  let lambda ← point2 S
  let mu ← point1 S
  return ⟨lambda, mu⟩

/-- A group snapshot behind its length. -/
def snapshot (p : Parameters S) : Read (Snapshot S) := do
  let start := (← get).position
  let declared ← uint32
  let memberCount ← uint32
  let id ← groupId
  let expiry ← time
  match p.scale id.tier with
  | .error _ => throw (.unknownSizeTier (.ofNat id.tier.toNat))
  | .ok scale =>
    let slots ← bytes (Bitmap.byteCount scale)
    let key ← encryptionKey
    let actual := (← get).position - start
    if declared.toNat = actual then
      return { tier := id.tier, memberCount, id, slots := ⟨slots.val⟩, key, expiry }
    else throw (.lengthMismatch declared.toNat actual)

/-- The entries of a join proof from slot `j` on, without that of `slot`. -/
def entries (slot : Nat) : (j n : Nat) → Read (List (Option S.G1))
  | _, 0 => return []
  | j, n + 1 => do
    let z ← if j = slot then pure none else some <$> point1 S
    let zs ← entries slot (j + 1) n
    return z :: zs

/-- A join proof. -/
def joinProof (p : Parameters S) : Read (JoinProof S) := do
  let keyId ← uint32
  let rawTier ← uint32
  let slot ← uint32
  if UInt16.size ≤ rawTier.toNat then throw (.unknownSizeTier rawTier)
  else
    let tier := UInt16.ofNat rawTier.toNat
    match p.scale tier with
    | .error _ => throw (.unknownSizeTier rawTier)
    | .ok scale =>
      if scale ≤ slot.toNat then throw (.slotOutOfRange slot scale)
      else
        let group ← groupId
        let u ← point2 S
        let z ← entries slot.toNat 0 scale
        return ⟨keyId, tier, slot, group, u, z⟩

/-- One part of a ciphertext for a message of the given length. -/
def ciphertextPart (length : Nat) : Read (CiphertextPart S) := do
  let c2 ← point2 S
  let c3 ← bytes length
  return ⟨c2, c3.val⟩

/-- A ciphertext of `count` parts. -/
def ciphertext (count : Nat) : Read (Ciphertext S) := do
  let length ← uint32
  let c1 ← point2 S
  let parts ← times (ciphertextPart length.toNat) count
  return ⟨c1, parts⟩

/-- A key distribution. -/
def distribution : Read (Distribution S) := do
  let count ← uint32
  let pid ← uint32
  let f ← fingerprint
  let groups ← times groupId count.toNat
  let c ← ciphertext count.toNat
  return ⟨pid, f, groups, c⟩

/-- The phase of a member. -/
def phase : Read Phase := do
  let code ← uint32
  match Phase.ofCode? code with
  | some phase => return phase
  | none => throw (.invalidMemberState code)

/-- The payload of a message of the given kind. -/
def payload (p : Parameters S) : MessageKind → Read (Message S)
  | .heartbeat => do
    let seq ← uint32
    let accepted ← fingerprint
    let groups ← untilEnd (snapshot p) (← get).rest.length
    return .heartbeat ⟨seq, accepted, groups⟩
  | .heartbeatAck => do
    let phase ← phase
    let pid ← uint32
    let seq ← uint32
    return .heartbeatAck ⟨phase, pid, seq⟩
  | .notifyPosition => do
    let group ← groupId
    let slot ← uint32
    let pid ← uint32
    return .notifyPosition ⟨group, slot, pid⟩
  | .join => do
    let pid ← uint32
    let proof ← joinProof p
    return .join ⟨pid, proof⟩
  | .joinAck => do
    let group ← groupId
    let slot ← uint32
    let keyId ← uint32
    let share ← point1 S
    let key ← encryptionKey
    return .joinAck ⟨group, slot, keyId, share, key⟩
  | .keyEncapNotify => do
    let pid ← uint32
    let keyLength ← uint32
    let version ← uint32
    return .keyEncapNotify ⟨pid, keyLength, version⟩
  | .keyEncap => do return .keyEncap (← distribution)
  | .keyUpdate => do return .keyUpdate (← distribution)
  | .keyUpdateAck => do
    let pid ← uint32
    let f ← fingerprint
    return .keyUpdateAck ⟨pid, f⟩

/-- The kind of message that a frame announces. -/
def kind : Read MessageKind := do
  match MessageKind.ofTag (← uint32) with
  | .ok kind => return kind
  | .error e => throw e

/-- A whole frame. -/
def message (p : Parameters S) : Read (Message S) := do
  let kind ← kind
  let declared ← uint32
  let actual := (← get).rest.length
  if declared.toNat = actual then
    let m ← payload p kind
    finish
    return m
  else throw (.lengthMismatch declared.toNat actual)

end Read

namespace Message

variable {S : Suite}

/-- The message in a frame. -/
def decode (p : Parameters S) (frame : Bytes) : Except WireError (Message S) :=
  match (Read.message p).run (Cursor.ofBytes frame) with
  | .ok m _ => .ok m
  | .error e _ => .error e

end Message

end GroupKey
