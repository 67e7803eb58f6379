import GroupKey.Wire.Message
import GroupKey.Wire.Writer

/-!
# Messages as frames

A frame is the tag of the message's kind, the length of the payload and the payload. Lengths
that follow from the size tier of a group are not written, nor is the absent entry of a join
proof or the hash of a fingerprint of version zero.
-/

namespace GroupKey

namespace Wire

variable {S : Suite}

/-- Version, time of issue and, above version zero, the hash. -/
def fingerprint (f : Fingerprint) : Bytes :=
  Bytes.ofUInt32 f.version ++ time f.issued ++ if 0 < f.version then f.digest.bytes else []

/-- Both components of an encryption key. -/
def encryptionKey (k : EncryptionKey S) : Bytes := point2 k.lambda ++ point1 k.mu

/-- A group snapshot behind its length, which counts itself. -/
def snapshot (g : Snapshot S) : Bytes :=
  let body := Bytes.ofUInt32 g.memberCount ++ g.id.toBytes ++ time g.expiry ++ g.slots.bytes ++
    encryptionKey g.key
  Bytes.ofUInt32 (.ofNat (4 + body.length)) ++ body

/-- A join proof; absent entries are left out. -/
def joinProof (p : JoinProof S) : Bytes :=
  Bytes.ofUInt32 p.keyId ++ Bytes.ofUInt32 (.ofNat p.tier.toNat) ++ Bytes.ofUInt32 p.slot ++
    p.group.toBytes ++ point2 p.u ++ p.z.flatMap fun z => (z.map point1).getD []

/-- The length of the message, the ephemeral element and the parts. -/
def ciphertext (c : Ciphertext S) : Bytes :=
  Bytes.ofUInt32 (.ofNat c.messageLength) ++ point2 c.c1 ++
    c.parts.flatMap fun part => point2 part.c2 ++ part.c3

/-- The number of groups, the sender, the fingerprint, the groups and the ciphertext. -/
def distribution (d : Distribution S) : Bytes :=
  Bytes.ofUInt32 (.ofNat d.groups.length) ++ Bytes.ofUInt32 d.pid ++ fingerprint d.fingerprint ++
    d.groups.flatMap GroupId.toBytes ++ ciphertext d.ciphertext

end Wire

namespace Message

variable {S : Suite}

/-- The payload of a message. -/
def payload : Message S → Bytes
  | heartbeat m =>
    Bytes.ofUInt32 m.seq ++ Wire.fingerprint m.accepted ++ m.groups.flatMap Wire.snapshot
  | heartbeatAck m => Bytes.ofUInt32 m.phase.code ++ Bytes.ofUInt32 m.pid ++ Bytes.ofUInt32 m.seq
  | notifyPosition m => m.group.toBytes ++ Bytes.ofUInt32 m.slot ++ Bytes.ofUInt32 m.pid
  | join m => Bytes.ofUInt32 m.pid ++ Wire.joinProof m.proof
  | joinAck m =>
    m.group.toBytes ++ Bytes.ofUInt32 m.slot ++ Bytes.ofUInt32 m.keyId ++ Wire.point1 m.share ++
      Wire.encryptionKey m.key
  | keyEncapNotify m =>
    Bytes.ofUInt32 m.pid ++ Bytes.ofUInt32 m.keyLength ++ Bytes.ofUInt32 m.version
  | keyEncap m => Wire.distribution m
  | keyUpdate m => Wire.distribution m
  | keyUpdateAck m => Bytes.ofUInt32 m.pid ++ Wire.fingerprint m.fingerprint

/-- The frame of a message. -/
def encode (m : Message S) : Bytes :=
  let payload := m.payload
  Bytes.ofUInt32 m.kind.tag ++ Bytes.ofUInt32 (.ofNat payload.length) ++ payload

end Message

end GroupKey
