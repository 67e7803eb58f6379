import GroupKey.Group.Snapshot
import GroupKey.Session.Fingerprint
import GroupKey.Session.Phase
import GroupKey.Wire.Error

/-!
# Messages

The nine kinds of message that nodes broadcast. Every message reaches every node; those meant
for one member name it by its number.
-/

namespace GroupKey

/-- The coordinator's periodic broadcast: the accepted session key and all groups it holds. -/
structure Heartbeat (S : Suite) where
  seq : UInt32
  accepted : Fingerprint
  groups : List (Snapshot S)

/-- A member's answer to a heartbeat. -/
structure HeartbeatAck where
  phase : Phase
  pid : UInt32
  seq : UInt32
  deriving DecidableEq

/-- A slot handed to a member. -/
structure Assignment where
  group : GroupId
  slot : UInt32
  pid : UInt32
  deriving DecidableEq

/-- A member's proof for its slot. -/
structure Join (S : Suite) where
  pid : UInt32
  proof : JoinProof S

/-- The coordinator's answer to an accepted proof, with the share of the slot and the new key of
the group. -/
structure JoinAck (S : Suite) where
  group : GroupId
  slot : UInt32
  keyId : UInt32
  share : S.G1
  key : EncryptionKey S

/-- A request to a member to distribute a fresh session key. -/
structure DispatchRequest where
  pid : UInt32
  keyLength : UInt32
  /-- The version of the session key accepted last. -/
  version : UInt32
  deriving DecidableEq

/-- A session key encrypted to the listed groups, in order. -/
structure Distribution (S : Suite) where
  pid : UInt32
  fingerprint : Fingerprint
  groups : List GroupId
  ciphertext : Ciphertext S
  deriving DecidableEq

/-- The coordinator's acceptance of a key update. -/
structure UpdateAck where
  pid : UInt32
  fingerprint : Fingerprint
  deriving DecidableEq

/-- A message of the protocol. -/
inductive Message (S : Suite) where
  | heartbeat (m : Heartbeat S)
  | heartbeatAck (m : HeartbeatAck)
  | notifyPosition (m : Assignment)
  | join (m : Join S)
  | joinAck (m : JoinAck S)
  | keyEncapNotify (m : DispatchRequest)
  | keyEncap (m : Distribution S)
  | keyUpdate (m : Distribution S)
  | keyUpdateAck (m : UpdateAck)

/-- The kinds of message. -/
inductive MessageKind where
  | heartbeat
  | heartbeatAck
  | notifyPosition
  | join
  | joinAck
  | keyEncapNotify
  | keyEncap
  | keyUpdate
  | keyUpdateAck
  deriving DecidableEq, Repr

namespace MessageKind

/-- The number that stands for a kind in a frame. -/
def tag : MessageKind → UInt32
  | heartbeat => 1
  | heartbeatAck => 2
  | notifyPosition => 3
  | join => 4
  | joinAck => 5
  | keyEncapNotify => 6
  | keyEncap => 7
  | keyUpdate => 8
  | keyUpdateAck => 9

/-- The name of a kind in reports. -/
def name : MessageKind → String
  | heartbeat => "Heartbeat"
  | heartbeatAck => "HeartbeatAck"
  | notifyPosition => "NotifyPosition"
  | join => "Join"
  | joinAck => "JoinAck"
  | keyEncapNotify => "KeyEncapNotify"
  | keyEncap => "KeyEncap"
  | keyUpdate => "KeyUpdate"
  | keyUpdateAck => "KeyUpdateAck"

/-- All kinds, in the order of their tags. -/
def all : List MessageKind :=
  [heartbeat, heartbeatAck, notifyPosition, join, joinAck, keyEncapNotify, keyEncap, keyUpdate,
    keyUpdateAck]

/-- The kind with a given tag. -/
def ofTag (tag : UInt32) : Except WireError MessageKind :=
  match all.find? fun k => k.tag = tag with
  | some k => .ok k
  | none => .error (.unknownMessageType tag)

end MessageKind

/-- The kind of a message. -/
def Message.kind {S : Suite} : Message S → MessageKind
  | heartbeat _ => .heartbeat
  | heartbeatAck _ => .heartbeatAck
  | notifyPosition _ => .notifyPosition
  | join _ => .join
  | joinAck _ => .joinAck
  | keyEncapNotify _ => .keyEncapNotify
  | keyEncap _ => .keyEncap
  | keyUpdate _ => .keyUpdate
  | keyUpdateAck _ => .keyUpdateAck

end GroupKey
