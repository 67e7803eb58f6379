import GroupKey.GroupId
import GroupKey.Json.Parser
import GroupKey.Node.Config
import GroupKey.Session.Fingerprint
import GroupKey.Session.Phase

/-!
# Domain values as JSON

How identifiers, times, fingerprints, phases and configurations are written and read. A record is
read from an object, whose unknown members are skipped and whose known ones may not be repeated,
or from an array of its fields in order. Integers have to be spelled without sign, point and
exponent.
-/

namespace GroupKey.Json

/-- The integer below `bound` that a number spells. -/
def natBelow? (bound : Nat) : Json → Option Nat
  | number text =>
    if text.toList.all Char.isDigit then
      let n := text.toList.foldl (fun n c => 10 * n + (c.toNat - '0'.toNat)) 0
      if n < bound then some n else none
    else none
  | _ => none

/-- A thirty-two-bit integer. -/
def uint32? (v : Json) : Option UInt32 := (v.natBelow? UInt32.size).map .ofNat

/-- A sixty-four-bit integer. -/
def uint64? (v : Json) : Option UInt64 := (v.natBelow? UInt64.size).map .ofNat

/-- An array of exactly `n` bytes. -/
def bytes? (n : Nat) : Json → Option Bytes
  | array items =>
    if items.length = n then items.mapM fun v => (v.natBelow? 256).map UInt8.ofNat else none
  | _ => none

/-- An array of numbers. -/
def ofBytes (bytes : Bytes) : Json := array (bytes.map fun b => nat b.toNat)

/-- The value of the only member with a given key; absent members are allowed, repeated ones are
not. -/
def member? (key : String) (members : List (Option String × Json)) : Option (Option Json) :=
  match members.filter fun m => m.1 = some key with
  | [] => some none
  | [(_, v)] => some (some v)
  | _ => none

/-- The fields of a record with the given keys, absent where the value has none. -/
def fields? (keys : List String) : Json → Option (List (Option Json))
  | object members =>
    if members.all fun m => m.1.isSome then keys.mapM fun k => member? k members else none
  | array items =>
    if items.length ≤ keys.length then
      some (items.map some ++ List.replicate (keys.length - items.length) none)
    else none
  | _ => none

end Json

namespace Timestamp

/-- A bare number of microseconds. -/
def toJson (t : Timestamp) : Json := .nat t.micros.toNat

/-- Reads a bare number of microseconds. -/
def ofJson? (v : Json) : Option Timestamp := v.uint64?.map Timestamp.mk

end Timestamp

namespace GroupId

/-- An array of sixteen bytes. -/
def toJson (g : GroupId) : Json := .ofBytes g.toBytes

/-- Reads an array of sixteen bytes, whatever the tag. -/
def ofJson? (v : Json) : Option GroupId := (v.bytes? size).map ofBytes

end GroupId

namespace Phase

/-- The name of the phase. -/
def toJson (p : Phase) : Json := .str p.name

/-- The phase with a given name. -/
def ofName? (name : String) : Option Phase := [unset, joining, joined].find? fun p => p.name = name

/-- Reads the name of a phase, or an object whose only member has that key and no value. -/
def ofJson? : Json → Option Phase
  | .string (some name) => ofName? name
  | .object [(some name, .null)] => ofName? name
  | _ => none

end Phase

namespace Fingerprint

/-- The keys of a fingerprint. -/
def keys : List String := ["version", "timestamp", "hash"]

/-- A record of version, time of issue and hash. -/
def toJson (f : Fingerprint) : Json :=
  .record [("version", .nat f.version.toNat), ("timestamp", f.issued.toJson),
    ("hash", .ofBytes f.digest.bytes)]

/-- Reads a record of version, time of issue and hash, none of which may be absent. -/
def ofJson? (v : Json) : Option Fingerprint := do
  match ← v.fields? keys with
  | [some version, some issued, some hash] =>
    return ⟨← version.uint32?, ← Timestamp.ofJson? issued, ← Digest.ofBytes? (← hash.bytes? 32)⟩
  | _ => none

end Fingerprint

namespace Config

/-- The keys of a configuration. -/
def keys : List String :=
  ["security_level", "max_group_size", "size_step", "group_size", "heartbeat_interval_ms",
    "key_encap_interval_ms", "key_update_interval_ms", "key_update_threshold_ms",
    "liveness_timeout_ms", "freshness_window_ms", "group_lifetime_ms", "session_key_len"]

/-- The tunables in the order of their keys. -/
def values (c : Config) : List Nat :=
  [c.securityLevel.toNat, c.maxGroupSize.toNat, c.sizeStep.toNat, c.groupSize.toNat,
    c.heartbeatMillis.toNat, c.keyEncapMillis.toNat, c.keyUpdateMillis.toNat,
    c.keyUpdateThresholdMillis.toNat, c.livenessTimeoutMillis.toNat,
    c.freshnessWindowMillis.toNat, c.groupLifetimeMillis.toNat, c.sessionKeyLength.toNat]

/-- A record of all tunables. -/
def toJson (c : Config) : Json := .record (keys.zip (c.values.map Json.nat))

/-- Reads a field, for which `standard` stands in when it is absent. -/
def field? {α : Type} (read? : Json → Option α) (standard : α) : Option Json → Option α
  | none => some standard
  | some v => read? v

/-- Reads a record of tunables; the standard ones stand in for those that are absent. -/
def ofJson? (v : Json) : Option Config := do
  match ← v.fields? keys with
  | [level, maxSize, step, size, heartbeat, encap, update, threshold, timeout, window, lifetime,
      length] =>
    return {
      securityLevel := ← field? Json.uint32? standard.securityLevel level
      maxGroupSize := ← field? Json.uint64? standard.maxGroupSize maxSize
      sizeStep := ← field? Json.uint64? standard.sizeStep step
      groupSize := ← field? Json.uint64? standard.groupSize size
      heartbeatMillis := ← field? Json.uint64? standard.heartbeatMillis heartbeat
      keyEncapMillis := ← field? Json.uint64? standard.keyEncapMillis encap
      keyUpdateMillis := ← field? Json.uint64? standard.keyUpdateMillis update
      keyUpdateThresholdMillis := ← field? Json.uint64? standard.keyUpdateThresholdMillis threshold
      livenessTimeoutMillis := ← field? Json.uint64? standard.livenessTimeoutMillis timeout
      freshnessWindowMillis := ← field? Json.uint64? standard.freshnessWindowMillis window
      groupLifetimeMillis := ← field? Json.uint64? standard.groupLifetimeMillis lifetime
      sessionKeyLength := ← field? Json.uint32? standard.sessionKeyLength length }
  | _ => none

/-- The configuration that a text spells. -/
def parse? (text : String) : Option Config := do ofJson? (← Json.parse? text)

end Config

end GroupKey
