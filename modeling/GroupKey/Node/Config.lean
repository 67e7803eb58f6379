import GroupKey.Time

/-!
# Configuration

The tunables that coordinator, members and simulation share, and the periodic timers they set.
-/

namespace GroupKey

/-- The periodic actions that are scheduled for a node. -/
inductive Timer where
  /-- The coordinator broadcasts a heartbeat. -/
  | heartbeat
  /-- The coordinator asks a member for a fresh session key. -/
  | keyEncapNotify
  /-- A member proposes a session key. -/
  | keyUpdate
  deriving DecidableEq, Repr

/-- The name of a timer in reports. -/
def Timer.name : Timer → String
  | heartbeat => "Heartbeat"
  | keyEncapNotify => "KeyEncapNotify"
  | keyUpdate => "KeyUpdate"

/-- The shared tunables. -/
structure Config where
  securityLevel : UInt32
  /-- The largest group that parameters are made for. -/
  maxGroupSize : UInt64
  /-- The distance between size tiers. -/
  sizeStep : UInt64
  /-- The size of the groups that the coordinator creates. -/
  groupSize : UInt64
  heartbeatMillis : UInt64
  keyEncapMillis : UInt64
  keyUpdateMillis : UInt64
  /-- The least time between two accepted key updates. -/
  keyUpdateThresholdMillis : UInt64
  livenessTimeoutMillis : UInt64
  /-- How old the time of issue of a distributed key may be. -/
  freshnessWindowMillis : UInt64
  groupLifetimeMillis : UInt64
  /-- The length of a session key in bytes. -/
  sessionKeyLength : UInt32
  deriving DecidableEq, Repr

namespace Config

/-- The tunables unless told otherwise. -/
def standard : Config where
  securityLevel := 80
  maxGroupSize := 10
  sizeStep := 10
  groupSize := 10
  heartbeatMillis := 1000
  keyEncapMillis := 3000
  keyUpdateMillis := 2000
  keyUpdateThresholdMillis := 2000
  livenessTimeoutMillis := 2000
  freshnessWindowMillis := 1000
  groupLifetimeMillis := 60000
  sessionKeyLength := 32

/-- The period of a timer. -/
def interval (c : Config) : Timer → Duration
  | .heartbeat => .ofMillis c.heartbeatMillis.toNat
  | .keyEncapNotify => .ofMillis c.keyEncapMillis.toNat
  | .keyUpdate => .ofMillis c.keyUpdateMillis.toNat

/-- The least time between two accepted key updates. -/
def keyUpdateThreshold (c : Config) : Duration := .ofMillis c.keyUpdateThresholdMillis.toNat

/-- How long a silent member counts as alive. -/
def livenessTimeout (c : Config) : Duration := .ofMillis c.livenessTimeoutMillis.toNat

/-- How old the time of issue of a distributed key may be. -/
def freshnessWindow (c : Config) : Duration := .ofMillis c.freshnessWindowMillis.toNat

/-- How long a group lasts. -/
def groupLifetime (c : Config) : Duration := .ofMillis c.groupLifetimeMillis.toNat

end Config

end GroupKey
