import GroupKey.Decimal.Shortest
import GroupKey.Json.Value
import GroupKey.Simulation.Basic

/-!
# Reports

What a simulated run came to: the traffic, the coordinator's groups, and for every node its
state and session key.
-/

namespace GroupKey

namespace Report

/-- Numbers in reports have a point; those from `1e16` on or below `1e-5` have an exponent. -/
def numberFormat : Decimal.Format := ⟨some 5, some 16, true⟩

/-- The state of a group. -/
structure Group where
  name : String
  memberCount : UInt32
  occupied : List UInt32

/-- A session key, by version and the start of its hash. -/
structure Key where
  version : UInt32
  shortDigest : Option String

/-- The state of a member. -/
structure Node where
  pid : UInt32
  phase : Phase
  group : Option String
  slot : Option UInt32
  gaps : List UInt32
  key : Key

end Report

/-- The summary of a run. -/
structure Report where
  durationMillis : Nat
  memberCount : Nat
  loss : Float
  traffic : Traffic
  groups : List Report.Group
  coordinator : Report.Key
  nodes : List Report.Node
  /-- How many joined members have the key that the coordinator accepted last. -/
  inSync : Nat
  joined : Nat

variable {S : Suite} {ρ : Type} [Generator ρ]

namespace Report

/-- The adopted key of a book. -/
def Key.ofBook (b : KeyBook) : Key :=
  ⟨b.current.version, if 0 < b.current.version then some b.current.digest.shortHex else none⟩

/-- The public state of a group. -/
def Group.ofSnapshot (g : Snapshot S) : Group := ⟨g.id.render, g.memberCount, g.slots.occupied⟩

/-- The state of a member; group and slot are those it has joined. -/
def Node.ofMember (m : Member S ρ) : Node :=
  let membership := if m.phase = .joined then m.engine.membership else none
  ⟨m.pid, m.phase, membership.map (·.group.render), membership.map (·.slot), m.gaps.toList,
    .ofBook m.session⟩

/-- Whether a member has joined and adopted the key that the coordinator accepted last. -/
def isInSync (accepted : Fingerprint) (m : Member S ρ) : Bool :=
  m.phase = .joined ∧ 0 < accepted.version ∧ m.session.current.version = accepted.version ∧
    m.session.current.digest = accepted.digest

/-- The summary of a run of the given length. -/
def ofSimulation (sim : Simulation S ρ) (durationMillis : Nat) (loss : Float) : Report :=
  let n := sim.network
  { durationMillis
    memberCount := n.members.length
    loss
    traffic := sim.traffic
    groups := n.coordinator.snapshots.map Group.ofSnapshot
    coordinator := .ofBook n.coordinator.session
    nodes := n.members.map Node.ofMember
    inSync := (n.members.filter (isInSync n.coordinator.accepted)).length
    joined := (n.members.filter (·.phase = .joined)).length }

/-! ## Texts -/

/-- A value or nothing. -/
def optional {α : Type} (f : α → Json) : Option α → Json
  | some a => f a
  | none => .null

/-- A list of slots. -/
def slots (slots : List UInt32) : Json := .array (slots.map fun s => .nat s.toNat)

/-- Version and start of the hash. -/
def Key.toJson (k : Key) : Json :=
  .record [("version", .nat k.version.toNat), ("fingerprint", optional .str k.shortDigest)]

/-- Name, size and occupied slots. -/
def Group.toJson (g : Group) : Json :=
  .record [("sid", .str g.name), ("n_member", .nat g.memberCount.toNat),
    ("occupied", slots g.occupied)]

/-- Number, phase, place and key. -/
def Node.toJson (n : Node) : Json :=
  .record [("pid", .nat n.pid.toNat), ("state", .str n.phase.name), ("sid", optional .str n.group),
    ("pos", optional (fun s => .nat s.toNat) n.slot), ("gap_slots", slots n.gaps),
    ("key", n.key.toJson)]

/-- The members of the report in their order. -/
def members (r : Report) : List (String × Json) :=
  [("duration_ms", .nat r.durationMillis), ("members", .nat r.memberCount),
    ("loss", .number (numberFormat.floatText r.loss)),
    ("frames_sent", .nat r.traffic.framesSent), ("deliveries", .nat r.traffic.deliveries),
    ("dropped", .nat r.traffic.dropped),
    ("frames_by_type", .record (r.traffic.byKind.toList.map fun (k, v) => (k, .nat v))),
    ("groups", .array (r.groups.map Group.toJson)), ("coordinator", r.coordinator.toJson),
    ("nodes", .array (r.nodes.map Node.toJson)), ("members_in_sync", .nat r.inSync),
    ("members_joined", .nat r.joined)]

/-- The report as a JSON value. -/
def toJson (r : Report) : Json := .record r.members

end Report

end GroupKey
