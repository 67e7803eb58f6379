import GroupKey.Agreement.Broadcast
import GroupKey.Agreement.Proof
import GroupKey.Group.Managed
import GroupKey.Node.Context
import GroupKey.Session.KeyBook
import GroupKey.Session.Liveness

/-!
# The coordinator

The coordinator creates groups, hands out one slot at a time, admits the member that proves its
join, asks members for fresh session keys and decides which distributed key is accepted. It
answers frames and timers; the time and the directory are given to every step.
-/

namespace GroupKey

/-- Whether the coordinator waits for a join. -/
inductive CoordinatorPhase where
  | idle
  /-- A slot was handed out and its join is awaited. -/
  | handlingJoin
  deriving DecidableEq, Repr

/-- The name of a phase in reports. -/
def CoordinatorPhase.name : CoordinatorPhase → String
  | idle => "Idle"
  | handlingJoin => "HandlingJoin"

/-- The state of the coordinator. -/
structure Coordinator (S : Suite) (ρ : Type) where
  pid : UInt32
  /-- The tier that new groups are made from. -/
  tier : UInt16
  phase : CoordinatorPhase
  groups : Std.ExtTreeMap GroupId (ManagedGroup S)
  /-- The group that new members are placed in. -/
  current : Option GroupId
  nextGroupSeq : UInt16
  nextHeartbeatSeq : UInt32
  lastHeartbeatSeq : Option UInt32
  /-- The slot whose join is awaited. -/
  assignment : Option Assignment
  /-- Whether a slot was handed out since the last heartbeat. -/
  assignedThisRound : Bool
  liveness : Liveness
  /-- The member asked for the next session key. -/
  dispatcher : Option UInt32
  /-- The fingerprint accepted last, gossiped in every heartbeat. -/
  accepted : Fingerprint
  lastKeyUpdate : Option Timestamp
  session : KeyBook
  secrets : SlotSecrets S
  generator : ρ

variable {S : Suite} {ρ : Type} [Generator ρ]

namespace ManagedGroup

/-- Lets the joiner of a checked proof take its slot, and gives the share of the slot. A failure
keeps what was changed before it. -/
def seat (p : Parameters S) (directory : Directory S) (proof : JoinProof S)
    (g : ManagedGroup S) : Except NodeError S.G1 × ManagedGroup S :=
  match proof.keyChange p directory with
  | .error e => (.error (.agreement e), g)
  | .ok change =>
    let g := { g with info.key := g.info.key.apply change }
    match g.applyShares p proof with
    | (.error e, g) => (.error (.agreement e), g)
    | (.ok (), g) =>
      let info := g.info.occupy proof.slot
      match info.countMember? with
      | none => (.error .memberCountOverflow, { g with info })
      | some info =>
        let g := { g with info }
        match g.shares[proof.slot.toNat]? with
        | none => (.error (.agreement (.slotOutOfRange proof.slot.toNat g.scale)), g)
        | some share => (.ok share, g)

end ManagedGroup

namespace Coordinator

/-- A coordinator that creates groups of the configured size. -/
def new (ctx : Context S) (pid : UInt32) (secrets : SlotSecrets S) (generator : ρ) :
    Except NodeError (Coordinator S ρ) :=
  let size := ctx.config.groupSize.toNat
  match if 0 < size then ctx.parameters.tierForSize? size else none with
  | none => .error (.unsupportedGroupSize size)
  | some tier =>
    .ok
      { pid, tier, phase := .idle, groups := ∅, current := none, nextGroupSeq := 0,
        nextHeartbeatSeq := 0, lastHeartbeatSeq := none, assignment := none,
        assignedThisRound := false, liveness := .empty, dispatcher := none, accepted := .zero,
        lastKeyUpdate := none, session := .empty, secrets, generator }

/-- The group that new members are placed in. -/
def currentGroup? (c : Coordinator S ρ) : Option (ManagedGroup S) := do
  let id ← c.current
  c.groups[id]?

/-- The public states of all groups held, in the order of their names. -/
def snapshots (c : Coordinator S ρ) : List (Snapshot S) := c.groups.values.map (·.info)

/-! ## Heartbeats -/

/-- Gives up the join that is awaited, and forgets the member that did not join. -/
def abandonAssignment (c : Coordinator S ρ) : Coordinator S ρ :=
  let liveness := match c.assignment with
    | some stuck => c.liveness.remove stuck.pid
    | none => c.liveness
  { c with assignment := none, liveness, phase := .idle, assignedThisRound := false }

/-- Drops the groups that have expired. -/
def dropExpired (now : Timestamp) (c : Coordinator S ρ) : Coordinator S ρ :=
  { c with groups := c.groups.filter fun _ g => !g.info.isExpired now }

/-- Creates a group to place members in unless there is one with room. -/
def ensureCurrent (ctx : Context S) (now : Timestamp) (c : Coordinator S ρ) :
    Except AgreementError (Coordinator S ρ) :=
  if c.currentGroup?.any fun g => !g.isFull then .ok c
  else
    let expiry := now + ctx.config.groupLifetime
    match ManagedGroup.bootstrap ctx.parameters c.nextGroupSeq c.tier expiry with
    | .error e => .error e
    | .ok g =>
      .ok { c with
        nextGroupSeq := c.nextGroupSeq + 1
        current := some g.info.id
        groups := c.groups.insert g.info.id g }

/-- Starts a new round: what was left of the last one is given up, and the groups held are
broadcast. -/
def heartbeat (ctx : Context S) (now : Timestamp) (c : Coordinator S ρ) :
    Except NodeError (List (Message S)) × Coordinator S ρ :=
  let c := c.abandonAssignment.dropExpired now
  match c.ensureCurrent ctx now with
  | .error e => (.error (.agreement e), c)
  | .ok c =>
    let seq := c.nextHeartbeatSeq
    let c := { c with nextHeartbeatSeq := seq + 1, lastHeartbeatSeq := some seq }
    (.ok [.heartbeat ⟨seq, c.accepted, c.snapshots⟩], c)

/-- The slot that an unset member is handed on its answer to the heartbeat `seq`: the first free
one of the current group, once per round and only for the latest heartbeat. -/
def slotFor? (now : Timestamp) (seq : UInt32) (c : Coordinator S ρ) : Option (GroupId × UInt32) :=
  if c.phase ≠ .idle ∨ c.assignedThisRound ∨ c.lastHeartbeatSeq ≠ some seq then none
  else
    match c.currentGroup? with
    | none => none
    | some g =>
      if g.info.isExpired now then none
      else (g.freeSlots.head?).map fun slot => (g.info.id, slot)

/-- Notes that a member is alive, and hands it a slot if it has none. -/
def handleHeartbeatAck (now : Timestamp) (ack : HeartbeatAck) (c : Coordinator S ρ) :
    List (Message S) × Coordinator S ρ :=
  let liveness := c.liveness.touch ack.pid now ack.phase
  let liveness :=
    if ack.phase = .unset then
      liveness.assign ack.pid ((liveness.get? ack.pid).bind (·.slot)) false
    else liveness
  let c := { c with liveness }
  if ack.phase ≠ .unset then ([], c)
  else
    match c.slotFor? now ack.seq with
    | none => ([], c)
    | some (group, slot) =>
      let assignment : Assignment := ⟨group, slot, ack.pid⟩
      ([.notifyPosition assignment],
        { c with
          liveness := c.liveness.assign ack.pid (some (group, slot)) false
          assignment := some assignment
          assignedThisRound := true
          phase := .handlingJoin })

/-! ## Joins -/

/-- Admits the member whose join is awaited, if its proof holds. -/
def handleJoin (ctx : Context S) (directory : Directory S) (now : Timestamp) (join : Join S)
    (c : Coordinator S ρ) : Except NodeError (List (Message S)) × Coordinator S ρ :=
  let proof := join.proof
  if c.phase ≠ .handlingJoin ∨ c.assignment ≠ some ⟨proof.group, proof.slot, join.pid⟩ then
    (.ok [], c)
  else
    match c.groups[proof.group]? with
    | none => (.error (.unknownGroup proof.group), c)
    | some g =>
      if g.info.tier ≠ proof.tier ∨ g.info.isOccupied proof.slot then (.ok [], c)
      else
        let (valid, generator) := proof.check ctx.parameters directory c.generator
        let c := { c with generator }
        if ¬ valid then (.ok [], c)
        else
          match g.seat ctx.parameters directory proof with
          | (.error e, g) => (.error e, { c with groups := c.groups.insert proof.group g })
          | (.ok share, g) =>
            let liveness := (c.liveness.touch join.pid now .joining).assign join.pid
              (some (proof.group, proof.slot)) true
            (.ok [.joinAck ⟨proof.group, proof.slot, proof.keyId, share, g.info.key⟩],
              { c with
                groups := c.groups.insert proof.group g
                liveness
                assignment := none
                phase := .idle })

/-! ## Session keys -/

/-- Whether a record is that of a member of a group held. -/
def isMemberRecord (c : Coordinator S ρ) (record : MemberRecord) : Bool :=
  record.joined && record.slot.any fun (group, _) => group ∈ c.groups

/-- Forgets the stale members and asks the most recently heard member of a group held for a fresh
session key. -/
def notifyKeyEncap (ctx : Context S) (now : Timestamp) (c : Coordinator S ρ) :
    List (Message S) × Coordinator S ρ :=
  let (evicted, liveness) := c.liveness.evictStale now ctx.config.livenessTimeout
  let dispatcher := c.dispatcher.filter fun pid => !evicted.contains pid
  let c := { c with liveness, dispatcher }
  match c.liveness.mostRecent? c.isMemberRecord with
  | none => ([], c)
  | some target =>
    ([.keyEncapNotify ⟨target, ctx.config.sessionKeyLength, c.accepted.version⟩],
      { c with dispatcher := some target })

/-- Whether a fingerprint is newer than the accepted one and was issued recently. -/
def IsFresh (ctx : Context S) (now : Timestamp) (c : Coordinator S ρ) (f : Fingerprint) : Prop :=
  f.IsNewer c.accepted ∧ now ≤ f.issued + ctx.config.freshnessWindow

instance (ctx : Context S) (now : Timestamp) (c : Coordinator S ρ) (f : Fingerprint) :
    Decidable (IsFresh ctx now c f) := inferInstanceAs (Decidable (_ ∧ _))

/-- The decryption key of a slot still held by its pseudo member, if the group has one. -/
def pseudoKey? (c : Coordinator S ρ) (g : ManagedGroup S) : Option (UInt32 × S.G1) := do
  let slot ← g.freeSlots.head?
  let diagonal ← c.secrets.diagonal? g.info.tier slot
  let share ← g.shares[slot.toNat]?
  return (slot, share + diagonal)

/-- Decrypts part `index` and those after it through free slots of the listed groups, until the
result matches the fingerprint. -/
def recoverFrom (ctx : Context S) (c : Coordinator S ρ) (f : Fingerprint) (ct : Ciphertext S) :
    (index : Nat) → List GroupId → Option Bytes
  | _, [] => none
  | index, group :: groups =>
    let key? : Option Bytes := do
      let g ← c.groups[group]?
      let (slot, decryptionKey) ← c.pseudoKey? g
      match ct.decryptWith ctx.parameters decryptionKey slot index with
      | .ok key => if f.Matches S.hash key then some key else none
      | .error _ => none
    match key? with
    | some key => some key
    | none => recoverFrom ctx c f ct (index + 1) groups

/-- Accepts a distributed key, and adopts it if one of its parts can be decrypted. -/
def accept (ctx : Context S) (now : Timestamp) (d : Distribution S) (c : Coordinator S ρ) :
    Coordinator S ρ :=
  let session := match recoverFrom ctx c d.fingerprint d.ciphertext 0 d.groups with
    | some key => (c.session.offer S.hash d.fingerprint key).2
    | none => c.session
  { c with
    accepted := d.fingerprint
    lastKeyUpdate := some now
    session := (session.observe d.fingerprint).2 }

/-- Accepts and relays the key of the member that was asked for it. -/
def handleKeyEncap (ctx : Context S) (now : Timestamp) (d : Distribution S)
    (c : Coordinator S ρ) : List (Message S) × Coordinator S ρ :=
  if c.dispatcher ≠ some d.pid ∨ ¬ IsFresh ctx now c d.fingerprint then ([], c)
  else ([.keyEncap d], accept ctx now d { c with dispatcher := none })

/-- Whether a key was accepted less than the threshold before `now`. -/
def IsRateLimited (ctx : Context S) (now : Timestamp) (c : Coordinator S ρ) : Prop :=
  ∃ last ∈ c.lastKeyUpdate, now.since last < ctx.config.keyUpdateThreshold

instance (ctx : Context S) (now : Timestamp) (c : Coordinator S ρ) :
    Decidable (IsRateLimited ctx now c) :=
  match h : c.lastKeyUpdate with
  | none => isFalse (by simp [IsRateLimited, h])
  | some last => decidable_of_iff (now.since last < ctx.config.keyUpdateThreshold)
      (by simp [IsRateLimited, h])

/-- Accepts, relays and acknowledges a key that a member proposed on its own. -/
def handleKeyUpdate (ctx : Context S) (now : Timestamp) (d : Distribution S)
    (c : Coordinator S ρ) : List (Message S) × Coordinator S ρ :=
  if ¬ IsFresh ctx now c d.fingerprint ∨ IsRateLimited ctx now c then ([], c)
  else ([.keyUpdate d, .keyUpdateAck ⟨d.pid, d.fingerprint⟩], accept ctx now d c)

/-! ## Steps -/

/-- The reaction to a message. -/
def handle (ctx : Context S) (directory : Directory S) (now : Timestamp) (m : Message S)
    (c : Coordinator S ρ) : Except NodeError (List (Message S)) × Coordinator S ρ :=
  let answer (r : List (Message S) × Coordinator S ρ) := (Except.ok r.1, r.2)
  match m with
  | .heartbeatAck ack => answer (c.handleHeartbeatAck now ack)
  | .join join => c.handleJoin ctx directory now join
  | .keyEncap d => answer (c.handleKeyEncap ctx now d)
  | .keyUpdate d => answer (c.handleKeyUpdate ctx now d)
  | .heartbeat _ | .notifyPosition _ | .joinAck _ | .keyEncapNotify _ | .keyUpdateAck _ =>
    (.ok [], c)

/-- The reaction to a frame; one that is not well formed is dropped. -/
def receive (ctx : Context S) (directory : Directory S) (now : Timestamp) (frame : Bytes)
    (c : Coordinator S ρ) : Except NodeError (List (Message S)) × Coordinator S ρ :=
  match ctx.decode? frame with
  | some m => c.handle ctx directory now m
  | none => (.ok [], c)

/-- The reaction to a timer. -/
def tick (ctx : Context S) (now : Timestamp) (timer : Timer) (c : Coordinator S ρ) :
    Except NodeError (List (Message S)) × Coordinator S ρ :=
  match timer with
  | .heartbeat => c.heartbeat ctx now
  | .keyEncapNotify =>
    let (ms, c) := c.notifyKeyEncap ctx now
    (.ok ms, c)
  | .keyUpdate => (.ok [], c)

/-- The timers to be kept armed for the coordinator. -/
def timers : List Timer := [.heartbeat, .keyEncapNotify]

end Coordinator

end GroupKey
