import GroupKey.Agreement.Engine
import GroupKey.Group.Snapshot
import GroupKey.Node.Context
import GroupKey.Session.KeyBook
import Std.Data.ExtTreeSet

/-!
# Members

A member answers every heartbeat, joins the slot it is handed, keeps its group key pair in step
with the joins it overhears, and takes part in the distribution of session keys. It publishes
its public keys in the directory, so that its steps may change the directory.
-/

namespace GroupKey

/-- The state of a member. -/
structure Member (S : Suite) (ρ : Type) where
  pid : UInt32
  phase : Phase
  engine : Engine S
  /-- The latest snapshot of every live group. -/
  groups : Std.ExtTreeMap GroupId (Snapshot S)
  /-- The slots of its own group whose joins it has missed. -/
  gaps : Std.ExtTreeSet UInt32
  session : KeyBook
  generator : ρ

variable {S : Suite} {ρ : Type} [Generator ρ]

namespace Member

/-- A member with a fresh published key. -/
def new (pid : UInt32) (generator : ρ) (directory : Directory S) :
    Except NodeError (Member S ρ) × Directory S :=
  let out := Engine.empty.keyGen ⟨directory, generator⟩
  match out.result with
  | .error e => (.error (.agreement e), out.resources.directory)
  | .ok _ =>
    (.ok
      { pid, phase := .unset, engine := out.engine, groups := ∅, gaps := ∅, session := .empty,
        generator := out.resources.generator }, out.resources.directory)

/-- The group it holds a key pair for. -/
def joinedGroup? (m : Member S ρ) : Option GroupId :=
  if m.phase = .joined then m.engine.membership.map (·.group) else none

/-! ## Heartbeats -/

/-- Gives up a join that was not acknowledged. -/
def giveUpJoin (m : Member S ρ) : Member S ρ :=
  if m.phase = .joining then { m with engine := m.engine.abandon, phase := .unset } else m

/-- Drops the groups that have expired, and the membership with its group. -/
def dropExpired (now : Timestamp) (m : Member S ρ) : Member S ρ :=
  let m := { m with groups := m.groups.filter fun _ g => !g.isExpired now }
  match m.joinedGroup? with
  | some group => if group ∈ m.groups then m else { m with phase := .unset, gaps := ∅ }
  | none => m

/-- Takes note of a snapshot. A group not heard of is added; more members than known replace what
is known, except of the own group, where the slots that were missed become gaps. -/
def merge (joined : Option GroupId) (m : Member S ρ) (info : Snapshot S) : Member S ρ :=
  match m.groups[info.id]? with
  | none => { m with groups := m.groups.insert info.id info }
  | some cached =>
    if info.memberCount ≤ cached.memberCount then m
    else if joined = some info.id then
      let missed := (cached.slots.diff info.slots).filter info.isOccupied
      { m with gaps := missed.foldl (fun gaps slot => gaps.insert slot) m.gaps }
    else { m with groups := m.groups.insert info.id info }

/-- Starts a new round and answers the heartbeat. -/
def handleHeartbeat (now : Timestamp) (hb : Heartbeat S) (m : Member S ρ) :
    List (Message S) × Member S ρ :=
  let m := m.giveUpJoin.dropExpired now
  let m := hb.groups.foldl (merge m.joinedGroup?) m
  let m := { m with session := (m.session.observe hb.accepted).2 }
  ([.heartbeatAck ⟨m.phase, m.pid, hb.seq⟩], m)

/-! ## Joins -/

/-- Makes a join proof for the slot it is handed, if the slot is free as far as it knows. -/
def handleNotifyPosition (ctx : Context S) (a : Assignment) (m : Member S ρ)
    (directory : Directory S) :
    Except NodeError (List (Message S)) × Member S ρ × Directory S :=
  if a.pid ≠ m.pid ∨ m.phase ≠ .unset then (.ok [], m, directory)
  else
    match m.groups[a.group]? with
    | none => (.ok [], m, directory)
    | some g =>
      match ctx.parameters.scale g.tier with
      | .error e => (.error (.agreement e), m, directory)
      | .ok scale =>
        if scale ≤ a.slot.toNat ∨ g.isOccupied a.slot then (.ok [], m, directory)
        else
          let out := m.engine.prove ctx.parameters a.group g.key g.tier a.slot
            ⟨directory, m.generator⟩
          let m := { m with engine := out.engine, generator := out.resources.generator }
          match out.result with
          | .error e => (.error (.agreement e), m, out.resources.directory)
          | .ok proof =>
            (.ok [.join ⟨m.pid, proof⟩], { m with phase := .joining }, out.resources.directory)

/-- Counts a member that takes `slot` of a group, whose encryption key becomes `key`. A count at
its limit is a failure, with the slot already taken. -/
def fillSlot (group : GroupId) (slot : UInt32) (key : EncryptionKey S) (m : Member S ρ) :
    Except NodeError Unit × Member S ρ :=
  match m.groups[group]? with
  | none => (.ok (), m)
  | some g =>
    let g := g.occupy slot
    match g.countMember? with
    | none => (.error .memberCountOverflow, { m with groups := m.groups.insert group g })
    | some g => (.ok (), { m with groups := m.groups.insert group { g with key } })

/-- Folds the join of another node into its key pair, if it concerns its group and a slot that is
free as far as it knows, and the proof holds. -/
def handleJoin (ctx : Context S) (directory : Directory S) (join : Join S) (m : Member S ρ) :
    Except NodeError Unit × Member S ρ :=
  let proof := join.proof
  if join.pid = m.pid ∨ m.joinedGroup? ≠ some proof.group then (.ok (), m)
  else
    match m.groups[proof.group]? with
    | none => (.ok (), m)
    | some g =>
      if g.isOccupied proof.slot then (.ok (), m)
      else
        let (valid, generator) := proof.check ctx.parameters directory m.generator
        let m := { m with generator }
        if ¬ valid then (.ok (), m)
        else
          match m.engine.absorb ctx.parameters directory proof with
          | (.error _, _) => (.ok (), m)
          | (.ok (), engine) =>
            let key := (engine.membership.map (·.key)).getD g.key
            match fillSlot proof.group proof.slot key { m with engine } with
            | (.error e, m) => (.error e, m)
            | (.ok (), m) => (.ok (), { m with gaps := m.gaps.erase proof.slot })

/-- Completes its join, if the acknowledgement is the one it waits for. -/
def handleJoinAck (ack : JoinAck S) (m : Member S ρ) : Except NodeError Unit × Member S ρ :=
  if m.phase ≠ .joining then (.ok (), m)
  else
    match m.engine.derive ack.group ack.slot ack.share ack.key with
    | (false, engine) => (.ok (), { m with engine })
    | (true, engine) =>
      let m := { m with engine, phase := .joined, gaps := ∅ }
      match m.groups[ack.group]? with
      | none => (.ok (), m)
      | some g =>
        if g.isOccupied ack.slot then
          (.ok (), { m with groups := m.groups.insert ack.group { g with key := ack.key } })
        else fillSlot ack.group ack.slot ack.key m

/-! ## Session keys -/

/-- Draws a session key and encrypts it to every group it knows. -/
def distribute (ctx : Context S) (now : Timestamp) (version : UInt32) (keyLength : Nat)
    (m : Member S ρ) : Distribution S × Member S ρ :=
  let (key, generator) := Generator.bytes keyLength m.generator
  let f := Fingerprint.ofKey S.hash version now key
  let known := m.groups.values
  let (ct, generator) :=
    Ciphertext.encrypt ctx.parameters key (known.map (·.key)) generator
  (⟨m.pid, f, known.map (·.id), ct⟩,
    { m with generator, session := (m.session.offer S.hash f key).2 })

/-- The version after `version`, at most the last one. -/
def nextVersion (version : UInt32) : UInt32 := .ofNat (min (version.toNat + 1) (UInt32.size - 1))

/-- Distributes a session key newer than all it knows of, if it is the member asked for one. -/
def handleKeyEncapNotify (ctx : Context S) (now : Timestamp) (request : DispatchRequest)
    (m : Member S ρ) : List (Message S) × Member S ρ :=
  if request.pid ≠ m.pid ∨ m.phase ≠ .joined then ([], m)
  else
    let version := nextVersion (max request.version m.session.highestVersion)
    let (d, m) := m.distribute ctx now version request.keyLength.toNat
    ([.keyEncap d], m)

/-- Proposes a session key newer than all it knows of. -/
def launchKeyUpdate (ctx : Context S) (now : Timestamp) (m : Member S ρ) :
    List (Message S) × Member S ρ :=
  if m.phase ≠ .joined then ([], m)
  else
    let version := nextVersion m.session.highestVersion
    let (d, m) := m.distribute ctx now version ctx.config.sessionKeyLength.toNat
    ([.keyUpdate d], m)

/-- The session key of a distribution, decrypted with its key pair: only if the distribution
comes from another node, is newer than the adopted key, not held yet, and meant for its group. -/
def sessionKey? (ctx : Context S) (d : Distribution S) (m : Member S ρ) : Option Bytes := do
  let own ← m.joinedGroup?
  if d.pid = m.pid ∨ ¬ d.fingerprint.IsNewer m.session.current ∨
      m.session.HasKeyFor d.fingerprint then none
  else
    let index ← d.groups.findIdx? (· = own)
    match m.engine.decrypt ctx.parameters d.ciphertext index with
    | .ok key => if d.fingerprint.Matches S.hash key then some key else none
    | .error _ => none

/-- Notes the session key of a distribution. -/
def decapsulate (ctx : Context S) (d : Distribution S) (m : Member S ρ) : Member S ρ :=
  match m.sessionKey? ctx d with
  | some key => { m with session := (m.session.offer S.hash d.fingerprint key).2 }
  | none => m

/-! ## Steps -/

/-- The reaction to a message. -/
def handle (ctx : Context S) (now : Timestamp) (msg : Message S) (m : Member S ρ)
    (directory : Directory S) :
    Except NodeError (List (Message S)) × Member S ρ × Directory S :=
  let answer (r : List (Message S) × Member S ρ) := (Except.ok r.1, r.2, directory)
  let silent (r : Except NodeError Unit × Member S ρ) := (r.1.map fun _ => [], r.2, directory)
  match msg with
  | .heartbeat hb => answer (m.handleHeartbeat now hb)
  | .notifyPosition a => m.handleNotifyPosition ctx a directory
  | .join join => silent (m.handleJoin ctx directory join)
  | .joinAck ack => silent (m.handleJoinAck ack)
  | .keyEncapNotify request => answer (m.handleKeyEncapNotify ctx now request)
  | .keyEncap d | .keyUpdate d => answer ([], m.decapsulate ctx d)
  | .keyUpdateAck ack =>
    answer ([], { m with session := (m.session.observe ack.fingerprint).2 })
  | .heartbeatAck _ => answer ([], m)

/-- The reaction to a frame; one that is not well formed is dropped. -/
def receive (ctx : Context S) (now : Timestamp) (frame : Bytes) (m : Member S ρ)
    (directory : Directory S) :
    Except NodeError (List (Message S)) × Member S ρ × Directory S :=
  match ctx.decode? frame with
  | some msg => m.handle ctx now msg directory
  | none => (.ok [], m, directory)

/-- The reaction to a timer. -/
def tick (ctx : Context S) (now : Timestamp) (timer : Timer) (m : Member S ρ) :
    List (Message S) × Member S ρ :=
  match timer with
  | .keyUpdate => m.launchKeyUpdate ctx now
  | .heartbeat | .keyEncapNotify => ([], m)

/-- The timers to be kept armed for a member. -/
def timers : List Timer := [.keyUpdate]

end Member

end GroupKey
