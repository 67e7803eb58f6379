import GroupKey.Node.Coordinator
import GroupKey.Node.Member

/-!
# One coordinator and its members

All nodes together with the directory and the time that they share. Node zero is the
coordinator, node `i + 1` the member at place `i`. Every frame that a node sends is meant for all
other nodes.
-/

namespace GroupKey

/-- The nodes and what they share. -/
structure Network (S : Suite) (ρ : Type) where
  context : Context S
  now : Timestamp
  directory : Directory S
  coordinator : Coordinator S ρ
  members : List (Member S ρ)

/-- A frame and the node that sent it. -/
structure Transmission where
  sender : Nat
  frame : Bytes
  deriving DecidableEq

/-- The kind that the first four bytes of a frame announce. -/
def MessageKind.ofFrame? (frame : Bytes) : Option MessageKind :=
  if 4 ≤ frame.length then (ofTag (.ofNat (Bytes.toNatBE (frame.take 4)))).toOption else none

variable {S : Suite} {ρ : Type} [Generator ρ]

namespace Network

/-- The number of nodes. -/
def nodeCount (n : Network S ρ) : Nat := n.members.length + 1

/-- Creates the nodes in order, each with its number and generator. -/
def assemble (context : Context S) (now : Timestamp) (directory : Directory S)
    (coordinator : UInt32 × ρ) (secrets : SlotSecrets S) (members : List (UInt32 × ρ)) :
    Except NodeError (Network S ρ) :=
  match Coordinator.new context coordinator.1 secrets coordinator.2 with
  | .error e => .error e
  | .ok c => enroll members { context, now, directory, coordinator := c, members := [] }
where
  /-- Creates further members. -/
  enroll : List (UInt32 × ρ) → Network S ρ → Except NodeError (Network S ρ)
    | [], n => .ok n
    | (pid, generator) :: rest, n =>
      match Member.new pid generator n.directory with
      | (.error e, _) => .error e
      | (.ok m, directory) => enroll rest { n with directory, members := n.members ++ [m] }

/-- The frames of a reaction. -/
def frames (result : Except NodeError (List (Message S))) : Except NodeError (List Bytes) :=
  result.map fun messages => messages.map Message.encode

/-- Hands a frame to a node. -/
def deliver (node : Nat) (frame : Bytes) (n : Network S ρ) :
    Except NodeError (List Bytes) × Network S ρ :=
  match node with
  | 0 =>
    let (result, coordinator) := n.coordinator.receive n.context n.directory n.now frame
    (frames result, { n with coordinator })
  | i + 1 =>
    match n.members[i]? with
    | none => (.ok [], n)
    | some m =>
      let (result, m, directory) := m.receive n.context n.now frame n.directory
      (frames result, { n with members := n.members.set i m, directory })

/-- Fires a timer of a node. -/
def tick (node : Nat) (timer : Timer) (n : Network S ρ) :
    Except NodeError (List Bytes) × Network S ρ :=
  match node with
  | 0 =>
    let (result, coordinator) := n.coordinator.tick n.context n.now timer
    (frames result, { n with coordinator })
  | i + 1 =>
    match n.members[i]? with
    | none => (.ok [], n)
    | some m =>
      let (messages, m) := m.tick n.context n.now timer
      (frames (.ok messages), { n with members := n.members.set i m })

/-- The timers to be kept armed for a node. -/
def timers (node : Nat) : List Timer :=
  match node with
  | 0 => Coordinator.timers
  | _ + 1 => Member.timers

/-- Hands a frame to the listed nodes in order, save the sender and those that miss it, and
collects what they send. -/
def broadcastTo (misses : Nat → Bytes → Bool) (t : Transmission) :
    (nodes : List Nat) → (sent : List Transmission) → Network S ρ →
      Except NodeError (List Transmission) × Network S ρ
  | [], sent, n => (.ok sent, n)
  | node :: nodes, sent, n =>
    if node = t.sender ∨ misses node t.frame then broadcastTo misses t nodes sent n
    else
      match n.deliver node t.frame with
      | (.error e, n) => (.error e, n)
      | (.ok frames, n) => broadcastTo misses t nodes (sent ++ frames.map (⟨node, ·⟩)) n

/-- The outcome of a round: the frames that were taken from the queue, in order, and the nodes
after it. -/
structure Round (S : Suite) (ρ : Type) where
  /-- Whether the queue ran empty; an error of a node ends the round. -/
  result : Except NodeError Unit
  sent : List Transmission
  network : Network S ρ

/-- Takes frames from the queue, first in first out, and broadcasts each, until none is left or
`limit` were taken. -/
def drain (misses : Nat → Bytes → Bool) :
    (limit : Nat) → (queue sent : List Transmission) → Network S ρ → Round S ρ
  | 0, _, sent, n => ⟨.ok (), sent, n⟩
  | _ + 1, [], sent, n => ⟨.ok (), sent, n⟩
  | limit + 1, t :: queue, sent, n =>
    match broadcastTo misses t (List.range n.nodeCount) [] n with
    | (.error e, n) => ⟨.error e, sent ++ [t], n⟩
    | (.ok replies, n) => drain misses limit (queue ++ replies) (sent ++ [t]) n

/-- Fires a timer and broadcasts all frames that follow from it. -/
def round (misses : Nat → Bytes → Bool) (limit node : Nat) (timer : Timer) (n : Network S ρ) :
    Round S ρ :=
  match n.tick node timer with
  | (.error e, n) => ⟨.error e, [], n⟩
  | (.ok frames, n) => drain misses limit (frames.map (⟨node, ·⟩)) [] n

end Network

end GroupKey
