import GroupKey.Node.Network
import GroupKey.Simulation.Medium
import GroupKey.Simulation.Queue

/-!
# Simulated runs

A simulation takes the events of its queue in order, sets the clock to the time of each and lets
the node react; the frames that the node sends are scheduled for delivery. A run goes on until
no event is due by the given time. Whether it ends depends on the periods of the timers, so a run
is given a limit on the number of events.
-/

namespace GroupKey

/-- The nodes with the medium and the events to come. -/
structure Simulation (S : Suite) (ρ : Type) where
  network : Network S ρ
  link : Link
  queue : EventQueue
  traffic : Traffic
  /-- The generator of the medium. -/
  generator : ρ

/-- Why a simulation cannot start. -/
inductive StartError where
  | setup (e : AgreementError)
  | node (e : NodeError)
  deriving DecidableEq, Repr

/-- The cause in words. -/
def StartError.message : StartError → String
  | setup e => e.message
  | node e => e.message

/-- How a run ended. -/
inductive RunResult where
  /-- No further event is due. -/
  | finished
  /-- A node failed. -/
  | failed (e : NodeError)
  /-- The limit was reached with events due. -/
  | unfinished
  deriving DecidableEq, Repr

variable {S : Suite} {ρ : Type} [Generator ρ]

namespace Simulation

/-- The period of a timer. -/
def period (sim : Simulation S ρ) (timer : Timer) : Duration :=
  sim.network.context.config.interval timer

/-! ## Start -/

/-- Draws a seed for each node in turn and makes its generator. -/
def drawGenerators (spawn : UInt64 → ρ) : (pids : List UInt32) → ρ → List (UInt32 × ρ) × ρ
  | [], r => ([], r)
  | pid :: pids, r =>
    let (seed, r) := Generator.word64 r
    let (rest, r) := drawGenerators spawn pids r
    ((pid, spawn seed) :: rest, r)

/-- A coordinator with number zero and members numbered from one, on parameters drawn first from
the generator. The rest of the generator goes to the medium. -/
def assemble (S : Suite) (config : Config) (memberCount : Nat) (link : Link) (start : Timestamp)
    (spawn : UInt64 → ρ) (r : ρ) : Except StartError (Simulation S ρ) :=
  match Parameters.setup (S := S) config.securityLevel config.maxGroupSize.toNat
      config.sizeStep.toNat r with
  | (.error e, _) => .error (.setup e)
  | (.ok (parameters, secrets), r) =>
    let (seed, r) := Generator.word64 r
    let (members, r) :=
      drawGenerators spawn ((List.range memberCount).map fun i => .ofNat (i + 1)) r
    match Network.assemble ⟨parameters, config⟩ start .empty (0, spawn seed) secrets members with
    | .error e => .error (.node e)
    | .ok network => .ok { network, link, queue := .empty, traffic := .zero, generator := r }

/-- Schedules a timer, that of a member at a random time within its first period, so that the
members' proposals do not fall together. -/
def armTimer (start : Timestamp) (node : Nat) (timer : Timer) (sim : Simulation S ρ) :
    Simulation S ρ :=
  if node = 0 then { sim with queue := sim.queue.schedule start (.timer node timer) }
  else
    let micros := min (sim.period timer).micros Timestamp.lastMicros
    let (offset, generator) := Generator.below (max micros 1) sim.generator
    { sim with
      generator
      queue := sim.queue.schedule (start + Duration.ofMicros offset) (.timer node timer) }

/-- Schedules the timers of all nodes. -/
def armTimers (sim : Simulation S ρ) : Simulation S ρ :=
  let start := sim.network.now
  (List.range sim.network.nodeCount).foldl
    (fun sim node => (Network.timers node).foldl (fun sim t => sim.armTimer start node t) sim) sim

/-! ## Events -/

/-- Loses a delivery or schedules it. -/
def dispatch (now : Timestamp) (frame : Bytes) (sim : Simulation S ρ) (node : Nat) :
    Simulation S ρ :=
  let (lost, generator) := sim.link.loss.draw sim.generator
  if lost then { sim with generator, traffic := sim.traffic.drop }
  else
    { sim with
      generator
      traffic := sim.traffic.deliver
      queue := sim.queue.schedule (now + sim.link.latency) (.deliver node frame) }

/-- Sends a frame to all nodes but its sender. -/
def broadcast (sender : Nat) (now : Timestamp) (sim : Simulation S ρ) (frame : Bytes) :
    Simulation S ρ :=
  let sim := { sim with traffic := sim.traffic.send (MessageKind.ofFrame? frame) }
  ((List.range sim.network.nodeCount).filter (· ≠ sender)).foldl (dispatch now frame) sim

/-- Lets the node of an event react, and re-arms a timer that has fired. -/
def react (now : Timestamp) (event : Event) (sim : Simulation S ρ) :
    Except NodeError (Nat × List Bytes) × Simulation S ρ :=
  let network := { sim.network with now }
  match event with
  | .timer node timer =>
    match network.tick node timer with
    | (.error e, network) => (.error e, { sim with network })
    | (.ok frames, network) =>
      (.ok (node, frames),
        { sim with
          network
          queue := sim.queue.schedule (now + sim.period timer) (.timer node timer) })
  | .deliver node frame =>
    match network.deliver node frame with
    | (.error e, network) => (.error e, { sim with network })
    | (.ok frames, network) => (.ok (node, frames), { sim with network })

/-- Takes the next event due by `stop`; none when there is none. -/
def step? (stop : Timestamp) (sim : Simulation S ρ) :
    Option (Except NodeError Unit × Simulation S ρ) :=
  match sim.queue.next? stop with
  | none => none
  | some (moment, event, queue) =>
    match { sim with queue }.react moment.time event with
    | (.error e, sim) => some (.error e, sim)
    | (.ok (node, frames), sim) => some (.ok (), frames.foldl (broadcast node moment.time) sim)

/-- Takes events until none is due by `stop`, to which the clock is set in the end. -/
def runUntil (stop : Timestamp) : (limit : Nat) → Simulation S ρ → RunResult × Simulation S ρ
  | 0, sim => (.unfinished, sim)
  | limit + 1, sim =>
    match sim.step? stop with
    | none => (.finished, { sim with network.now := stop })
    | some (.error e, sim) => (.failed e, sim)
    | some (.ok (), sim) => runUntil stop limit sim

end Simulation

end GroupKey
