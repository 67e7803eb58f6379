import GroupKey.Proofs.Simulation.Queue
import GroupKey.Simulation.Basic

/-!
# What a simulation does with one event

The first event is taken from the queue, and the clock is set to its time before the node reacts. A
timer that has fired is armed again, and each frame of the reaction is scheduled for every other
node, unless the medium loses it. Nothing else is scheduled. A node that fails ends the run, with
what it did to the network.

* `Network.keeps_handle` — no reaction changes the clock, the parameters or the number of nodes.
* `Schedules` — what sending leaves: some of the deliveries are scheduled, the others are lost.
* `Takes` — what taking an event leaves, after a reaction and after a failure.
* `step?_cases` — every step takes the first event, if one is due.
-/

namespace GroupKey

/-- The node that an event happens to. -/
def Event.node : Event → Nat
  | timer node _ | deliver node _ => node

variable {S : Suite} {ρ : Type}

/-! ## Reactions -/

namespace Network

variable [Generator ρ]

/-- The reaction of a node to an event. -/
def handle (event : Event) (n : Network S ρ) : Except NodeError (List Bytes) × Network S ρ :=
  match event with
  | .timer node timer => n.tick node timer
  | .deliver node frame => n.deliver node frame

/-- What the nodes share is the same, and there are as many. -/
structure Keeps (n n' : Network S ρ) : Prop where
  context : n'.context = n.context
  now : n'.now = n.now
  nodeCount : n'.nodeCount = n.nodeCount

/-- **No reaction changes the clock**, the parameters or the number of nodes. -/
theorem keeps_handle (event : Event) (n : Network S ρ) : n.Keeps (n.handle event).2 := by
  cases event with
  | timer node timer =>
    cases node with
    | zero => exact ⟨rfl, rfl, rfl⟩
    | succ place =>
      simp only [handle, tick]
      split
      · exact ⟨rfl, rfl, rfl⟩
      · exact ⟨rfl, rfl, by simp [nodeCount]⟩
  | deliver node frame =>
    cases node with
    | zero => exact ⟨rfl, rfl, rfl⟩
    | succ place =>
      simp only [handle, deliver]
      split
      · exact ⟨rfl, rfl, rfl⟩
      · exact ⟨rfl, rfl, by simp [nodeCount]⟩

end Network

namespace Simulation

variable {sim sim' sim'' : Simulation S ρ} {moment : Moment} {event : Event} {rest : EventQueue}
  {stop : Timestamp}

/-! ## Frames on their way -/

/-- All deliveries of frames that a node sends. -/
def deliveries (sim : Simulation S ρ) (sender : Nat) (now : Timestamp) (frames : List Bytes) :
    List (Timestamp × Event) :=
  frames.flatMap fun frame =>
    ((List.range sim.network.nodeCount).filter (· ≠ sender)).map fun node =>
      (now + sim.link.latency, .deliver node frame)

/-- `sim'` is `sim` with those of the listed events scheduled that were not lost, in their order,
and each of them counted as delivered or as dropped. -/
structure Schedules (sim : Simulation S ρ) (all added : List (Timestamp × Event))
    (sim' : Simulation S ρ) : Prop where
  network : sim'.network = sim.network
  link : sim'.link = sim.link
  sublist : added.Sublist all
  queue : sim'.queue = sim.queue.scheduleAll added
  delivered : sim'.traffic.deliveries = sim.traffic.deliveries + added.length
  dropped : sim'.traffic.dropped + added.length = sim.traffic.dropped + all.length

theorem Schedules.refl (sim : Simulation S ρ) : sim.Schedules [] [] sim :=
  ⟨rfl, rfl, .slnil, rfl, rfl, rfl⟩

theorem Schedules.trans {all later added added' : List (Timestamp × Event)}
    (h : sim.Schedules all added sim') (h' : sim'.Schedules later added' sim'') :
    sim.Schedules (all ++ later) (added ++ added') sim'' where
  network := h'.network.trans h.network
  link := h'.link.trans h.link
  sublist := h.sublist.append h'.sublist
  queue := by rw [h'.queue, h.queue, EventQueue.scheduleAll_append]
  delivered := by rw [h'.delivered, h.delivered, List.length_append, Nat.add_assoc]
  dropped := by
    have hfirst := h.dropped
    have hrest := h'.dropped
    rw [List.length_append, List.length_append]
    omega

/-! ## Timers that are armed -/

variable [Generator ρ]

/-- The timers to be armed are armed, those of the coordinator at once and each other one within
its first period. -/
structure Arms (sim : Simulation S ρ) (start : Timestamp) (timers : List (Nat × Timer))
    (added : List (Timestamp × Event)) : Prop where
  events : added.map (·.2) = timers.map fun x => .timer x.1 x.2
  due : ∀ x ∈ added, start ≤ x.1
  atOnce : ∀ time node timer, (time, .timer node timer) ∈ added → sim.period timer = .zero →
    time = start

theorem armTimer_eq (start : Timestamp) (node : Nat) (timer : Timer) (sim : Simulation S ρ) :
    ∃ time generator, sim.armTimer start node timer = { sim with
        generator
        queue := sim.queue.schedule time (.timer node timer) } ∧
      start ≤ time ∧ (sim.period timer = .zero → time = start) := by
  unfold armTimer
  split
  · exact ⟨start, sim.generator, rfl, Timestamp.le_refl _, fun _ => rfl⟩
  · rcases hdraw : Generator.below (max (min (sim.period timer).micros Timestamp.lastMicros) 1)
      sim.generator with ⟨offset, generator⟩
    refine ⟨start + Duration.ofMicros offset, generator, by simp only [hdraw],
      Timestamp.le_add _ _, fun hzero => ?_⟩
    -- Only zero is below the bound for a period of zero.
    have hmicros : (sim.period timer).micros = 0 := by rw [hzero]; rfl
    have hbelow := Generator.below_lt Nat.one_pos sim.generator
    rw [hmicros, Nat.zero_min, Nat.zero_max] at hdraw
    rw [hdraw] at hbelow
    obtain rfl : offset = 0 := Nat.lt_one_iff.1 hbelow
    exact start.add_zero

/-- **What arming schedules.** -/
theorem armTimers_eq (sim : Simulation S ρ) :
    ∃ added generator,
      sim.armTimers = { sim with generator, queue := sim.queue.scheduleAll added } ∧
      sim.Arms sim.network.now ((List.range sim.network.nodeCount).flatMap fun node =>
        (Network.timers node).map (node, ·)) added := by
  have harm (start : Timestamp) (timers : List (Nat × Timer)) (sim : Simulation S ρ) :
      ∃ added generator, timers.foldl (fun sim x => sim.armTimer start x.1 x.2) sim =
          { sim with generator, queue := sim.queue.scheduleAll added } ∧
        sim.Arms start timers added := by
    induction timers generalizing sim with
    | nil => exact ⟨[], sim.generator, rfl, rfl, by simp, by simp⟩
    | cons x timers ih =>
      obtain ⟨time, generator, hfirst, hle, hzero⟩ := armTimer_eq start x.1 x.2 sim
      obtain ⟨added, generator', hrest, harms⟩ := ih (sim.armTimer start x.1 x.2)
      refine ⟨(time, .timer x.1 x.2) :: added, generator', ?_, ?_, ?_, ?_⟩
      · rw [List.foldl_cons, hrest, hfirst]
        rfl
      · rw [List.map_cons, List.map_cons, harms.events]
      · exact List.forall_mem_cons.2 ⟨hle, harms.due⟩
      · intro time' node timer hmem hperiod
        rcases List.mem_cons.1 hmem with heq | hmem
        · obtain ⟨rfl, rfl, rfl⟩ : time' = time ∧ node = x.1 ∧ timer = x.2 := by simpa using heq
          exact hzero hperiod
        · refine harms.atOnce time' node timer hmem ?_
          rw [hfirst]
          exact hperiod
  obtain ⟨added, generator, heq, harms⟩ := harm sim.network.now _ sim
  refine ⟨added, generator, ?_, harms⟩
  rw [← heq, List.foldl_flatMap]
  simp only [List.foldl_map]
  rfl

/-! ## Frames that are sent -/

theorem schedules_dispatch (now : Timestamp) (frame : Bytes) (sim : Simulation S ρ) (node : Nat) :
    ∃ added, sim.Schedules [(now + sim.link.latency, .deliver node frame)] added
      (dispatch now frame sim node) := by
  unfold dispatch
  rcases sim.link.loss.draw sim.generator with ⟨lost, generator⟩
  cases lost with
  | true => exact ⟨[], rfl, rfl, List.nil_sublist _, rfl, rfl, rfl⟩
  | false => exact ⟨_, rfl, rfl, .refl _, rfl, rfl, rfl⟩

/-- **A frame that is sent** is scheduled for every other node, unless it is lost on the way. -/
theorem schedules_broadcast (sender : Nat) (now : Timestamp) (sim : Simulation S ρ)
    (frame : Bytes) :
    ∃ added, sim.Schedules (sim.deliveries sender now [frame]) added
      (broadcast sender now sim frame) := by
  have hnodes (nodes : List Nat) (sim : Simulation S ρ) :
      ∃ added, sim.Schedules
        (nodes.map fun node => (now + sim.link.latency, .deliver node frame)) added
        (nodes.foldl (dispatch now frame) sim) := by
    induction nodes generalizing sim with
    | nil => exact ⟨[], .refl sim⟩
    | cons node nodes ih =>
      obtain ⟨added, hfirst⟩ := schedules_dispatch now frame sim node
      obtain ⟨added', hrest⟩ := ih (dispatch now frame sim node)
      rw [hfirst.link] at hrest
      exact ⟨_, hfirst.trans hrest⟩
  rw [deliveries, List.flatMap_singleton]
  obtain ⟨added, h⟩ := hnodes ((List.range sim.network.nodeCount).filter (· ≠ sender))
    { sim with traffic := sim.traffic.send (MessageKind.ofFrame? frame) }
  exact ⟨added, h.network, h.link, h.sublist, h.queue, h.delivered, h.dropped⟩

/-- **Nothing but deliveries of the frames is scheduled** when a node sends them. -/
theorem schedules_foldl_broadcast (sender : Nat) (now : Timestamp) (frames : List Bytes)
    (sim : Simulation S ρ) :
    ∃ added, sim.Schedules (sim.deliveries sender now frames) added
      (frames.foldl (broadcast sender now) sim) := by
  induction frames generalizing sim with
  | nil => exact ⟨[], .refl sim⟩
  | cons frame frames ih =>
    obtain ⟨added, hfirst⟩ := schedules_broadcast sender now sim frame
    obtain ⟨added', hrest⟩ := ih (broadcast sender now sim frame)
    rw [deliveries, hfirst.network, hfirst.link, ← deliveries] at hrest
    have hsplit : sim.deliveries sender now (frame :: frames) =
        sim.deliveries sender now [frame] ++ sim.deliveries sender now frames := by
      simp [deliveries]
    rw [hsplit]
    exact ⟨_, hfirst.trans hrest⟩

/-! ## Events that are taken -/

/-- A timer that has fired, a period later. -/
def rearmed (sim : Simulation S ρ) (now : Timestamp) : Event → List (Timestamp × Event)
  | .timer node timer => [(now + sim.period timer, .timer node timer)]
  | .deliver _ _ => []

/-- What taking an event leaves, when `rest` are the others: the node has failed, or it has reacted
and what follows is scheduled. -/
inductive Takes (sim : Simulation S ρ) (moment : Moment) (event : Event) (rest : EventQueue)
    (sim' : Simulation S ρ) : Except NodeError Unit → Prop
  | failed (e : NodeError)
      (reaction : { sim.network with now := moment.time }.handle event = (.error e, sim'.network))
      (link : sim'.link = sim.link) (queue : sim'.queue = rest) :
    Takes sim moment event rest sim' (.error e)
  | reacted (frames : List Bytes) (sent : List (Timestamp × Event))
      (reaction : { sim.network with now := moment.time }.handle event = (.ok frames, sim'.network))
      (link : sim'.link = sim.link)
      (sublist : sent.Sublist (sim.deliveries event.node moment.time frames))
      (queue : sim'.queue = rest.scheduleAll (sim.rearmed moment.time event ++ sent)) :
    Takes sim moment event rest sim' (.ok ())

/-- The nodes share what they shared, and the clock shows the time of the event. -/
theorem Takes.keeps {r : Except NodeError Unit} (h : sim.Takes moment event rest sim' r) :
    Network.Keeps { sim.network with now := moment.time } sim'.network := by
  have hkeeps := Network.keeps_handle event { sim.network with now := moment.time }
  cases h with
  | failed _ reaction => rwa [reaction] at hkeeps
  | reacted _ _ reaction => rwa [reaction] at hkeeps

theorem Takes.now {r : Except NodeError Unit} (h : sim.Takes moment event rest sim' r) :
    sim'.network.now = moment.time :=
  h.keeps.now

theorem react_eq (now : Timestamp) (event : Event) (sim : Simulation S ρ) :
    sim.react now event =
      match { sim.network with now }.handle event with
      | (.error e, network) => (.error e, { sim with network })
      | (.ok frames, network) =>
        (.ok (event.node, frames), { sim with
          network
          queue := sim.queue.scheduleAll (sim.rearmed now event) }) := by
  unfold react
  cases event with
  | timer node timer =>
    simp only [Network.handle]
    rcases Network.tick node timer { sim.network with now } with ⟨_ | frames, network⟩ <;> rfl
  | deliver node frame =>
    simp only [Network.handle]
    rcases Network.deliver node frame { sim.network with now } with ⟨_ | frames, network⟩ <;> rfl

/-- **Every step takes the first event**, if one is due. -/
theorem step?_cases (sim : Simulation S ρ) (stop : Timestamp) :
    (sim.step? stop = none ∧ ∀ x ∈ sim.queue.entries, stop < x.1.time) ∨
      ∃ moment event rest r sim', sim.queue.next? stop = some (moment, event, rest) ∧
        moment.time ≤ stop ∧ sim.queue.Pops moment event rest ∧
        sim.step? stop = some (r, sim') ∧ sim.Takes moment event rest sim' r := by
  rcases sim.queue.next?_cases stop with
    ⟨hnone, hlate⟩ | ⟨moment, event, rest, hnext, hdue, hpops⟩
  · exact .inl ⟨by rw [step?, hnone], hlate⟩
  have hstep : ∃ r sim', sim.step? stop = some (r, sim') ∧ sim.Takes moment event rest sim' r := by
    rcases hhandle : { sim.network with now := moment.time }.handle event with
      ⟨e | frames, network⟩ <;> simp only [step?, hnext, react_eq, hhandle]
    · refine ⟨_, _, rfl, ?_⟩
      exact .failed e hhandle rfl rfl
    · obtain ⟨sent, hnetwork, hlink, hsub, hqueue, -, -⟩ :=
        schedules_foldl_broadcast event.node moment.time frames
          { sim with
            network
            queue := rest.scheduleAll (sim.rearmed moment.time event) }
      have hkeeps := Network.keeps_handle event { sim.network with now := moment.time }
      rw [hhandle] at hkeeps
      have hcount : network.nodeCount = sim.network.nodeCount := hkeeps.nodeCount
      refine ⟨_, _, rfl, ?_⟩
      refine .reacted frames sent (hhandle.trans (congrArg _ hnetwork.symm)) hlink ?_ ?_
      · rw [deliveries, hcount] at hsub
        exact hsub
      · rw [EventQueue.scheduleAll_append]
        exact hqueue
  obtain ⟨r, sim', hstep, htakes⟩ := hstep
  exact .inr ⟨moment, event, rest, r, sim', hnext, hdue, hpops, hstep, htakes⟩

end Simulation

end GroupKey
