import GroupKey.Proofs.Simulation.Order

/-!
# What the medium counts

The medium counts the frames that are sent, by their kinds and in all, and for every other node
whether the frame was scheduled or lost. These counts stay in balance, whatever is lost and whether
or not nodes fail: each frame is accounted for at every node but its sender, and every delivery that
was counted has been taken from the queue or still waits in it.

* `Sending`, `sent` — the frames that a run sends, each with the deliveries that it schedules.
* `IsAccounted` — what the counts say about the events taken, the queue and the frames sent.
* `IsAccounted.broadcast`, `IsAccounted.step`, `IsAccounted.runUntil` — it stays so with every
  frame, with every event and through every run.
* `traffic_conserved` — several runs, one after another, from a fresh start.
-/

namespace GroupKey

/-- Whether the event is the arrival of a frame. -/
def Event.isDelivery : Event → Bool
  | timer _ _ => false
  | deliver _ _ => true

/-- A frame that was sent, with the deliveries that were scheduled for it. -/
structure Sending where
  sender : Nat
  frame : Bytes
  scheduled : List (Moment × Event)

/-- The frame was scheduled for nodes other than its sender only, and at most once for each. -/
structure Sending.IsToOthers (s : Sending) (nodeCount : Nat) : Prop where
  delivers : ∀ x ∈ s.scheduled, x.2 = .deliver x.2.node s.frame ∧ x.2.node < nodeCount
  notSender : ∀ x ∈ s.scheduled, x.2.node ≠ s.sender
  nodup : (s.scheduled.map (·.2.node)).Nodup

variable {S : Suite} {ρ : Type}

theorem Network.node_lt_of_handle [Generator ρ] {n n' : Network S ρ} {event : Event}
    {frames : List Bytes} {frame : Bytes} (h : n.handle event = (.ok frames, n'))
    (hmem : frame ∈ frames) : event.node < n.nodeCount := by
  have hplace {place : Nat} {frames : List Bytes} (hnone : n.members[place]? = none → frames = [])
      (hmem : frame ∈ frames) : place + 1 < n.nodeCount := by
    refine Nat.succ_lt_succ (Nat.lt_of_not_le fun hle => ?_)
    rw [hnone (List.getElem?_eq_none hle)] at hmem
    cases hmem
  cases event with
  | timer node timer =>
    cases node with
    | zero => exact Nat.succ_pos _
    | succ place =>
      refine hplace (fun hnone => ?_) hmem
      simp only [handle, tick, hnone, Prod.mk.injEq, Except.ok.injEq] at h
      exact h.1.symm
  | deliver node frame =>
    cases node with
    | zero => exact Nat.succ_pos _
    | succ place =>
      refine hplace (fun hnone => ?_) hmem
      simp only [handle, deliver, hnone, Prod.mk.injEq, Except.ok.injEq] at h
      exact h.1.symm

namespace Simulation

variable {sim sim' : Simulation S ρ} {moment : Moment} {event : Event} {rest : EventQueue}
  {stop : Timestamp} {r : Except NodeError Unit} {members sender : Nat}
  {taken : List (Moment × Event)} {earlier : List Sending}

/-! ## Counts in balance -/

/-- What was counted is what the frames that were sent come to, and the deliveries among the events
that were taken or wait are those that were scheduled for these frames. -/
structure IsAccounted (sim : Simulation S ρ) (members : Nat) (taken : List (Moment × Event))
    (sent : List Sending) : Prop where
  numbered : sim.queue.IsNumbered
  nodeCount : sim.network.nodeCount = members + 1
  framesSent : sim.traffic.framesSent = sent.length
  byKind : sim.traffic.byKind.values.sum = sent.length
  deliveries : sim.traffic.deliveries = (sent.flatMap (·.scheduled)).length
  balance : sent.length * members = sim.traffic.deliveries + sim.traffic.dropped
  scheduled : ((taken ++ sim.queue.entries).filter (·.2.isDelivery)).Perm
    (sent.flatMap (·.scheduled))
  toOthers : ∀ s ∈ sent, s.IsToOthers (members + 1)

theorem IsAccounted.timers (h : sim.IsAccounted members taken earlier)
    (added : List (Timestamp × Event)) (htimers : ∀ x ∈ added, x.2.isDelivery = false)
    (hnodes : sim'.network.nodeCount = sim.network.nodeCount)
    (hqueue : sim'.queue = sim.queue.scheduleAll added) (htraffic : sim'.traffic = sim.traffic) :
    sim'.IsAccounted members taken earlier := by
  obtain ⟨hnumbered, -, hperm⟩ := EventQueue.scheduleAll_spec h.numbered added
  have hnone : (EventQueue.numbered sim.queue.nextSeq added).filter (·.2.isDelivery) = [] := by
    refine List.filter_eq_nil_iff.2 fun x hx => ?_
    rw [htimers _ (EventQueue.mem_numbered hx).2]
    exact Bool.false_ne_true
  refine ⟨hqueue ▸ hnumbered, hnodes.trans h.nodeCount, htraffic ▸ h.framesSent,
    htraffic ▸ h.byKind, htraffic ▸ h.deliveries, htraffic ▸ h.balance, ?_, h.toOthers⟩
  have hqueued : (taken ++ sim'.queue.entries).Perm
      (taken ++ sim.queue.entries ++ EventQueue.numbered sim.queue.nextSeq added) := by
    rw [hqueue, List.append_assoc]
    exact hperm.append_left taken
  refine (hqueued.filter _).trans ?_
  rw [List.filter_append, hnone, List.append_nil]
  exact h.scheduled

theorem IsAccounted.pops (h : sim.IsAccounted members taken earlier)
    (hpops : sim.queue.Pops moment event rest) :
    { sim with queue := rest }.IsAccounted members (taken ++ [(moment, event)]) earlier where
  numbered := h.numbered.pops hpops
  nodeCount := h.nodeCount
  framesSent := h.framesSent
  byKind := h.byKind
  deliveries := h.deliveries
  balance := h.balance
  scheduled := by
    rw [List.append_assoc, List.singleton_append]
    exact ((hpops.perm.symm.append_left taken).filter _).trans h.scheduled
  toOthers := h.toOthers

theorem length_deliveries {nodeCount : Nat} (hcount : sim.network.nodeCount = nodeCount + 1)
    (hsender : sender < sim.network.nodeCount) (now : Timestamp) (frame : Bytes) :
    (sim.deliveries sender now [frame]).length = nodeCount := by
  have hothers : (List.range sim.network.nodeCount).filter (· ≠ sender) =
      (List.range sim.network.nodeCount).erase sender := by
    rw [List.nodup_range.erase_eq_filter]
    refine List.filter_congr fun node _ => ?_
    rw [bne, beq_eq_decide, decide_not]
  rw [deliveries, List.flatMap_singleton, List.length_map, hothers,
    List.length_erase_of_mem (List.mem_range.2 hsender), List.length_range, hcount,
    Nat.add_sub_cancel]

/-! ## The frames of a run -/

variable [Generator ρ]

/-- A frame that is sent, with what is new in the queue then. -/
def sending (sender : Nat) (now : Timestamp) (sim : Simulation S ρ) (frame : Bytes) : Sending where
  sender
  frame
  scheduled := (broadcast sender now sim frame).queue.entries.filter (· ∉ sim.queue.entries)

/-- Frames that are sent one after another. -/
def sendings (sender : Nat) (now : Timestamp) : List Bytes → Simulation S ρ → List Sending
  | [], _ => []
  | frame :: frames, sim =>
    sim.sending sender now frame :: sendings sender now frames (broadcast sender now sim frame)

/-- The frames that are sent when the next event is taken. -/
def sentNext (stop : Timestamp) (sim : Simulation S ρ) : List Sending :=
  match sim.queue.next? stop with
  | none => []
  | some (moment, event, queue) =>
    match { sim with queue }.react moment.time event with
    | (.error _, _) => []
    | (.ok (node, frames), sim) => sendings node moment.time frames sim

/-- The frames that a run sends. -/
def sent (stop : Timestamp) : (limit : Nat) → Simulation S ρ → List Sending
  | 0, _ => []
  | limit + 1, sim =>
    sim.sentNext stop ++
      match sim.step? stop with
      | some (.ok (), sim) => sent stop limit sim
      | _ => []

/-! ### Several runs -/

/-- Runs one after another, each until its time and with its limit, whether or not a node failed in
those before. -/
def runAll : List (Timestamp × Nat) → Simulation S ρ → Simulation S ρ
  | [], sim => sim
  | (stop, limit) :: runs, sim => runAll runs (sim.runUntil stop limit).2

/-- The events that several runs take. -/
def logAll : List (Timestamp × Nat) → Simulation S ρ → List (Taken S ρ)
  | [], _ => []
  | (stop, limit) :: runs, sim => sim.log stop limit ++ logAll runs (sim.runUntil stop limit).2

/-- The frames that several runs send. -/
def sentAll : List (Timestamp × Nat) → Simulation S ρ → List Sending
  | [], _ => []
  | (stop, limit) :: runs, sim => sim.sent stop limit ++ sentAll runs (sim.runUntil stop limit).2

/-! ### Frames -/

/-- Losses and deliveries are counted, frames are not, when a frame is on its way. -/
theorem foldl_dispatch_traffic (now : Timestamp) (frame : Bytes) (nodes : List Nat)
    (sim : Simulation S ρ) :
    (nodes.foldl (dispatch now frame) sim).traffic.framesSent = sim.traffic.framesSent ∧
      (nodes.foldl (dispatch now frame) sim).traffic.byKind = sim.traffic.byKind := by
  induction nodes generalizing sim with
  | nil => exact ⟨rfl, rfl⟩
  | cons node nodes ih =>
    obtain ⟨hframes, hkinds⟩ := ih (dispatch now frame sim node)
    have hfirst : (dispatch now frame sim node).traffic.framesSent = sim.traffic.framesSent ∧
        (dispatch now frame sim node).traffic.byKind = sim.traffic.byKind := by
      unfold dispatch
      rcases sim.link.loss.draw sim.generator with ⟨_ | _, generator⟩ <;> exact ⟨rfl, rfl⟩
    exact ⟨hframes.trans hfirst.1, hkinds.trans hfirst.2⟩

/-- **What is scheduled for a frame** is for other nodes than its sender, and once at most. -/
theorem isToOthers_sending (hnumbered : sim.queue.IsNumbered) (sender : Nat) (now : Timestamp)
    (frame : Bytes) {added : List (Timestamp × Event)}
    (h : sim.Schedules (sim.deliveries sender now [frame]) added (broadcast sender now sim frame)) :
    (sim.sending sender now frame).scheduled.Perm
        (EventQueue.numbered sim.queue.nextSeq added) ∧
      (sim.sending sender now frame).IsToOthers sim.network.nodeCount := by
  have hperm : (sim.sending sender now frame).scheduled.Perm
      (EventQueue.numbered sim.queue.nextSeq added) := by
    rw [sending, h.queue]
    exact EventQueue.filter_scheduleAll hnumbered added
  have hevents : ((sim.sending sender now frame).scheduled.map (·.2)).Perm (added.map (·.2)) := by
    rw [← EventQueue.events_numbered sim.queue.nextSeq added]
    exact hperm.map _
  have hsub : (added.map (·.2)).Sublist
      (((List.range sim.network.nodeCount).filter (· ≠ sender)).map (Event.deliver · frame)) := by
    have hall := h.sublist.map (·.2)
    rwa [deliveries, List.flatMap_singleton, List.map_map] at hall
  have hmem : ∀ x ∈ (sim.sending sender now frame).scheduled,
      ∃ node, (node < sim.network.nodeCount ∧ node ≠ sender) ∧ .deliver node frame = x.2 := by
    intro x hx
    have hx' := hsub.subset (hevents.mem_iff.1 (List.mem_map_of_mem hx))
    simpa only [List.mem_map, List.mem_filter, List.mem_range, decide_eq_true_eq] using hx'
  refine ⟨hperm, ?_, ?_, ?_⟩
  · intro x hx
    obtain ⟨node, ⟨hlt, -⟩, heq⟩ := hmem x hx
    rw [← heq]
    exact ⟨rfl, hlt⟩
  · intro x hx
    obtain ⟨node, ⟨-, hne⟩, heq⟩ := hmem x hx
    rw [← heq]
    exact hne
  · have hnodes := hevents.map Event.node
    rw [List.map_map] at hnodes
    refine hnodes.nodup_iff.2 ((hsub.map Event.node).nodup ?_)
    rw [List.map_map]
    exact (List.nodup_range.filter _).map fun _ _ heq => heq

/-- **A frame that is sent** is counted once for its kind and once for every other node. -/
theorem IsAccounted.broadcast (h : sim.IsAccounted members taken earlier)
    (hsender : sender < sim.network.nodeCount) (now : Timestamp) (frame : Bytes) :
    (broadcast sender now sim frame).IsAccounted members taken
      (earlier ++ [sim.sending sender now frame]) := by
  obtain ⟨added, hsched⟩ := schedules_broadcast sender now sim frame
  obtain ⟨hscheduled, hothers⟩ := isToOthers_sending h.numbered sender now frame hsched
  obtain ⟨hframes, hkinds⟩ := foldl_dispatch_traffic now frame
    ((List.range sim.network.nodeCount).filter (· ≠ sender))
    { sim with traffic := sim.traffic.send (MessageKind.ofFrame? frame) }
  obtain ⟨hnumbered, -, hperm⟩ := EventQueue.scheduleAll_spec h.numbered added
  have hcount : (sim.sending sender now frame).scheduled.length = added.length := by
    rw [hscheduled.length_eq, ← List.length_map, EventQueue.events_numbered, List.length_map]
  have hall := length_deliveries h.nodeCount hsender now frame
  refine ⟨hsched.queue ▸ hnumbered, hsched.network ▸ h.nodeCount, ?_, ?_, ?_, ?_, ?_, ?_⟩
  · rw [List.length_append, ← h.framesSent]
    exact hframes
  · rw [List.length_append, ← h.byKind]
    exact (congrArg (fun kinds => kinds.values.sum) hkinds).trans (sum_values_count _ _)
  · rw [hsched.delivered, h.deliveries, List.flatMap_append, List.length_append,
      List.flatMap_singleton, hcount]
  -- Each delivery is scheduled or dropped, and there is one for every node but the sender.
  · have hdropped := hsched.dropped
    have hbalance := h.balance
    rw [hall] at hdropped
    rw [hsched.delivered, List.length_append, List.length_singleton, Nat.add_mul, Nat.one_mul]
    omega
  · have hdelivers : (sim.sending sender now frame).scheduled.filter (·.2.isDelivery) =
        (sim.sending sender now frame).scheduled := by
      refine List.filter_eq_self.2 fun x hx => ?_
      rw [(hothers.delivers x hx).1]
      rfl
    have hqueue : (taken ++ (Simulation.broadcast sender now sim frame).queue.entries).Perm
        (taken ++ sim.queue.entries ++ (sim.sending sender now frame).scheduled) := by
      rw [hsched.queue, List.append_assoc]
      exact (hperm.trans (hscheduled.symm.append_left _)).append_left taken
    refine (hqueue.filter _).trans ?_
    rw [List.filter_append, hdelivers, List.flatMap_append, List.flatMap_singleton]
    exact h.scheduled.append_right _
  · intro s hs
    rcases List.mem_append.1 hs with hs | hs
    · exact h.toOthers s hs
    · rw [List.mem_singleton.1 hs, ← h.nodeCount]
      exact hothers

theorem IsAccounted.foldl_broadcast (h : sim.IsAccounted members taken earlier)
    (frames : List Bytes) (hsender : ∀ frame ∈ frames, sender < sim.network.nodeCount)
    (now : Timestamp) :
    (frames.foldl (Simulation.broadcast sender now) sim).IsAccounted members taken
      (earlier ++ sendings sender now frames sim) := by
  induction frames generalizing sim earlier with
  | nil => rwa [sendings, List.append_nil]
  | cons frame frames ih =>
    have hfirst := h.broadcast (hsender frame List.mem_cons_self) now frame
    rw [sendings, List.append_cons]
    refine ih hfirst fun frame' hmem => ?_
    rw [hfirst.nodeCount, ← h.nodeCount]
    exact hsender frame' (List.mem_cons_of_mem _ hmem)

/-! ### Events and runs -/

/-- **An event that is taken leaves the counts in balance**, also when the node fails. -/
theorem IsAccounted.step (h : sim.IsAccounted members taken earlier)
    (hnext : sim.queue.next? stop = some (moment, event, rest))
    (hstep : sim.step? stop = some (r, sim')) :
    sim'.IsAccounted members (taken ++ [(moment, event)]) (earlier ++ sim.sentNext stop) := by
  have htaken := h.pops (EventQueue.pops_of_next? hnext).2
  have hkeeps := (Network.keeps_handle event { sim.network with now := moment.time }).nodeCount
  rcases hhandle : { sim.network with now := moment.time }.handle event with
    ⟨e | frames, network⟩ <;> rw [hhandle] at hkeeps <;>
    simp only [step?, sentNext, hnext, react_eq, hhandle, Option.some.injEq, Prod.mk.injEq]
      at hstep ⊢ <;>
    obtain ⟨-, rfl⟩ := hstep
  · rw [List.append_nil]
    exact htaken.timers [] (by simp) hkeeps rfl rfl
  · have hrearmed : ∀ x ∈ sim.rearmed moment.time event, x.2.isDelivery = false := by
      intro x hx
      cases event with
      | timer node timer =>
        rw [List.mem_singleton.1 hx]
        rfl
      | deliver node frame => cases hx
    have hreacted : { sim with
          network
          queue := rest.scheduleAll (sim.rearmed moment.time event) }.IsAccounted members
        (taken ++ [(moment, event)]) earlier :=
      htaken.timers _ hrearmed hkeeps rfl rfl
    refine hreacted.foldl_broadcast frames (fun frame hmem => ?_) moment.time
    exact hkeeps ▸ Network.node_lt_of_handle hhandle hmem

/-- **A run leaves the counts in balance**, however it ends. -/
theorem IsAccounted.runUntil (h : sim.IsAccounted members taken earlier) (stop : Timestamp)
    (limit : Nat) :
    (sim.runUntil stop limit).2.IsAccounted members
      (taken ++ (sim.log stop limit).map Taken.entry) (earlier ++ sim.sent stop limit) := by
  induction limit generalizing sim taken earlier with
  | zero => simpa [Simulation.runUntil, log, sent] using h
  | succ limit ih =>
    rcases sim.step?_cases stop with
      ⟨hstep, -⟩ | ⟨moment, event, rest, r, sim', hnext, -, -, hstep, -⟩
    · have hnext : sim.queue.next? stop = none := by
        rcases sim.queue.next?_cases stop with ⟨hnone, -⟩ | ⟨_, _, _, hsome, -⟩
        · exact hnone
        · simp only [step?, hsome] at hstep
          split at hstep <;> cases hstep
      simp only [Simulation.runUntil, log, sent, sentNext, hnext, hstep, List.map_nil,
        List.append_nil]
      exact h.timers [] (by simp) rfl rfl rfl
    have hfirst := h.step hnext hstep
    cases r with
    | error e =>
      simpa [Simulation.runUntil, log, sent, hnext, hstep, Taken.entry] using hfirst
    | ok _ =>
      have hrest := ih hfirst
      simpa [Simulation.runUntil, log, sent, hnext, hstep, Taken.entry] using hrest

theorem IsAccounted.runAll (h : sim.IsAccounted members taken earlier)
    (runs : List (Timestamp × Nat)) :
    (sim.runAll runs).IsAccounted members
      (taken ++ (sim.logAll runs).map Taken.entry) (earlier ++ sim.sentAll runs) := by
  induction runs generalizing sim taken earlier with
  | nil => simpa [Simulation.runAll, logAll, sentAll] using h
  | cons run runs ih =>
    have hrest := ih (h.runUntil run.1 run.2)
    rw [List.append_assoc, List.append_assoc, ← List.map_append] at hrest
    exact hrest

theorem isAccounted_armTimers (hqueue : sim.queue = .empty) (htraffic : sim.traffic = .zero) :
    sim.armTimers.IsAccounted sim.network.members.length [] [] := by
  obtain ⟨added, generator, heq, harms⟩ := armTimers_eq sim
  have hempty : sim.IsAccounted sim.network.members.length [] [] := by
    refine ⟨hqueue ▸ EventQueue.isNumbered_empty, rfl, ?_, ?_, ?_, ?_, ?_, by simp⟩ <;>
      simp only [hqueue, htraffic]
    · rfl
    · rfl
    · rfl
    · exact Nat.zero_mul _
    · exact .nil
  refine hempty.timers added (fun x hx => ?_) ?_ ?_ ?_ <;> try rw [heq]
  have hmem : x.2 ∈ added.map (·.2) := List.mem_map_of_mem hx
  rw [harms.events] at hmem
  obtain ⟨timer, -, hevent⟩ := List.mem_map.1 hmem
  rw [← hevent]
  rfl

/-- **Traffic is conserved.** Let the timers of a simulation be armed when nothing waits and nothing
was counted, and let it run any number of times, whether or not the runs end with the failure of a
node. Then the frames counted are the sum of the counts by kind. The deliveries counted are those
that were taken and those that still wait. Every frame counts once, as delivered or as dropped, for
each node but one. And the deliveries taken or waiting are those scheduled for the frames that were
sent, each for other nodes than its sender and once at most for each of these. -/
theorem traffic_conserved (hqueue : sim.queue = .empty) (htraffic : sim.traffic = .zero)
    (runs : List (Timestamp × Nat)) :
    let taken := sim.armTimers.logAll runs
    let sent := sim.armTimers.sentAll runs
    let last := sim.armTimers.runAll runs
    last.traffic.framesSent = last.traffic.byKind.values.sum ∧
    last.traffic.deliveries =
      taken.countP (·.event.isDelivery) + last.queue.entries.countP (·.2.isDelivery) ∧
    last.traffic.framesSent * sim.network.members.length =
      last.traffic.deliveries + last.traffic.dropped ∧
    last.traffic.framesSent = sent.length ∧
    ((taken.map Taken.entry ++ last.queue.entries).filter (·.2.isDelivery)).Perm
      (sent.flatMap (·.scheduled)) ∧
    ∀ s ∈ sent, s.IsToOthers sim.network.nodeCount := by
  intro taken sent last
  have h : last.IsAccounted sim.network.members.length (taken.map Taken.entry) sent :=
    (isAccounted_armTimers hqueue htraffic).runAll runs
  refine ⟨h.framesSent.trans h.byKind.symm, ?_, ?_, h.framesSent, h.scheduled, h.toOthers⟩
  · rw [h.deliveries, ← h.scheduled.length_eq, ← List.countP_eq_length_filter, List.countP_append,
      List.countP_map]
    rfl
  · rw [h.framesSent]
    exact h.balance

/-! ### A coordinator and one member -/

/-- Two nodes on a medium that loses what is sent at first. -/
def lossySimulation : Simulation .sample Counter :=
  { sampleSimulation with link := ⟨⟨9⟩, .zero⟩ }

/-- A frame is lost at first; then seven arrive, or will. -/
theorem traffic_conserved_when_lossy :
    let runs : List (Timestamp × Nat) := [(⟨1000⟩, 4), (⟨3000000⟩, 8)]
    let taken := lossySimulation.armTimers.logAll runs
    let last := lossySimulation.armTimers.runAll runs
    last.traffic.framesSent = 8 ∧ last.traffic.dropped = 1 ∧ last.traffic.deliveries = 7 ∧
      last.traffic.byKind.values.sum = 8 ∧
      taken.countP (·.event.isDelivery) + last.queue.entries.countP (·.2.isDelivery) = 7 ∧
      ∀ s ∈ lossySimulation.armTimers.sentAll runs, s.IsToOthers 2 := by
  intro runs taken last
  obtain ⟨hkinds, hdeliveries, hbalance, -, -, hothers⟩ :=
    @traffic_conserved _ _ lossySimulation _ rfl rfl runs
  obtain ⟨hframes, hdropped⟩ : last.traffic.framesSent = 8 ∧ last.traffic.dropped = 1 := by
    decide +kernel
  have hdelivered : last.traffic.deliveries = 7 := by
    have hmembers : lossySimulation.network.members.length = 1 := rfl
    change last.traffic.framesSent * _ = last.traffic.deliveries + last.traffic.dropped at hbalance
    rw [hmembers, hframes, hdropped] at hbalance
    omega
  exact ⟨hframes, hdropped, hdelivered, hkinds.symm.trans hframes,
    hdeliveries.symm.trans hdelivered, hothers⟩

end Simulation

end GroupKey
