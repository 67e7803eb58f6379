import GroupKey.Proofs.Simulation.Cascades
import GroupKey.Proofs.Simulation.Order

/-!
# When a run ends

A run takes events while new ones are scheduled, so it need not end. What can follow from an event
at the same time is bounded, since no cascade of frames goes on for long; and a timer with a
positive period fires again only later. So every event can be given a weight, above that of all that
it schedules, and the weight of what waits falls with every event that is taken. A timer with a
period of zero fires again at the very same time, for ever.

* `weight` — a bound for the number of events that a run can still take.
* `weight_lt` — an event that is taken outweighs what it schedules.
* `runUntil_ends`, `ne_finished_of_stuck` — runs that end, and runs that do not.
* `armed_run_ends` — a whole run, from the arming of the timers.
-/

namespace GroupKey

variable {S : Suite} {ρ : Type}

namespace Simulation

variable {sim sim' : Simulation S ρ} {moment : Moment} {event : Event} {rest : EventQueue}
  {stop : Timestamp} {r : Except NodeError Unit}

/-! ## Weights -/

/-- One more than the number of deliveries that an event can lead to. -/
def fanout (sim : Simulation S ρ) : Nat := 2 * sim.network.nodeCount + 1

/-- How often a waiting event can happen by `stop`, if it is a timer that fires at most once a
microsecond. -/
def occasions (stop : Timestamp) : Timestamp × Event → Nat
  | (time, .timer _ _) => stop.micros.toNat + 1 - time.micros.toNat
  | (_, .deliver _ _) => 1

/-- A bound for the number of events by `stop` that one event leads to, itself included. -/
def weightOf (sim : Simulation S ρ) (stop : Timestamp) (x : Timestamp × Event) : Nat :=
  occasions stop x * sim.fanout ^ sim.network.context.eventRank x.2

/-- A bound for the number of events by `stop`. -/
def weight (sim : Simulation S ρ) (stop : Timestamp) : Nat :=
  (sim.queue.pending.map (sim.weightOf stop)).sum

theorem length_deliveries_le (sender : Nat) (now : Timestamp) (frames : List Bytes) :
    (sim.deliveries sender now frames).length ≤ frames.length * sim.network.nodeCount := by
  induction frames with
  | nil => exact Nat.zero_le _
  | cons frame frames ih =>
    have hnodes := List.length_filter_le (· ≠ sender) (List.range sim.network.nodeCount)
    rw [List.length_range] at hnodes
    simp only [deliveries, List.flatMap_cons, List.length_append, List.length_map,
      List.length_cons, Nat.succ_mul] at ih ⊢
    omega

/-- **What a node sends weighs less than what happened to it.** -/
theorem sum_sent_lt {frames : List Bytes} {sent : List (Timestamp × Event)} {sender rank : Nat}
    {now : Timestamp} (hsent : sent.Sublist (sim.deliveries sender now frames))
    (hlength : frames.length ≤ 2)
    (hrank : ∀ frame ∈ frames, ∀ node ≠ sender, sim.network.context.rank node frame < rank) :
    (sent.map (sim.weightOf stop)).sum < sim.fanout ^ rank := by
  have hpos : 0 < sim.fanout := Nat.succ_pos _
  have hcount : sent.length < sim.fanout := by
    have hall := sim.length_deliveries_le sender now frames
    have htwo : frames.length * sim.network.nodeCount ≤ 2 * sim.network.nodeCount :=
      Nat.mul_le_mul_right _ hlength
    have hsub := hsent.length_le
    unfold fanout
    omega
  -- Each weighs so little that `fanout` of them do not weigh more than what happened.
  have heach : ∀ w ∈ sent.map (fun x => sim.weightOf stop x * sim.fanout),
      w ≤ sim.fanout ^ rank := by
    intro w hw
    obtain ⟨x, hx, rfl⟩ := List.mem_map.1 hw
    obtain ⟨frame, hframe, hx⟩ := List.mem_flatMap.1 (hsent.subset hx)
    obtain ⟨node, hnode, rfl⟩ := List.mem_map.1 hx
    have hother : node ≠ sender := by simpa using (List.mem_filter.1 hnode).2
    rw [weightOf, occasions, Nat.one_mul, ← Nat.pow_succ]
    exact Nat.pow_le_pow_right hpos (hrank frame hframe node hother)
  have hsum := List.sum_le_card_nsmul _ _ heach
  rw [List.length_map, List.sum_map_mul_right, smul_eq_mul] at hsum
  have hbelow : sent.length * sim.fanout ^ rank < sim.fanout ^ rank * sim.fanout := by
    rw [Nat.mul_comm]
    exact Nat.mul_lt_mul_of_pos_left hcount (Nat.pow_pos hpos)
  exact Nat.lt_of_mul_lt_mul_right (Nat.lt_of_le_of_lt hsum hbelow)

/-- Periods are whole milliseconds. -/
theorem micros_period_pos {timer : Timer} (h : Duration.zero < sim.period timer) :
    0 < (sim.period timer).micros := by
  have hmillis : ∃ millis, sim.period timer = .ofMillis millis := by
    unfold period
    cases timer <;> exact ⟨_, rfl⟩
  obtain ⟨millis, heq⟩ := hmillis
  rw [heq] at h ⊢
  have hnanos : 0 < millis * 1000 * 1000 := h
  show 0 < millis * 1000 * 1000 / 1000
  omega

/-- **A timer that fires again later has one occasion less.** -/
theorem sum_rearmed_le (hdue : moment.time ≤ stop)
    (hstop : stop.micros.toNat < Timestamp.lastMicros)
    (hpos : ∀ node timer, event = .timer node timer → Duration.zero < sim.period timer) :
    ((sim.rearmed moment.time event).map (sim.weightOf stop)).sum +
        sim.fanout ^ sim.network.context.eventRank event ≤
      sim.weightOf stop (moment.time, event) := by
  cases event with
  | deliver node frame => simp [rearmed, weightOf, occasions]
  | timer node timer =>
    have hmicros := micros_period_pos (hpos node timer rfl)
    have hlater := Timestamp.toNat_add moment.time (sim.period timer)
    rw [Timestamp.le_iff] at hdue
    have hfewer : stop.micros.toNat + 1 - (moment.time + sim.period timer).micros.toNat + 1 ≤
        stop.micros.toNat + 1 - moment.time.micros.toNat := by
      omega
    simp only [rearmed, List.map_singleton, List.sum_singleton, weightOf, occasions]
    rw [← Nat.succ_mul]
    exact Nat.mul_le_mul_right _ hfewer

/-- The timers that wait have positive periods. -/
structure IsTicking (sim : Simulation S ρ) : Prop where
  numbered : sim.queue.IsNumbered
  positive : ∀ time node timer, (time, .timer node timer) ∈ sim.queue.pending →
    Duration.zero < sim.period timer

theorem IsTicking.positive_of_pops (h : sim.IsTicking) (hpops : sim.queue.Pops moment event rest)
    (node : Nat) (timer : Timer) (heq : event = .timer node timer) :
    Duration.zero < sim.period timer := by
  refine h.positive moment.time node timer (hpops.perm_pending.mem_iff.2 ?_)
  rw [heq]
  exact List.mem_cons_self

/-! ## One event -/

variable [Generator ρ]

theorem Takes.weightOf_eq (h : sim.Takes moment event rest sim' r) :
    sim'.weightOf stop = sim.weightOf stop := by
  have hcontext : sim'.network.context = sim.network.context := h.keeps.context
  have hcount : sim'.network.nodeCount = sim.network.nodeCount := h.keeps.nodeCount
  funext x
  rw [weightOf, weightOf, fanout, fanout, hcontext, hcount]

theorem Takes.period_eq (h : sim.Takes moment event rest sim' r) (timer : Timer) :
    sim'.period timer = sim.period timer := by
  have hcontext : sim'.network.context = sim.network.context := h.keeps.context
  rw [period, period, hcontext]

theorem Takes.isNumbered (h : sim.Takes moment event rest sim' r) (hnumbered : sim.queue.IsNumbered)
    (hpops : sim.queue.Pops moment event rest) : sim'.queue.IsNumbered := by
  obtain ⟨added, hqueue, -⟩ := h.exists_added
  rw [hqueue]
  exact (EventQueue.scheduleAll_spec (hnumbered.pops hpops) added).1

/-- **What waits after a reaction**: what waited, the timer if one has fired, and deliveries of at
most two frames of lower rank. -/
theorem Takes.perm_pending (h : sim.Takes moment event rest sim' (.ok ()))
    (hnumbered : sim.queue.IsNumbered) (hpops : sim.queue.Pops moment event rest) :
    ∃ frames sent, frames.length ≤ 2 ∧
      (∀ frame ∈ frames, ∀ other ≠ event.node,
        sim.network.context.rank other frame < sim.network.context.eventRank event) ∧
      sent.Sublist (sim.deliveries event.node moment.time frames) ∧
      sim'.queue.pending.Perm (rest.pending ++ (sim.rearmed moment.time event ++ sent)) := by
  cases h with
  | reacted frames sent reaction _ sublist queue =>
    obtain ⟨hlength, hrank⟩ := Network.handle_ok reaction
    refine ⟨frames, sent, hlength, hrank, sublist, ?_⟩
    rw [queue]
    exact EventQueue.perm_pending_scheduleAll (hnumbered.pops hpops) _

/-! ## Runs that end -/

/-- **An event that is taken outweighs all that it schedules.** -/
theorem weight_lt (h : sim.IsTicking) (hstop : stop.micros.toNat < Timestamp.lastMicros)
    (hdue : moment.time ≤ stop) (hpops : sim.queue.Pops moment event rest)
    (htakes : sim.Takes moment event rest sim' (.ok ())) : sim'.weight stop < sim.weight stop := by
  obtain ⟨frames, sent, hlength, hrank, hsub, hafter⟩ := htakes.perm_pending h.numbered hpops
  have hweights : sim'.weightOf stop = sim.weightOf stop := htakes.weightOf_eq
  have hsent : (sent.map (sim.weightOf stop)).sum <
      sim.fanout ^ sim.network.context.eventRank event := sum_sent_lt hsub hlength hrank
  have hrearmed := sum_rearmed_le hdue hstop (h.positive_of_pops hpops)
  rw [weight, weight, hweights, (hafter.map _).sum_eq, (hpops.perm_pending.map _).sum_eq]
  simp only [List.map_append, List.sum_append, List.map_cons, List.sum_cons]
  omega

theorem IsTicking.takes (h : sim.IsTicking) (hpops : sim.queue.Pops moment event rest)
    (htakes : sim.Takes moment event rest sim' (.ok ())) : sim'.IsTicking where
  numbered := htakes.isNumbered h.numbered hpops
  positive time node timer hmem := by
    obtain ⟨frames, sent, -, -, hsub, hafter⟩ := htakes.perm_pending h.numbered hpops
    rw [htakes.period_eq]
    rcases List.mem_append.1 (hafter.mem_iff.1 hmem) with hmem | hmem
    · exact h.positive time node timer
        (hpops.perm_pending.mem_iff.2 (List.mem_cons_of_mem _ hmem))
    rcases List.mem_append.1 hmem with hmem | hmem
    · cases event with
      | deliver _ _ => cases hmem
      | timer node' timer' =>
        obtain ⟨rfl, rfl, rfl⟩ : time = moment.time + sim.period timer' ∧ node = node' ∧
            timer = timer' := by simpa [rearmed] using hmem
        exact h.positive_of_pops hpops node timer rfl
    · obtain ⟨frame, -, hmem⟩ := List.mem_flatMap.1 (hsub.subset hmem)
      simp at hmem

/-- **A run ends within as many events as what waits weighs**, and in one way, whatever the limit
beyond that. -/
theorem runUntil_ends (hstop : stop.micros.toNat < Timestamp.lastMicros) {bound : Nat}
    (h : sim.IsTicking) (hweight : sim.weight stop < bound) :
    ∃ outcome, outcome.1 ≠ .unfinished ∧ ∀ more, sim.runUntil stop (bound + more) = outcome := by
  induction bound generalizing sim with
  | zero => exact absurd hweight (Nat.not_lt_zero _)
  | succ bound ih =>
    rcases sim.step?_cases stop with
      ⟨hstep, -⟩ | ⟨moment, event, rest, r, sim', -, hdue, hpops, hstep, htakes⟩
    · refine ⟨(.finished, { sim with network.now := stop }), by simp, ?_⟩
      intro more
      rw [Nat.succ_add, runUntil, hstep]
    cases r with
    | error e =>
      refine ⟨(.failed e, sim'), by simp, ?_⟩
      intro more
      rw [Nat.succ_add, runUntil, hstep]
    | ok _ =>
      have hless := weight_lt h hstop hdue hpops htakes
      obtain ⟨outcome, hended, heq⟩ := ih (h.takes hpops htakes) (by omega)
      refine ⟨outcome, hended, ?_⟩
      intro more
      rw [Nat.succ_add, runUntil, hstep]
      exact heq more

/-! ## Runs that do not end -/

/-- A timer with a period of zero is due. -/
structure IsStuck (stop : Timestamp) (sim : Simulation S ρ) : Prop where
  numbered : sim.queue.IsNumbered
  due : ∃ time node timer, time ≤ stop ∧ (time, .timer node timer) ∈ sim.queue.pending ∧
    sim.period timer = .zero

/-- **A timer with a period of zero stays due**: it waits on, or it has fired and is due again. -/
theorem IsStuck.takes (h : sim.IsStuck stop) (hpops : sim.queue.Pops moment event rest)
    (htakes : sim.Takes moment event rest sim' (.ok ())) : sim'.IsStuck stop where
  numbered := htakes.isNumbered h.numbered hpops
  due := by
    obtain ⟨time, node, timer, hdue, hmem, hperiod⟩ := h.due
    obtain ⟨frames, sent, -, -, -, hafter⟩ := htakes.perm_pending h.numbered hpops
    refine ⟨time, node, timer, hdue, hafter.mem_iff.2 ?_, by rw [htakes.period_eq, hperiod]⟩
    rcases List.mem_cons.1 (hpops.perm_pending.mem_iff.1 hmem) with heq | hmem
    · obtain ⟨rfl, rfl⟩ := Prod.mk.inj heq
      simp [rearmed, hperiod, Timestamp.add_zero]
    · exact List.mem_append_left _ hmem

theorem ne_finished_of_stuck (h : sim.IsStuck stop) (limit : Nat) :
    (sim.runUntil stop limit).1 ≠ .finished := by
  induction limit generalizing sim with
  | zero => simp [runUntil]
  | succ limit ih =>
    rcases sim.step?_cases stop with
      ⟨-, hlate⟩ | ⟨moment, event, rest, r, sim', -, -, hpops, hstep, htakes⟩
    · obtain ⟨time, node, timer, hdue, hmem, -⟩ := h.due
      obtain ⟨x, hx, heq⟩ := List.mem_map.1 hmem
      obtain ⟨rfl, -⟩ := Prod.mk.inj heq
      exact absurd (hlate x hx) (Timestamp.not_lt.2 hdue)
    · rw [runUntil, hstep]
      cases r with
      | error e => simp
      | ok _ => exact ih (h.takes hpops htakes)

/-! ## Armed runs -/

/-- **What waits when the timers of a new simulation are armed**: each of them, at once if it has a
period of zero. -/
theorem pending_armTimers (hempty : sim.queue = .empty) :
    sim.armTimers.queue.IsNumbered ∧
    (∀ timer, sim.armTimers.period timer = sim.period timer) ∧
    (∀ x ∈ sim.armTimers.queue.pending, ∃ node < sim.network.nodeCount,
      ∃ timer ∈ Network.timers node, x.2 = .timer node timer) ∧
    ∀ node < sim.network.nodeCount, ∀ timer ∈ Network.timers node, ∃ time,
      (time, .timer node timer) ∈ sim.armTimers.queue.pending ∧
        (sim.period timer = .zero → time = sim.network.now) := by
  obtain ⟨added, generator, heq, harms⟩ := armTimers_eq sim
  have hnumbered : sim.queue.IsNumbered := hempty ▸ EventQueue.isNumbered_empty
  have hmem (x : Timestamp × Event) : x ∈ sim.armTimers.queue.pending ↔ x ∈ added := by
    rw [heq, (EventQueue.perm_pending_scheduleAll hnumbered added).mem_iff, hempty]
    exact List.mem_append.trans (or_iff_right List.not_mem_nil)
  have hevents (event : Event) : event ∈ added.map (·.2) ↔
      ∃ node < sim.network.nodeCount, ∃ timer ∈ Network.timers node,
        event = .timer node timer := by
    rw [harms.events]
    simp only [List.mem_map, List.mem_flatMap, List.mem_range]
    constructor
    · rintro ⟨_, ⟨node, hnode, timer, htimer, rfl⟩, rfl⟩
      exact ⟨node, hnode, timer, htimer, rfl⟩
    · rintro ⟨node, hnode, timer, htimer, rfl⟩
      exact ⟨_, ⟨node, hnode, timer, htimer, rfl⟩, rfl⟩
  refine ⟨heq ▸ (EventQueue.scheduleAll_spec hnumbered added).1, fun timer => by rw [heq]; rfl,
    fun x hx => (hevents _).1 (List.mem_map_of_mem ((hmem x).1 hx)), ?_⟩
  intro node hnode timer htimer
  obtain ⟨⟨time, event⟩, hx, rfl⟩ :=
    List.mem_map.1 ((hevents (.timer node timer)).2 ⟨node, hnode, timer, htimer, rfl⟩)
  exact ⟨time, (hmem _).2 hx, harms.atOnce time node timer hx⟩

/-- **When a run ends.** Let the timers of a new simulation be armed, and let it run until some
time. If all timers have positive periods and the time is not the last that there is, the run ends,
and this within some number of events, whatever the limit beyond that: it finishes, or it fails with
the error that a node returns to the event taken last. If instead one of the timers has a period of
zero and the run does not begin after that time, it never finishes. -/
theorem armed_run_ends (hempty : sim.queue = .empty) (stop : Timestamp) :
    ((∀ node < sim.network.nodeCount, ∀ timer ∈ Network.timers node,
        Duration.zero < sim.period timer) → stop.micros.toNat < 2 ^ 64 - 1 →
      ∃ outcome bound, (∀ limit ≥ bound, sim.armTimers.runUntil stop limit = outcome) ∧
        (outcome.1 = .finished ∨ ∃ e t, outcome.1 = .failed e ∧
          (sim.armTimers.log stop bound).getLast? = some t ∧
          t.reaction = (.error e, outcome.2.network))) ∧
    ((∃ node < sim.network.nodeCount, ∃ timer ∈ Network.timers node, sim.period timer = .zero) →
      sim.network.now ≤ stop → ∀ limit, (sim.armTimers.runUntil stop limit).1 ≠ .finished) := by
  obtain ⟨hnumbered, hperiod, hpending, harmed⟩ := pending_armTimers hempty
  constructor
  · intro hpositive hstop
    have hticking : sim.armTimers.IsTicking := by
      refine ⟨hnumbered, ?_⟩
      intro time node timer hx
      obtain ⟨node', hnode, timer', htimer, heq⟩ := hpending _ hx
      obtain ⟨rfl, rfl⟩ := Event.timer.inj heq
      rw [hperiod]
      exact hpositive node hnode timer htimer
    have hlast : Timestamp.lastMicros = 2 ^ 64 - 1 := rfl
    -- Each event that is taken makes the weight of the queue less.
    obtain ⟨outcome, hended, hall⟩ := runUntil_ends (hlast ▸ hstop) hticking (Nat.lt_succ_self _)
    have hresult : ∀ limit ≥ sim.armTimers.weight stop + 1,
        sim.armTimers.runUntil stop limit = outcome := by
      intro limit hlimit
      obtain ⟨more, rfl⟩ := Nat.exists_eq_add_of_le hlimit
      exact hall more
    refine ⟨outcome, _, hresult, ?_⟩
    cases hkind : outcome.1 with
    | finished => exact .inl rfl
    | failed e =>
      have hrun := hresult _ (Nat.le_refl _)
      obtain ⟨t, hlast, hreaction⟩ := reaction_of_failed ((congrArg Prod.fst hrun).trans hkind)
      rw [hrun] at hreaction
      exact .inr ⟨e, t, rfl, hlast, hreaction⟩
    | unfinished => exact absurd hkind hended
  · rintro ⟨node, hnode, timer, htimer, hzero⟩ hnow
    obtain ⟨time, hx, hatOnce⟩ := harmed node hnode timer htimer
    obtain rfl := hatOnce hzero
    exact ne_finished_of_stuck ⟨hnumbered, _, node, timer, hnow, hx, (hperiod timer).trans hzero⟩

/-- A simulation whose coordinator is to send heartbeats without a pause. -/
def busySimulation : Simulation .sample Counter :=
  { sampleSimulation with network.context.config.heartbeatMillis := 0 }

/-- The first millisecond comes to an end, but not with heartbeats that have no pause between
them. -/
theorem armed_run_ends_in_first_millisecond :
    (∃ outcome bound,
      (∀ limit ≥ bound, sampleSimulation.armTimers.runUntil ⟨1000⟩ limit = outcome) ∧
      (outcome.1 = .finished ∨ ∃ e t, outcome.1 = .failed e ∧
        (sampleSimulation.armTimers.log ⟨1000⟩ bound).getLast? = some t ∧
        t.reaction = (.error e, outcome.2.network))) ∧
    ∀ limit, (busySimulation.armTimers.runUntil ⟨1000⟩ limit).1 ≠ .finished := by
  have hpositive : ∀ node < sampleSimulation.network.nodeCount,
      ∀ timer ∈ Network.timers node, Duration.zero < sampleSimulation.period timer := by
    decide +kernel
  have hzero : ∃ node < busySimulation.network.nodeCount,
      ∃ timer ∈ Network.timers node, busySimulation.period timer = .zero := by
    decide +kernel
  have hstop : (⟨1000⟩ : Timestamp).micros.toNat < 2 ^ 64 - 1 := by decide
  exact ⟨(armed_run_ends rfl ⟨1000⟩).1 hpositive hstop,
    (armed_run_ends rfl ⟨1000⟩).2 hzero (by decide +kernel)⟩

end Simulation

end GroupKey
