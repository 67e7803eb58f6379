import GroupKey.Proofs.Node.MemberState
import GroupKey.Proofs.Simulation.Steps

/-!
# The order of events in a run

Events are scheduled while others are taken, some of them for the very time that it is. They still
come in order: what is scheduled is never due before the clock, and its number is above all others.
So every event that is taken comes after all that were taken before, and the clock never goes back.

* `log` — the events that a run takes, each with the network before and after it.
* `Taken.reaction` — what the node of an event does when the clock shows the time of the event.
* `IsTimely` — what waits is not before the clock, and every step keeps it so.
* `exists_scheduled` — what is taken or left was there, or was scheduled, and none is taken twice.
* `events_in_order` — a whole run.
-/

namespace GroupKey

variable {S : Suite} {ρ : Type}

/-- An event that was taken, with the network that it met and the one that it left. -/
structure Taken (S : Suite) (ρ : Type) where
  moment : Moment
  event : Event
  before : Network S ρ
  after : Network S ρ

/-- The event as it waited in the queue. -/
def Taken.entry (t : Taken S ρ) : Moment × Event := (t.moment, t.event)

/-- What the node of the event does in the network that the event met, when the clock shows the time
of the event. -/
def Taken.reaction [Generator ρ] (t : Taken S ρ) : Except NodeError (List Bytes) × Network S ρ :=
  { t.before with now := t.moment.time }.handle t.event

namespace Simulation

variable {sim sim' : Simulation S ρ} {moment : Moment} {event : Event} {rest : EventQueue}
  {stop : Timestamp} {r : Except NodeError Unit}

/-- No event waits for a time before the clock, and all have numbers of their own. -/
structure IsTimely (sim : Simulation S ρ) : Prop where
  numbered : sim.queue.IsNumbered
  due : ∀ x ∈ sim.queue.entries, sim.network.now ≤ x.1.time

/-- What is scheduled when an event is taken is not due before it. -/
theorem le_time_of_sublist {frames : List Bytes} {sent : List (Timestamp × Event)}
    (hsent : sent.Sublist (sim.deliveries event.node moment.time frames)) :
    ∀ x ∈ sim.rearmed moment.time event ++ sent, moment.time ≤ x.1 := by
  intro x hx
  rcases List.mem_append.1 hx with hx | hx
  · cases event with
    | timer node timer =>
      rw [List.mem_singleton.1 hx]
      exact Timestamp.le_add _ _
    | deliver node frame => cases hx
  · obtain ⟨frame, -, hx⟩ := List.mem_flatMap.1 (hsent.subset hx)
    obtain ⟨node, -, rfl⟩ := List.mem_map.1 hx
    exact Timestamp.le_add _ _

variable [Generator ρ]

/-- The events that a run takes. -/
def log (stop : Timestamp) : (limit : Nat) → Simulation S ρ → List (Taken S ρ)
  | 0, _ => []
  | limit + 1, sim =>
    match sim.queue.next? stop, sim.step? stop with
    | some (moment, event, _), some (.ok (), sim') =>
      ⟨moment, event, sim.network, sim'.network⟩ :: log stop limit sim'
    | some (moment, event, _), some (.error _, sim') =>
      [⟨moment, event, sim.network, sim'.network⟩]
    | _, _ => []

/-! ## One event -/

/-- **What taking an event adds to the queue**: events that are not due before it. -/
theorem Takes.exists_added (h : sim.Takes moment event rest sim' r) :
    ∃ added, sim'.queue = rest.scheduleAll added ∧ ∀ x ∈ added, moment.time ≤ x.1 := by
  cases h with
  | failed _ _ _ queue => exact ⟨[], queue, by simp⟩
  | reacted _ sent _ _ sublist queue => exact ⟨_, queue, le_time_of_sublist sublist⟩

/-- **One event is taken.** Those that wait then are the others and those that were scheduled, which
have the next numbers; all of them come after it, and none is due before the clock. -/
theorem Takes.exists_scheduled (h : sim.IsTimely) (hpops : sim.queue.Pops moment event rest)
    (htakes : sim.Takes moment event rest sim' r) :
    sim'.IsTimely ∧ (∀ x ∈ sim'.queue.entries, moment.Precedes x.1) ∧
      ∃ scheduled : List (Moment × Event),
        ((moment, event) :: sim'.queue.entries).Perm (sim.queue.entries ++ scheduled) ∧
        scheduled.map (·.1.seq) = List.range' sim.queue.nextSeq scheduled.length ∧
        sim'.queue.nextSeq = sim.queue.nextSeq + scheduled.length ∧
        ∀ x ∈ scheduled, moment.time ≤ x.1.time := by
  obtain ⟨added, hqueue, hlate⟩ := htakes.exists_added
  obtain ⟨hnumbered, hnext, hperm⟩ :=
    EventQueue.scheduleAll_spec (h.numbered.pops hpops) added
  rw [← hqueue, hpops.nextSeq] at hnext hperm
  rw [← hqueue] at hnumbered
  have hclock : sim'.network.now = moment.time := htakes.now
  have hseqs := EventQueue.seqs_numbered sim.queue.nextSeq added
  have hlength : (EventQueue.numbered sim.queue.nextSeq added).length = added.length := by
    simpa using congrArg List.length hseqs
  -- What waited comes after the event by the order of the queue, what is new by its number.
  have hafter : ∀ x ∈ sim'.queue.entries, moment.Precedes x.1 := fun x hx => by
    rcases List.mem_append.1 (hperm.mem_iff.1 hx) with hx | hx
    · exact hpops.first x hx
    · obtain ⟨hseq, hmem⟩ := EventQueue.mem_numbered hx
      have hbelow := h.numbered.below _ hpops.mem
      exact Moment.precedes_of_le (hlate _ hmem) (Nat.lt_of_lt_of_le hbelow hseq)
  refine ⟨⟨hnumbered, fun x hx => hclock ▸ (hafter x hx).le⟩, hafter,
    EventQueue.numbered sim.queue.nextSeq added, ?_, hlength ▸ hseqs, hlength ▸ hnext,
    fun x hx => hlate _ (EventQueue.mem_numbered hx).2⟩
  exact (hperm.cons _).trans (hpops.perm.symm.append_right _)

theorem IsTimely.armTimers (h : sim.IsTimely) : sim.armTimers.IsTimely := by
  obtain ⟨added, generator, heq, harms⟩ := armTimers_eq sim
  obtain ⟨hnumbered, -, hperm⟩ := EventQueue.scheduleAll_spec h.numbered added
  rw [heq]
  refine ⟨hnumbered, fun x hx => ?_⟩
  rcases List.mem_append.1 (hperm.mem_iff.1 hx) with hx | hx
  · exact h.due x hx
  · exact harms.due _ (EventQueue.mem_numbered hx).2

/-! ## Reactions -/

theorem Takes.reaction_eq (h : sim.Takes moment event rest sim' r) :
    (Taken.mk moment event sim.network sim'.network).reaction.2 = sim'.network := by
  cases h with
  | failed _ reaction => exact congrArg Prod.snd reaction
  | reacted _ _ reaction => exact congrArg Prod.snd reaction

/-- **Every event of a run is due, and the node reacts to it at its own time.** -/
theorem reaction_of_mem_log (stop : Timestamp) (limit : Nat) :
    ∀ t ∈ sim.log stop limit, t.moment.time ≤ stop ∧ t.reaction.2 = t.after := by
  induction limit generalizing sim with
  | zero => simp [log]
  | succ limit ih =>
    rcases sim.step?_cases stop with
      ⟨hstep, -⟩ | ⟨moment, event, rest, r, sim', hnext, hdue, -, hstep, htakes⟩
    · simp [log, hstep]
    have hfirst := htakes.reaction_eq
    cases r with
    | error e =>
      simp only [log, hnext, hstep]
      exact List.forall_mem_singleton.2 ⟨hdue, hfirst⟩
    | ok _ =>
      simp only [log, hnext, hstep]
      exact List.forall_mem_cons.2 ⟨⟨hdue, hfirst⟩, ih⟩

/-- **Each event meets the network that the one before it left**, the first that of the start, and
the end of the run changes nothing but the clock. -/
theorem exists_last (stop : Timestamp) (limit : Nat) :
    ∃ last, (sim.log stop limit).map (·.before) ++ [last] =
        sim.network :: (sim.log stop limit).map (·.after) ∧
      (sim.runUntil stop limit).2.network =
        { last with now := (sim.runUntil stop limit).2.network.now } := by
  induction limit generalizing sim with
  | zero => exact ⟨sim.network, rfl, rfl⟩
  | succ limit ih =>
    rcases sim.step?_cases stop with
      ⟨hstep, -⟩ | ⟨moment, event, rest, r, sim', hnext, -, -, hstep, -⟩
    · refine ⟨sim.network, ?_, ?_⟩ <;> simp [log, runUntil, hstep]
    cases r with
    | error e =>
      refine ⟨sim'.network, ?_, ?_⟩ <;> simp [log, runUntil, hnext, hstep]
    | ok _ =>
      obtain ⟨last, hchain, hlast⟩ := @ih sim'
      refine ⟨last, ?_, ?_⟩
      · simp only [log, hnext, hstep, List.map_cons, List.cons_append, hchain]
      · simpa only [runUntil, hstep] using hlast

/-- **A run that fails does so by the reaction to the event taken last.** -/
theorem reaction_of_failed {limit : Nat} {e : NodeError}
    (h : (sim.runUntil stop limit).1 = .failed e) :
    ∃ t, (sim.log stop limit).getLast? = some t ∧
      t.reaction = (.error e, (sim.runUntil stop limit).2.network) := by
  induction limit generalizing sim with
  | zero => simp [runUntil] at h
  | succ limit ih =>
    rcases sim.step?_cases stop with
      ⟨hstep, -⟩ | ⟨moment, event, rest, r, sim', hnext, -, -, hstep, htakes⟩
    · simp [runUntil, hstep] at h
    cases htakes with
    | failed e' reaction =>
      simp only [runUntil, hstep, RunResult.failed.injEq] at h
      subst h
      refine ⟨⟨moment, event, sim.network, sim'.network⟩, ?_, ?_⟩
      · simp [log, hnext, hstep]
      · simp only [runUntil, hstep]
        exact reaction
    | reacted =>
      simp only [runUntil, hstep] at h
      obtain ⟨t, hlast, hreaction⟩ := ih h
      refine ⟨t, ?_, ?_⟩
      · simp only [log, hnext, hstep]
        rw [List.getLast?_cons, hlast]
        rfl
      · simpa only [runUntil, hstep] using hreaction

/-! ## Whole runs -/

/-- **What is taken or left was there, or was scheduled** in the run, under the next numbers and for
no time before the clock. -/
theorem exists_scheduled (h : sim.IsTimely) (stop : Timestamp) (limit : Nat) :
    ∃ scheduled : List (Moment × Event),
      ((sim.log stop limit).map Taken.entry ++ (sim.runUntil stop limit).2.queue.entries).Perm
        (sim.queue.entries ++ scheduled) ∧
      scheduled.map (·.1.seq) = List.range' sim.queue.nextSeq scheduled.length ∧
      ∀ x ∈ scheduled, sim.network.now ≤ x.1.time := by
  induction limit generalizing sim with
  | zero => exact ⟨[], by simp [log, runUntil], rfl, by simp⟩
  | succ limit ih =>
    rcases sim.step?_cases stop with
      ⟨hstep, -⟩ | ⟨moment, event, rest, r, sim', hnext, -, hpops, hstep, htakes⟩
    · refine ⟨[], ?_, rfl, by simp⟩
      simp [log, runUntil, hstep]
    obtain ⟨htimely, -, scheduled, hperm, hseqs, hcount, hlate⟩ :=
      Takes.exists_scheduled h hpops htakes
    have hnow : sim.network.now ≤ moment.time := h.due _ hpops.mem
    cases r with
    | error e =>
      refine ⟨scheduled, ?_, hseqs, fun x hx => Timestamp.le_trans hnow (hlate x hx)⟩
      simp only [log, runUntil, hnext, hstep]
      exact hperm
    | ok _ =>
      obtain ⟨later, hperm', hseqs', hlate'⟩ := ih htimely
      refine ⟨scheduled ++ later, ?_, ?_, ?_⟩
      · simp only [log, runUntil, hnext, hstep, List.map_cons, List.cons_append]
        refine (hperm'.cons _).trans ?_
        rw [← List.append_assoc]
        exact hperm.append_right _
      · rw [List.map_append, hseqs, hseqs', hcount, List.length_append, List.range'_append_1]
      · intro x hx
        rcases List.mem_append.1 hx with hx | hx
        · exact Timestamp.le_trans hnow (hlate x hx)
        · exact Timestamp.le_trans hnow (htakes.now ▸ hlate' x hx)

/-- What is taken in a run comes after any moment that comes before all that waits, and before the
clock and the next number. -/
theorem precedes_of_mem_log (h : sim.IsTimely)
    (hfirst : ∀ x ∈ sim.queue.entries, moment.Precedes x.1)
    (hnow : moment.time ≤ sim.network.now) (hseq : moment.seq < sim.queue.nextSeq) {limit : Nat} :
    ∀ t ∈ sim.log stop limit, moment.Precedes t.moment := by
  intro t ht
  obtain ⟨scheduled, hperm, hseqs, hlate⟩ := exists_scheduled h stop limit
  have hmem : t.entry ∈ sim.queue.entries ++ scheduled :=
    hperm.mem_iff.1 (List.mem_append_left _ (List.mem_map_of_mem ht))
  rcases List.mem_append.1 hmem with hmem | hmem
  · exact hfirst _ hmem
  · have hrange : t.moment.seq ∈ List.range' sim.queue.nextSeq scheduled.length :=
      hseqs ▸ List.mem_map_of_mem hmem
    exact Moment.precedes_of_le (Timestamp.le_trans hnow (hlate _ hmem))
      (Nat.lt_of_lt_of_le hseq (List.mem_range'_1.1 hrange).1)

theorem sorted_log (h : sim.IsTimely) (stop : Timestamp) (limit : Nat) :
    (sim.log stop limit).Pairwise (fun a b => a.moment.Precedes b.moment) := by
  induction limit generalizing sim with
  | zero => exact .nil
  | succ limit ih =>
    rcases sim.step?_cases stop with
      ⟨hstep, -⟩ | ⟨moment, event, rest, r, sim', hnext, -, hpops, hstep, htakes⟩
    · simp [log, hstep]
    obtain ⟨htimely, hafter, scheduled, -, -, hcount, -⟩ :=
      Takes.exists_scheduled h hpops htakes
    have hclock : sim'.network.now = moment.time := htakes.now
    cases r with
    | error e => simp [log, hnext, hstep]
    | ok _ =>
      have hbelow := h.numbered.below _ hpops.mem
      have hlater : ∀ t ∈ sim'.log stop limit, moment.Precedes t.moment :=
        precedes_of_mem_log htimely hafter (hclock ▸ Timestamp.le_refl _)
          (Nat.lt_of_lt_of_le hbelow (hcount ▸ Nat.le_add_right _ _))
      simp only [log, hnext, hstep]
      exact List.pairwise_cons.2 ⟨hlater, ih htimely⟩

theorem lt_time_of_finished {limit : Nat} (h : (sim.runUntil stop limit).1 = .finished) :
    ∀ x ∈ (sim.runUntil stop limit).2.queue.entries, stop < x.1.time := by
  induction limit generalizing sim with
  | zero => simp [runUntil] at h
  | succ limit ih =>
    rcases sim.step?_cases stop with
      ⟨hstep, hlate⟩ | ⟨moment, event, rest, r, sim', -, -, -, hstep, -⟩
    · simpa [runUntil, hstep] using hlate
    · cases r with
      | error e => simp [runUntil, hstep] at h
      | ok _ =>
        simp only [runUntil, hstep] at h ⊢
        exact ih h

/-- **A run takes the events in order, once each.** Let nothing in the queue of a simulation be due
before its clock, and let it run until some time. The events that it takes come one after another,
by time, and by number of those at one time. Each is due by the end. The node that it happens to
reacts when the clock shows just its time, in the network that the event before it has left, so the
clock that the nodes see never goes back. What is taken or left was in the queue, or was scheduled,
and no number occurs twice among these; so no event is taken twice. If the run has finished, what is
left is due later. -/
theorem events_in_order (hbuilt : sim.queue.IsBuilt)
    (hdue : ∀ x ∈ sim.queue.entries, sim.network.now ≤ x.1.time) (stop : Timestamp) (limit : Nat) :
    let taken := sim.log stop limit
    let final := (sim.runUntil stop limit).2
    let left := final.queue.entries
    taken.Pairwise (fun a b => a.moment.Precedes b.moment) ∧
    (∀ t ∈ taken, t.moment.time ≤ stop ∧ t.reaction.2 = t.after ∧ t.after.now = t.moment.time) ∧
    (∃ last, taken.map (·.before) ++ [last] = sim.network :: taken.map (·.after) ∧
      final.network = { last with now := final.network.now }) ∧
    (sim.network.now :: taken.map (·.moment.time)).Pairwise (· ≤ ·) ∧
    (∃ scheduled : List (Moment × Event),
      (taken.map Taken.entry ++ left).Perm (sim.queue.entries ++ scheduled) ∧
      scheduled.map (·.1.seq) = List.range' sim.queue.nextSeq scheduled.length ∧
      ((sim.queue.entries ++ scheduled).map (·.1.seq)).Nodup) ∧
    ((sim.runUntil stop limit).1 = .finished → ∀ x ∈ left, stop < x.1.time) := by
  intro taken final left
  have h : sim.IsTimely := ⟨hbuilt.isNumbered, hdue⟩
  have hsorted : taken.Pairwise (fun a b => a.moment.Precedes b.moment) := sorted_log h stop limit
  obtain ⟨scheduled, hperm, hseqs, hlate⟩ := exists_scheduled h stop limit
  refine ⟨hsorted, ?_, exists_last stop limit, ?_, ⟨scheduled, hperm, hseqs, ?_⟩,
    lt_time_of_finished⟩
  · intro t ht
    obtain ⟨hstop, hreaction⟩ := reaction_of_mem_log stop limit t ht
    refine ⟨hstop, hreaction, ?_⟩
    -- No reaction changes the clock that it sees.
    have hkeeps := Network.keeps_handle t.event { t.before with now := t.moment.time }
    rw [← hreaction]
    exact hkeeps.now
  · rw [List.pairwise_cons, List.pairwise_map]
    refine ⟨?_, hsorted.imp Moment.Precedes.le⟩
    intro time htime
    obtain ⟨t, ht, rfl⟩ := List.mem_map.1 htime
    have hmem : t.entry ∈ sim.queue.entries ++ scheduled :=
      hperm.mem_iff.1 (List.mem_append_left _ (List.mem_map_of_mem ht))
    rcases List.mem_append.1 hmem with hmem | hmem
    · exact hdue _ hmem
    · exact hlate _ hmem
  · rw [List.map_append, hseqs, List.nodup_append]
    refine ⟨h.numbered.nodup, List.nodup_range', ?_⟩
    intro a ha b hb heq
    obtain ⟨x, hx, rfl⟩ := List.mem_map.1 ha
    have hbelow := h.numbered.below x hx
    have hrange := (List.mem_range'_1.1 hb).1
    omega

/-! ### A coordinator and one member -/

/-- Two nodes on a medium that delivers at once. -/
def sampleSimulation : Simulation .sample Counter where
  network := ⟨sampleContext, ⟨1000⟩, (Member.new (S := .sample) 1 (Counter.mk 100) .empty).2,
    Coordinator.sampleNew, [Member.sampleMember]⟩
  link := ⟨⟨0⟩, .zero⟩
  queue := .empty
  traffic := .zero
  generator := Counter.mk 7

/-- The member joins at the very start: its timer, the third to be armed, fires before the frames
arrive that are due at the same time. -/
theorem events_in_order_at_start :
    let sim := sampleSimulation.armTimers
    let taken := sim.log ⟨1000⟩ 20
    let left := (sim.runUntil ⟨1000⟩ 20).2.queue.entries
    taken.map (·.moment.seq) = [0, 1, 2, 4, 7, 8, 9, 10] ∧
      taken.Pairwise (fun a b => a.moment.Precedes b.moment) ∧
      (∀ t ∈ taken, t.reaction.2 = t.after) ∧ left.map (·.1.seq) = [3, 6, 5] ∧
      ∀ x ∈ left, (⟨1000⟩ : Timestamp) < x.1.time := by
  have htimely : sampleSimulation.IsTimely := ⟨EventQueue.isNumbered_empty, fun _ hx => by cases hx⟩
  have hbuilt : sampleSimulation.armTimers.queue.IsBuilt := by
    obtain ⟨added, generator, heq, -⟩ := armTimers_eq sampleSimulation
    rw [heq]
    exact .scheduleAll .empty added
  obtain ⟨hsorted, hreaction, -, -, -, hleft⟩ :=
    events_in_order hbuilt htimely.armTimers.due ⟨1000⟩ 20
  obtain ⟨hseqs, hfinished, hlater⟩ :
      (sampleSimulation.armTimers.log ⟨1000⟩ 20).map (·.moment.seq) = [0, 1, 2, 4, 7, 8, 9, 10] ∧
      (sampleSimulation.armTimers.runUntil ⟨1000⟩ 20).1 = .finished ∧
      (sampleSimulation.armTimers.runUntil ⟨1000⟩ 20).2.queue.entries.map (·.1.seq) =
        [3, 6, 5] := by
    decide +kernel
  exact ⟨hseqs, hsorted, fun t ht => (hreaction t ht).2.1, hlater, hleft hfinished⟩

end Simulation

end GroupKey
