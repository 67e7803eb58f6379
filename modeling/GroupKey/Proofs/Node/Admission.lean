import GroupKey.Proofs.Node.Emission

/-!
# At most one join in flight

A coordinator hands out one slot a round and waits for its join until the next heartbeat. Frames may
be late, doubled, forged or out of order, and the clock may jump: whoever looks at what the
coordinator sends sees the joins one after the other, each between a slot handed out and the next
heartbeat.

* `emissions` — all that a run sends, each message with what it answers.
* `emissions_induction` — what every step keeps, a run keeps.
* `Due` — what a message asks of those that were sent before it.
* `Recalls` — the state of the coordinator tells of the messages sent last.
* `Recalls.step`, `Recalls.run` — each step and each run sends only messages that are due.
* `one_join_in_flight` — the messages of any run.
-/

namespace GroupKey.Coordinator

variable {S : Suite} {ρ : Type}

/-- A message that was sent, with the stimulus that it answers. -/
structure Emission (S : Suite) where
  cause : Stimulus S
  message : Message S

/-- The kind of the message that was sent. -/
def Emission.kind (x : Emission S) : MessageKind := x.message.kind

/-- All that a run sends, in order. -/
def emissions [Generator ρ] (ctx : Context S) :
    Coordinator S ρ → List (Stimulus S) → List (Emission S)
  | _, [] => []
  | c, e :: events =>
    (emitted (c.react ctx e).1).map (⟨e, ·⟩) ++ emissions ctx (c.react ctx e).2 events

/-- The last emission of one of the kinds. -/
def last? (kinds : List MessageKind) (past : List (Emission S)) : Option (Emission S) :=
  past.reverse.find? fun x => x.kind ∈ kinds

/-- The kinds of messages that a round consists of. -/
def roundKinds : List MessageKind := [.heartbeat, .notifyPosition, .joinAck]

/-- What an emission asks of those before it. -/
structure Due (ctx : Context S) (past : List (Emission S)) (x : Emission S) : Prop where
  /-- A slot is handed out after a heartbeat, and is the first since. -/
  round : x.kind = .notifyPosition →
    ∀ y, last? [.heartbeat, .notifyPosition] past = some y → y.kind = .heartbeat
  /-- It is handed to an unset member that has answered the last heartbeat. -/
  notified : ∀ a, x.message = .notifyPosition a →
    ∃ ack y hb, x.cause.Carries ctx (.heartbeatAck ack) ∧ ack.pid = a.pid ∧ ack.phase = .unset ∧
      last? [.heartbeat] past = some y ∧ y.message = .heartbeat hb ∧ hb.seq = ack.seq
  /-- A join is accepted from the member that was handed its slot, with nothing in between. -/
  acknowledged : ∀ ack, x.message = .joinAck ack →
    ∃ join y, x.cause.Carries ctx (.join join) ∧ ack.group = join.proof.group ∧
      ack.slot = join.proof.slot ∧ ack.keyId = join.proof.keyId ∧
      last? roundKinds past = some y ∧ y.message = .notifyPosition ⟨ack.group, ack.slot, join.pid⟩

/-- Each of the emissions is due after those before it. -/
def AllDue (ctx : Context S) : (past trace : List (Emission S)) → Prop
  | _, [] => True
  | past, x :: trace => Due ctx past x ∧ AllDue ctx (past ++ [x]) trace

/-- The state tells of the messages sent last. -/
structure Recalls (ctx : Context S) (past : List (Emission S)) (c : Coordinator S ρ) : Prop where
  tier : ∃ scale, ctx.parameters.scale c.tier = .ok scale
  heartbeat : ∀ seq, c.lastHeartbeatSeq = some seq →
    ∃ y hb, last? [.heartbeat] past = some y ∧ y.message = .heartbeat hb ∧ hb.seq = seq
  assigned : ∀ a, c.assignment = some a →
    ∃ y, last? roundKinds past = some y ∧ y.message = .notifyPosition a
  fresh : c.assignedThisRound = false →
    ∀ y, last? [.heartbeat, .notifyPosition] past = some y → y.kind = .heartbeat

variable {ctx : Context S} {e : Stimulus S} {c c' : Coordinator S ρ}
  {past trace trace' : List (Emission S)} {kinds : List MessageKind} {x y : Emission S}

theorem exists_joinAck (h : x.kind = .joinAck) : ∃ ack, x.message = .joinAck ack := by
  obtain ⟨e, m⟩ := x
  cases m with
  | joinAck ack => exact ⟨ack, rfl⟩
  | _ => simp [Emission.kind, Message.kind] at h

/-- What every step keeps of the past and the state, holds after any run. -/
theorem emissions_induction [Generator ρ] {P : List (Emission S) → Coordinator S ρ → Prop}
    (hstep : ∀ c e past, P past c →
      P (past ++ (emitted (c.react ctx e).1).map (⟨e, ·⟩)) (c.react ctx e).2)
    (h : P past c) (events : List (Stimulus S)) :
    P (past ++ emissions ctx c events) (c.run ctx events) := by
  induction events generalizing past c with
  | nil =>
    rw [emissions, List.append_nil]
    exact h
  | cons e events ih =>
    rw [emissions, ← List.append_assoc]
    exact ih (hstep c e past h)

/-! ## The last emission of a kind -/

theorem last?_snoc {kind : MessageKind} (hx : x.kind = kind) (hkind : kind ∈ kinds) :
    last? kinds (past ++ [x]) = some x := by
  simp [last?, hx, hkind]

theorem last?_append (h : ∀ x ∈ trace, x.kind ∉ kinds) :
    last? kinds (past ++ trace) = last? kinds past := by
  have hnone : trace.reverse.find? (fun x => x.kind ∈ kinds) = none :=
    List.find?_eq_none.2 fun x hx => by simpa using h x (List.mem_reverse.1 hx)
  rw [last?, List.reverse_append, List.find?_append, hnone]
  rfl

theorem last?_snoc_of_notMem {kind : MessageKind} (hx : x.kind = kind) (hkind : kind ∉ kinds) :
    last? kinds (past ++ [x]) = last? kinds past :=
  last?_append fun y hy => by rwa [List.mem_singleton.1 hy, hx]

theorem last?_of_mem (hx : x.kind ∈ kinds) (h : last? kinds (past ++ x :: trace) = some y) :
    y = x ∨ y ∈ trace := by
  rw [last?, List.reverse_append, List.reverse_cons, List.append_assoc, List.find?_append] at h
  rcases Option.or_eq_some_iff.1 h with hy | ⟨-, hy⟩
  · exact .inr (List.mem_reverse.1 (List.mem_of_find?_eq_some hy))
  · rw [List.singleton_append, List.find?_cons_of_pos (by simpa using hx)] at hy
    exact .inl (Option.some.inj hy).symm

theorem exists_last? (past : List (Emission S)) (hx : x.kind ∈ kinds)
    (trace : List (Emission S)) : ∃ y, last? kinds (past ++ x :: trace) = some y := by
  refine Option.isSome_iff_exists.1 (List.find?_isSome.2 ⟨x, ?_, by simpa using hx⟩)
  simp

/-! ## Traces -/

theorem allDue_append : AllDue ctx past (trace ++ trace') ↔
    AllDue ctx past trace ∧ AllDue ctx (past ++ trace) trace' := by
  induction trace generalizing past with
  | nil => simp [AllDue]
  | cons x trace ih => simp [AllDue, ih, and_assoc]

theorem AllDue.due {before after : List (Emission S)}
    (h : AllDue ctx past (before ++ x :: after)) : Due ctx (past ++ before) x :=
  (allDue_append.1 h).2.1

/-- Only a slot that is handed out and a join that is accepted ask anything of the past. -/
theorem due_of_ne (hslot : x.kind ≠ .notifyPosition) (hjoin : x.kind ≠ .joinAck) :
    Due ctx past x where
  round h := absurd h hslot
  notified _ h := absurd (congrArg Message.kind h) hslot
  acknowledged _ h := absurd (congrArg Message.kind h) hjoin

theorem allDue_of_notMem (h : ∀ x ∈ trace, x.kind ∉ roundKinds) : AllDue ctx past trace := by
  induction trace generalizing past with
  | nil => trivial
  | cons x trace ih =>
    have hx : x.kind ∉ roundKinds := h x List.mem_cons_self
    refine ⟨due_of_ne ?_ ?_, ih fun y hy => h y (List.mem_cons_of_mem _ hy)⟩ <;>
      exact fun hkind => hx (by rw [hkind]; decide)

/-! ## Steps -/

theorem Recalls.of_sameRound (h : Recalls ctx past c) (round : SameRound c c')
    (hnew : ∀ x ∈ trace, x.kind ∉ roundKinds) :
    AllDue ctx past trace ∧ Recalls ctx (past ++ trace) c' := by
  have hlast (kinds : List MessageKind) (hsub : kinds ⊆ roundKinds) :
      last? kinds (past ++ trace) = last? kinds past :=
    last?_append fun x hx hkind => hnew x hx (hsub hkind)
  refine ⟨allDue_of_notMem hnew, ?_, ?_, ?_, ?_⟩
  · rw [round.tier]
    exact h.tier
  · rw [round.lastHeartbeatSeq, hlast _ (by decide)]
    exact h.heartbeat
  · rw [round.assignment, hlast _ (List.Subset.refl _)]
    exact h.assigned
  · rw [round.assignedThisRound, hlast _ (by decide)]
    exact h.fresh

/-- **What a step sends is due after what was sent before, and the state still recalls it.** -/
theorem Recalls.step {ms : List (Message S)} (h : Recalls ctx past c) (hms : Emits ctx e c c' ms) :
    AllDue ctx past (ms.map (⟨e, ·⟩)) ∧ Recalls ctx (past ++ ms.map (⟨e, ·⟩)) c' := by
  cases hms with
  | silent round => exact h.of_sameRound round (by simp)
  | stalled tier =>
    -- The tier that groups are made from exists, so a round can always begin.
    obtain ⟨scale, hscale⟩ := h.tier
    exact absurd hscale (tier scale)
  | heartbeat hb fired tier last unassigned fresh =>
    let x : Emission S := ⟨e, .heartbeat hb⟩
    have hx : x.kind = .heartbeat := rfl
    show AllDue ctx past [x] ∧ Recalls ctx (past ++ [x]) c'
    refine ⟨⟨due_of_ne (by simp [hx]) (by simp [hx]), trivial⟩, tier ▸ h.tier, ?_, ?_, ?_⟩
    · intro seq hseq
      exact ⟨x, hb, last?_snoc hx (by decide), rfl, Option.some.inj (last.symm.trans hseq)⟩
    · simp [unassigned]
    · intro _ y hy
      rw [last?_snoc hx (by decide), Option.some.injEq] at hy
      exact hy ▸ hx
  | notifyPosition ack a arrived unset pid echoed fresh tier last assigned spent =>
    let x : Emission S := ⟨e, .notifyPosition a⟩
    have hx : x.kind = .notifyPosition := rfl
    -- The state has the number of the last heartbeat, which the answer repeats.
    obtain ⟨y, hb, hy, hbeat, hseq⟩ := h.heartbeat _ echoed
    show AllDue ctx past [x] ∧ Recalls ctx (past ++ [x]) c'
    refine ⟨⟨⟨fun _ => h.fresh fresh, ?_, nofun⟩, trivial⟩, tier ▸ h.tier, ?_, ?_, ?_⟩
    · intro a' ha'
      obtain rfl := Message.notifyPosition.inj ha'
      exact ⟨ack, y, hb, arrived, pid.symm, unset, hy, hbeat, hseq⟩
    · rw [last, last?_snoc_of_notMem hx (by decide)]
      exact h.heartbeat
    · intro a' ha'
      obtain rfl := Option.some.inj (assigned.symm.trans ha')
      exact ⟨x, last?_snoc hx (by decide), rfl⟩
    · simp [spent]
  | joinAck join ack arrived awaited group slot keyId tier last unassigned spent =>
    let x : Emission S := ⟨e, .joinAck ack⟩
    have hx : x.kind = .joinAck := rfl
    -- A join is awaited only until the next message of the round.
    obtain ⟨y, hy, hslot⟩ := h.assigned _ awaited
    show AllDue ctx past [x] ∧ Recalls ctx (past ++ [x]) c'
    refine ⟨⟨⟨by simp [hx], nofun, ?_⟩, trivial⟩, tier ▸ h.tier, ?_, ?_, ?_⟩
    · intro ack' hack'
      obtain rfl := Message.joinAck.inj hack'
      exact ⟨join, y, arrived, group, slot, keyId, hy, by rw [hslot, group, slot]⟩
    · rw [last, last?_snoc_of_notMem hx (by decide)]
      exact h.heartbeat
    · simp [unassigned]
    · rw [spent, last?_snoc_of_notMem hx (by decide)]
      exact h.fresh
  | keyEncapNotify r fired round =>
    exact h.of_sameRound round (by simp [Emission.kind, Message.kind, roundKinds])
  | keyEncap d arrived round =>
    exact h.of_sameRound round (by simp [Emission.kind, Message.kind, roundKinds])
  | keyUpdate d arrived round =>
    exact h.of_sameRound round (by simp [Emission.kind, Message.kind, roundKinds])

/-! ## Runs -/

theorem recalls_new {pid : UInt32} {secrets : SlotSecrets S} {generator : ρ}
    (h : Coordinator.new ctx pid secrets generator = .ok c) : Recalls ctx [] c := by
  have htier := (state_new h).1.tier
  obtain ⟨tier, -, rfl⟩ := eq_of_new h
  exact ⟨htier, by simp, by simp, by simp [last?]⟩

variable [Generator ρ]

theorem Recalls.run (h : Recalls ctx past c) (events : List (Stimulus S)) :
    AllDue ctx past (emissions ctx c events) := by
  induction events generalizing past c with
  | nil => trivial
  | cons e events ih =>
    obtain ⟨hdue, hrecalls⟩ := h.step (emits_react ctx e c)
    exact allDue_append.2 ⟨hdue, ih hrecalls⟩

/-- **At most one join is in flight.** Let a new coordinator take any steps. Between two slots that
it hands out there is a heartbeat. Each slot goes to an unset member that has answered the last
heartbeat; each join that is accepted is that of the member that was handed the slot last, with no
heartbeat since. And no slot is joined twice: between two joins that are accepted, a slot is handed
out. -/
theorem one_join_in_flight {pid : UInt32} {secrets : SlotSecrets S} {generator : ρ}
    (hnew : Coordinator.new ctx pid secrets generator = .ok c) (events : List (Stimulus S)) :
    let trace := emissions ctx c events
    (∀ before x between y after, trace = before ++ x :: between ++ y :: after →
      x.kind = .notifyPosition → y.kind = .notifyPosition →
      ∃ z ∈ between, z.kind = .heartbeat) ∧
    (∀ before x after, trace = before ++ x :: after → Due ctx before x) ∧
    ∀ before x between y after, trace = before ++ x :: between ++ y :: after →
      x.kind = .joinAck → y.kind = .joinAck → ∃ z ∈ between, z.kind = .notifyPosition := by
  intro trace
  have hdue {before after : List (Emission S)} {x : Emission S}
      (h : trace = before ++ x :: after) : Due ctx before x := by
    have hall := (recalls_new hnew).run events
    rw [show emissions ctx c events = _ from h] at hall
    exact hall.due
  refine ⟨?_, fun before x after h => hdue h, ?_⟩
  · intro before x between y after htrace hx hy
    have hkind : x.kind ∈ [MessageKind.heartbeat, .notifyPosition] := by simp [hx]
    obtain ⟨z, hz⟩ := exists_last? before hkind between
    have hbeat := (hdue htrace).round hy z hz
    rcases last?_of_mem hkind hz with rfl | hmem
    · simp [hx] at hbeat
    · exact ⟨z, hmem, hbeat⟩
  · intro before x between y after htrace hx hy
    obtain ⟨ack, hack⟩ := exists_joinAck hy
    obtain ⟨join, z, -, -, -, -, hz, hslot⟩ := (hdue htrace).acknowledged ack hack
    have hkind : z.kind = .notifyPosition := congrArg Message.kind hslot
    rcases last?_of_mem (by simp [hx, roundKinds]) hz with rfl | hmem
    · simp [hx] at hkind
    · exact ⟨z, hmem, hkind⟩

/-- The run with one join, and the slot that is handed out in the round after it. -/
def sampleRounds? : Option (List (Stimulus .sample)) :=
  sampleJoin?.map (· ++
    [⟨.empty, ⟨4000⟩, .timer .heartbeat⟩,
      ⟨.empty, ⟨5000⟩, .frame (Message.encode (S := .sample) (.heartbeatAck ⟨.unset, 2, 1⟩))⟩])

/-- Two slots are handed out in this run, the first of which is joined before the heartbeat. -/
theorem one_join_in_flight_two_rounds :
    ∃ events before x join hb y, sampleRounds? = some events ∧
      emissions sampleContext sampleNew events = before ++ x :: [join, hb] ++ [y] ∧
      x.kind = .notifyPosition ∧ join.kind = .joinAck ∧ y.kind = .notifyPosition ∧
      (∃ z ∈ [join, hb], z.kind = .heartbeat) ∧
      Due sampleContext (before ++ [x]) join ∧
      Due sampleContext (before ++ x :: [join, hb]) y := by
  have hrun : (sampleRounds?.any fun events =>
      decide ((emissions sampleContext sampleNew events).map Emission.kind =
        [.heartbeat, .notifyPosition, .joinAck, .heartbeat, .notifyPosition])) = true := by
    decide +kernel
  obtain ⟨events, hevents, hkinds⟩ := (Option.any_eq_true _ _).1 hrun
  have hnew : Coordinator.new sampleContext 0 sampleSetup.2 (Counter.mk 5) = .ok sampleNew :=
    eq_ok_of_toOption (by decide +kernel)
  obtain ⟨hbetween, hdue, -⟩ := one_join_in_flight hnew events
  obtain ⟨opening, trace, htrace, hopening, hkinds⟩ := List.map_eq_cons_iff.1
    (of_decide_eq_true hkinds)
  obtain ⟨x, trace, rfl, hx, hkinds⟩ := List.map_eq_cons_iff.1 hkinds
  obtain ⟨join, trace, rfl, hjoin, hkinds⟩ := List.map_eq_cons_iff.1 hkinds
  obtain ⟨hb, trace, rfl, -, hkinds⟩ := List.map_eq_cons_iff.1 hkinds
  obtain ⟨y, trace, rfl, hy, hnil⟩ := List.map_eq_cons_iff.1 hkinds
  obtain rfl := List.map_eq_nil_iff.1 hnil
  exact ⟨events, [opening], x, join, hb, y, hevents, htrace, hx, hjoin, hy,
    hbetween [opening] x [join, hb] y [] htrace hx hy,
    hdue [opening, x] join [hb, y] htrace, hdue [opening, x, join, hb] y [] htrace⟩

end GroupKey.Coordinator
