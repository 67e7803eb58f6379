import GroupKey.Proofs.Node.CoordinatorState

/-!
# What a coordinator sends, and on what occasion

Each message of a coordinator has one occasion: a timer of its own, or one frame that has arrived. A
step is told by what it sends, and by what it does to the round, which is all that the next slot to
be handed out depends on: the last heartbeat, and the slot whose join is awaited.

* `SameRound` — a step that does not touch the round.
* `Emits` — the steps of a coordinator, by what they send.
* `emits_react` — there are no others.
-/

namespace GroupKey.Coordinator

variable {S : Suite} {ρ : Type}

/-- The last heartbeat and the slot handed out after it are the same. -/
structure SameRound (c c' : Coordinator S ρ) : Prop where
  tier : c'.tier = c.tier
  lastHeartbeatSeq : c'.lastHeartbeatSeq = c.lastHeartbeatSeq
  assignment : c'.assignment = c.assignment
  assignedThisRound : c'.assignedThisRound = c.assignedThisRound

/-- A step from `c` to `c'`, by what it sends. -/
inductive Emits (ctx : Context S) (e : Stimulus S) (c c' : Coordinator S ρ) :
    List (Message S) → Prop
  | silent (round : SameRound c c') : Emits ctx e c c' []
  /-- A group of a tier that does not exist cannot be founded. -/
  | stalled (tier : ∀ scale, ctx.parameters.scale c.tier ≠ .ok scale) : Emits ctx e c c' []
  /-- A round begins, and no join is awaited. -/
  | heartbeat (hb : Heartbeat S) (fired : e.input = .timer .heartbeat) (tier : c'.tier = c.tier)
      (last : c'.lastHeartbeatSeq = some hb.seq) (unassigned : c'.assignment = none)
      (fresh : c'.assignedThisRound = false) : Emits ctx e c c' [.heartbeat hb]
  /-- The first slot of the round is handed to an unset member that has heard the last heartbeat. -/
  | notifyPosition (ack : HeartbeatAck) (a : Assignment)
      (arrived : e.Carries ctx (.heartbeatAck ack)) (unset : ack.phase = .unset)
      (pid : a.pid = ack.pid) (echoed : c.lastHeartbeatSeq = some ack.seq)
      (fresh : c.assignedThisRound = false) (tier : c'.tier = c.tier)
      (last : c'.lastHeartbeatSeq = c.lastHeartbeatSeq) (assigned : c'.assignment = some a)
      (spent : c'.assignedThisRound = true) : Emits ctx e c c' [.notifyPosition a]
  /-- The join that is awaited is accepted. -/
  | joinAck (join : Join S) (ack : JoinAck S) (arrived : e.Carries ctx (.join join))
      (awaited : c.assignment = some ⟨join.proof.group, join.proof.slot, join.pid⟩)
      (group : ack.group = join.proof.group) (slot : ack.slot = join.proof.slot)
      (keyId : ack.keyId = join.proof.keyId) (tier : c'.tier = c.tier)
      (last : c'.lastHeartbeatSeq = c.lastHeartbeatSeq) (unassigned : c'.assignment = none)
      (spent : c'.assignedThisRound = c.assignedThisRound) : Emits ctx e c c' [.joinAck ack]
  | keyEncapNotify (r : DispatchRequest) (fired : e.input = .timer .keyEncapNotify)
      (round : SameRound c c') : Emits ctx e c c' [.keyEncapNotify r]
  | keyEncap (d : Distribution S) (arrived : e.Carries ctx (.keyEncap d))
      (round : SameRound c c') : Emits ctx e c c' [.keyEncap d]
  | keyUpdate (d : Distribution S) (arrived : e.Carries ctx (.keyUpdate d))
      (round : SameRound c c') :
      Emits ctx e c c' [.keyUpdate d, .keyUpdateAck ⟨d.pid, d.fingerprint⟩]

theorem SameRound.refl (c : Coordinator S ρ) : SameRound c c := ⟨rfl, rfl, rfl, rfl⟩

variable {ctx : Context S} {e : Stimulus S} {c : Coordinator S ρ}
  {r : Except NodeError (List (Message S)) × Coordinator S ρ}

theorem Ticks.emits {timer : Timer} (fired : e.input = .timer timer)
    (h : Ticks ctx e.now c timer r) : Emits ctx e c r.2 (emitted r.1) := by
  cases h with
  | stalled filled fails =>
    refine .stalled fun scale hscale => ?_
    obtain ⟨t, ht, -⟩ := Parameters.scale_eq_ok.1 hscale
    simp [ManagedGroup.bootstrap, ht] at fails
  | continued | founded => exact .heartbeat _ fired rfl rfl rfl rfl
  | nobody => exact .silent ⟨rfl, rfl, rfl, rfl⟩
  | asked => exact .keyEncapNotify _ fired ⟨rfl, rfl, rfl, rfl⟩
  | foreign => exact .silent (.refl c)

variable [Generator ρ]

theorem Handles.emits {m : Message S} (arrived : e.Carries ctx m)
    (h : Handles ctx e.directory e.now c m r) : Emits ctx e c r.2 (emitted r.1) := by
  cases h with
  | noted => exact .silent ⟨rfl, rfl, rfl, rfl⟩
  | @placed ack group slot unset free =>
    obtain ⟨-, fresh, echoed, -⟩ := slotFor?_eq_some.1 free
    exact .notifyPosition ack ⟨group, slot, ack.pid⟩ arrived unset rfl echoed fresh rfl rfl rfl rfl
  | dropped | early | lost => exact .silent (.refl c)
  | refuted | unseated => exact .silent ⟨rfl, rfl, rfl, rfl⟩
  | seated admits => exact .joinAck _ _ arrived admits.assigned rfl rfl rfl rfl rfl rfl rfl
  | answered => exact .keyEncap _ arrived ⟨rfl, rfl, rfl, rfl⟩
  | proposed => exact .keyUpdate _ arrived ⟨rfl, rfl, rfl, rfl⟩

theorem Reacts.emits (h : Reacts ctx e c r) : Emits ctx e c r.2 (emitted r.1) := by
  cases h with
  | unread => exact .silent (.refl c)
  | handled arrived handles => exact handles.emits arrived
  | ticked fired ticks => exact ticks.emits fired

/-- **What a step sends, and what it does to the round.** -/
theorem emits_react (ctx : Context S) (e : Stimulus S) (c : Coordinator S ρ) :
    Emits ctx e c (c.react ctx e).2 (emitted (c.react ctx e).1) :=
  (reacts_react ctx e c).emits

end GroupKey.Coordinator
