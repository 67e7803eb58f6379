import GroupKey.Node.Coordinator
import Mathlib.Logic.Basic

/-!
# What a step of the coordinator comes to

A frame is read and handed to the handler of its kind, a timer to one of its own. Each handler looks
at several things and leaves at the first that does not suit it. Here the handlers are gone through
once: for each way out this file says what held there, what is answered, and what the coordinator is
after it. What a step does to one part of the state is then a matter of going through the ways out.

* `Stimulus`, `react` — a step, with all that it depends on.
* `Admits`, `Takes` — what the coordinator asks of a join, and of any message that it acts on.
* `Ticks`, `ticks_tick` — what a timer comes to.
* `Handles`, `handles_handle` — what a message comes to.
* `Reacts`, `reacts_react` — what a step comes to.
-/

namespace GroupKey

variable {S : Suite} {ρ : Type}

theorem Context.decode?_eq_some {ctx : Context S} {frame : Bytes} {m : Message S} :
    ctx.decode? frame = some m ↔ Message.decode ctx.parameters frame = .ok m := by
  unfold decode?
  cases Message.decode ctx.parameters frame <;> simp

namespace Coordinator

/-! ## Stimuli -/

/-- What can happen to a coordinator. -/
inductive Input where
  /-- A frame arrives. -/
  | frame (bytes : Bytes)
  /-- A timer fires. -/
  | timer (timer : Timer)

/-- The frame that arrives, if one does. -/
def Input.frame? : Input → Option Bytes
  | .frame bytes => some bytes
  | .timer _ => none

theorem Input.frame?_eq_some {input : Input} {bytes : Bytes} :
    input.frame? = some bytes ↔ input = .frame bytes := by
  cases input <;> simp [frame?]

/-- An input, with the directory and the time at which it finds the coordinator. -/
structure Stimulus (S : Suite) where
  directory : Directory S
  now : Timestamp
  input : Input

namespace Stimulus

variable {ctx : Context S} {e : Stimulus S}

/-- A frame with the message arrives. -/
def Carries (ctx : Context S) (e : Stimulus S) (m : Message S) : Prop :=
  ∃ frame, e.input = .frame frame ∧ ctx.decode? frame = some m

/-- The join that arrives, if one does. -/
def join? (ctx : Context S) (e : Stimulus S) : Option (Join S) :=
  match e.input with
  | .frame frame =>
    match ctx.decode? frame with
    | some (.join join) => some join
    | _ => none
  | .timer _ => none

theorem join?_eq_some {join : Join S} : e.join? ctx = some join ↔ e.Carries ctx (.join join) := by
  unfold join? Carries
  cases e.input with
  | timer timer => simp
  | frame frame =>
    simp only [Input.frame.injEq, exists_eq_left']
    cases ctx.decode? frame with
    | none => simp
    | some m => cases m <;> simp

theorem Carries.unique {a b : Message S} (ha : e.Carries ctx a) (hb : e.Carries ctx b) : a = b := by
  obtain ⟨frame, hin, hread⟩ := ha
  obtain ⟨frame', hin', hread'⟩ := hb
  obtain rfl := Input.frame.inj (hin.symm.trans hin')
  exact Option.some.inj (hread.symm.trans hread')

theorem Carries.not_timer {m : Message S} (h : e.Carries ctx m) (timer : Timer) :
    e.input ≠ .timer timer := by
  obtain ⟨frame, hin, -⟩ := h
  simp [hin]

end Stimulus

/-- The messages of an answer; a coordinator that fails sends none. -/
def emitted : Except NodeError (List (Message S)) → List (Message S)
  | .ok ms => ms
  | .error _ => []

@[simp]
theorem emitted_map_nil (r : Except NodeError Unit) :
    emitted (r.map fun _ => ([] : List (Message S))) = [] := by
  cases r <;> rfl

/-! ## Timers -/

/-- No group has room: none is being filled, or it is full. -/
def Filled (c : Coordinator S ρ) : Prop := ∀ g, c.currentGroup? = some g → g.isFull = true

/-- The coordinator without the join that it has waited for and without expired groups. -/
def rest (now : Timestamp) (c : Coordinator S ρ) : Coordinator S ρ :=
  c.abandonAssignment.dropExpired now

/-- The coordinator with a group that it has founded, which is to be filled now. -/
def withGroup (g : ManagedGroup S) (c : Coordinator S ρ) : Coordinator S ρ :=
  { c with
    nextGroupSeq := c.nextGroupSeq + 1
    current := some g.info.id
    groups := c.groups.insert g.info.id g }

/-- The heartbeat that is due. -/
def nextHeartbeat (c : Coordinator S ρ) : Heartbeat S :=
  ⟨c.nextHeartbeatSeq, c.accepted, c.snapshots⟩

/-- The coordinator after it has sent its heartbeat. -/
def afterHeartbeat (c : Coordinator S ρ) : Coordinator S ρ :=
  { c with
    nextHeartbeatSeq := c.nextHeartbeatSeq + 1
    lastHeartbeatSeq := some c.nextHeartbeatSeq }

/-- The coordinator without the members that it has not heard for too long. -/
def forgetStale (ctx : Context S) (now : Timestamp) (c : Coordinator S ρ) : Coordinator S ρ :=
  let stale := (c.liveness.evictStale now ctx.config.livenessTimeout).1
  { c with
    liveness := (c.liveness.evictStale now ctx.config.livenessTimeout).2
    dispatcher := c.dispatcher.filter fun pid => !stale.contains pid }

/-- What a timer comes to. -/
inductive Ticks (ctx : Context S) (now : Timestamp) (c : Coordinator S ρ) :
    Timer → Except NodeError (List (Message S)) × Coordinator S ρ → Prop
  /-- No group has room, and none can be founded. -/
  | stalled {err : AgreementError} (filled : (c.rest now).Filled)
      (fails : ManagedGroup.bootstrap ctx.parameters c.nextGroupSeq c.tier
        (now + ctx.config.groupLifetime) = .error err) :
      Ticks ctx now c .heartbeat (.error (.agreement err), c.rest now)
  /-- The group that is being filled has room. -/
  | continued {g : ManagedGroup S} (current : (c.rest now).currentGroup? = some g)
      (room : g.isFull = false) :
      Ticks ctx now c .heartbeat
        (.ok [.heartbeat (c.rest now).nextHeartbeat], (c.rest now).afterHeartbeat)
  /-- No group has room, and one is founded. -/
  | founded {g : ManagedGroup S} (filled : (c.rest now).Filled)
      (founds : ManagedGroup.bootstrap ctx.parameters c.nextGroupSeq c.tier
        (now + ctx.config.groupLifetime) = .ok g) :
      Ticks ctx now c .heartbeat
        (.ok [.heartbeat ((c.rest now).withGroup g).nextHeartbeat],
          ((c.rest now).withGroup g).afterHeartbeat)
  /-- There is no member that could be asked for a key. -/
  | nobody (nobody : (c.forgetStale ctx now).liveness.mostRecent? c.isMemberRecord = none) :
      Ticks ctx now c .keyEncapNotify (.ok [], c.forgetStale ctx now)
  | asked {target : UInt32}
      (recent : (c.forgetStale ctx now).liveness.mostRecent? c.isMemberRecord = some target) :
      Ticks ctx now c .keyEncapNotify
        (.ok [.keyEncapNotify ⟨target, ctx.config.sessionKeyLength, c.accepted.version⟩],
          { c.forgetStale ctx now with dispatcher := some target })
  /-- The timer is none of the coordinator's. -/
  | foreign : Ticks ctx now c .keyUpdate (.ok [], c)

variable {ctx : Context S} {directory : Directory S} {now : Timestamp}

theorem ensureCurrent_of_filled {c : Coordinator S ρ} (h : c.Filled) :
    c.ensureCurrent ctx now = (ManagedGroup.bootstrap ctx.parameters c.nextGroupSeq c.tier
      (now + ctx.config.groupLifetime)).map fun g => c.withGroup g := by
  have hroom : ¬c.currentGroup?.any (fun g => !g.isFull) = true := by
    intro hroom
    obtain ⟨g, hg, hfree⟩ := (Option.any_eq_true _ _).1 hroom
    simp [h g hg] at hfree
  simp only [ensureCurrent, if_neg hroom]
  cases ManagedGroup.bootstrap ctx.parameters c.nextGroupSeq c.tier
    (now + ctx.config.groupLifetime) <;> rfl

theorem heartbeat_eq (ctx : Context S) (now : Timestamp) (c : Coordinator S ρ) :
    c.heartbeat ctx now = match (c.rest now).ensureCurrent ctx now with
      | .error err => (.error (.agreement err), c.rest now)
      | .ok c => (.ok [.heartbeat c.nextHeartbeat], c.afterHeartbeat) := rfl

theorem ticks_heartbeat (ctx : Context S) (now : Timestamp) (c : Coordinator S ρ) :
    Ticks ctx now c .heartbeat (c.heartbeat ctx now) := by
  rw [heartbeat_eq]
  by_cases hroom : (c.rest now).currentGroup?.any (fun g => !g.isFull) = true
  · obtain ⟨g, hcurrent, hfull⟩ := (Option.any_eq_true _ _).1 hroom
    rw [ensureCurrent, if_pos hroom]
    exact .continued hcurrent (by simpa using hfull)
  · have hfilled : (c.rest now).Filled := by
      intro g hg
      simpa [hg] using hroom
    rw [ensureCurrent_of_filled hfilled]
    cases hboot : ManagedGroup.bootstrap ctx.parameters (c.rest now).nextGroupSeq (c.rest now).tier
        (now + ctx.config.groupLifetime) with
    | error err => exact .stalled hfilled hboot
    | ok g => exact .founded hfilled hboot

theorem notifyKeyEncap_eq (ctx : Context S) (now : Timestamp) (c : Coordinator S ρ) :
    c.notifyKeyEncap ctx now =
      match (c.forgetStale ctx now).liveness.mostRecent? c.isMemberRecord with
      | none => ([], c.forgetStale ctx now)
      | some target =>
        ([.keyEncapNotify ⟨target, ctx.config.sessionKeyLength, c.accepted.version⟩],
          { c.forgetStale ctx now with dispatcher := some target }) := rfl

theorem ticks_notifyKeyEncap (ctx : Context S) (now : Timestamp) (c : Coordinator S ρ) :
    Ticks ctx now c .keyEncapNotify
      (.ok (c.notifyKeyEncap ctx now).1, (c.notifyKeyEncap ctx now).2) := by
  rw [notifyKeyEncap_eq]
  cases hrecent : (c.forgetStale ctx now).liveness.mostRecent? c.isMemberRecord with
  | none => exact .nobody hrecent
  | some target => exact .asked hrecent

theorem ticks_tick (ctx : Context S) (now : Timestamp) (timer : Timer) (c : Coordinator S ρ) :
    Ticks ctx now c timer (c.tick ctx now timer) := by
  cases timer with
  | heartbeat => exact ticks_heartbeat ctx now c
  | keyEncapNotify => exact ticks_notifyKeyEncap ctx now c
  | keyUpdate => exact .foreign

/-! ## Answers to heartbeats -/

/-- The coordinator that has noted an answer to its heartbeat. -/
def note (now : Timestamp) (ack : HeartbeatAck) (c : Coordinator S ρ) : Coordinator S ρ :=
  let heard := c.liveness.touch ack.pid now ack.phase
  { c with
    liveness := if ack.phase = .unset then
        heard.assign ack.pid ((heard.get? ack.pid).bind (·.slot)) false
      else heard }

/-- The coordinator after it has handed out a slot. -/
def handOut (a : Assignment) (c : Coordinator S ρ) : Coordinator S ρ :=
  { c with
    liveness := c.liveness.assign a.pid (some (a.group, a.slot)) false
    assignment := some a
    assignedThisRound := true
    phase := .handlingJoin }

theorem handleHeartbeatAck_eq (now : Timestamp) (ack : HeartbeatAck) (c : Coordinator S ρ) :
    c.handleHeartbeatAck now ack =
      if ack.phase ≠ .unset then ([], c.note now ack)
      else match (c.note now ack).slotFor? now ack.seq with
        | none => ([], c.note now ack)
        | some (group, slot) => ([.notifyPosition ⟨group, slot, ack.pid⟩],
            (c.note now ack).handOut ⟨group, slot, ack.pid⟩) := rfl

/-- A slot is handed out while no join is awaited, once a round, and only for the last heartbeat. It
is the first free one of the group that is being filled. -/
theorem slotFor?_eq_some {seq : UInt32} {c : Coordinator S ρ} {group : GroupId} {slot : UInt32} :
    c.slotFor? now seq = some (group, slot) ↔
      c.phase = .idle ∧ c.assignedThisRound = false ∧ c.lastHeartbeatSeq = some seq ∧
        ∃ g, c.currentGroup? = some g ∧ g.info.isExpired now = false ∧ g.info.id = group ∧
          g.freeSlots.head? = some slot := by
  unfold slotFor?
  by_cases hround : c.phase ≠ .idle ∨ c.assignedThisRound ∨ c.lastHeartbeatSeq ≠ some seq
  · rw [if_pos hround]
    constructor
    · simp
    · rintro ⟨hphase, hassigned, hseq, -⟩
      simp [hphase, hassigned, hseq] at hround
  · rw [if_neg hround]
    simp only [not_or, Decidable.not_not, Bool.not_eq_true] at hround
    obtain ⟨hphase, hassigned, hseq⟩ := hround
    simp only [hphase, hassigned, hseq, true_and]
    cases c.currentGroup? with
    | none => simp
    | some g =>
      simp only [Option.some.injEq, exists_eq_left']
      cases g.info.isExpired now <;> simp [and_comm, and_assoc]

/-! ## Joins -/

variable [Generator ρ]

/-- A join that the coordinator lets take its slot: it is the one awaited, for a free slot of a
group held, of the group's tier, and its proof holds. -/
structure Admits (ctx : Context S) (directory : Directory S) (join : Join S)
    (c : Coordinator S ρ) (g : ManagedGroup S) : Prop where
  assigned : c.assignment = some ⟨join.proof.group, join.proof.slot, join.pid⟩
  held : c.groups[join.proof.group]? = some g
  tier : g.info.tier = join.proof.tier
  free : g.info.isOccupied join.proof.slot = false
  valid : (join.proof.check ctx.parameters directory c.generator).1 = true

theorem Admits.unique {join : Join S} {c : Coordinator S ρ} {g g' : ManagedGroup S}
    (h : Admits ctx directory join c g) (h' : Admits ctx directory join c g') : g = g' :=
  Option.some.inj (h.held.symm.trans h'.held)

/-- The coordinator after it has drawn the weights to check a proof with. -/
def draw (ctx : Context S) (directory : Directory S) (join : Join S) (c : Coordinator S ρ) :
    Coordinator S ρ :=
  { c with generator := (join.proof.check ctx.parameters directory c.generator).2 }

/-- The coordinator with what has become of the group of a join. -/
def regroup (join : Join S) (g : ManagedGroup S) (c : Coordinator S ρ) : Coordinator S ρ :=
  { c with groups := c.groups.insert join.proof.group g }

/-- The coordinator after the member that has sent a join has taken its slot. -/
def welcome (now : Timestamp) (join : Join S) (g : ManagedGroup S) (c : Coordinator S ρ) :
    Coordinator S ρ :=
  { c.regroup join g with
    liveness := (c.liveness.touch join.pid now .joining).assign join.pid
      (some (join.proof.group, join.proof.slot)) true
    assignment := none
    phase := .idle }

/-! ## Messages -/

/-- The coordinator acts on the message: it is the join that is awaited and may be let in, a new key
of the member that was asked for one, or a new key that does not come too soon. -/
def Takes (ctx : Context S) (directory : Directory S) (now : Timestamp) (c : Coordinator S ρ) :
    Message S → Prop
  | .join join => ∃ g, Admits ctx directory join c g
  | .keyEncap d => c.dispatcher = some d.pid ∧ IsFresh ctx now c d.fingerprint
  | .keyUpdate d => IsFresh ctx now c d.fingerprint ∧ ¬IsRateLimited ctx now c
  | .heartbeat _ | .heartbeatAck _ | .notifyPosition _ | .joinAck _ | .keyEncapNotify _
  | .keyUpdateAck _ => False

/-- What a message comes to. -/
inductive Handles (ctx : Context S) (directory : Directory S) (now : Timestamp)
    (c : Coordinator S ρ) :
    Message S → Except NodeError (List (Message S)) × Coordinator S ρ → Prop
  /-- The answer to a heartbeat is noted. -/
  | noted {ack : HeartbeatAck}
      (passed : ack.phase = .unset → (c.note now ack).slotFor? now ack.seq = none) :
      Handles ctx directory now c (.heartbeatAck ack) (.ok [], c.note now ack)
  /-- It is noted, and the unset member that gave it is handed a slot. -/
  | placed {ack : HeartbeatAck} {group : GroupId} {slot : UInt32} (unset : ack.phase = .unset)
      (free : (c.note now ack).slotFor? now ack.seq = some (group, slot)) :
      Handles ctx directory now c (.heartbeatAck ack)
        (.ok [.notifyPosition ⟨group, slot, ack.pid⟩],
          (c.note now ack).handOut ⟨group, slot, ack.pid⟩)
  /-- The message is not taken, and this is seen before anything is drawn. -/
  | dropped {m : Message S} (other : ∀ ack, m ≠ .heartbeatAck ack)
      (refused : ¬c.Takes ctx directory now m) : Handles ctx directory now c m (.ok [], c)
  /-- A join arrives, but the coordinator is in the phase in which it awaits none. -/
  | early {join : Join S} (idle : c.phase ≠ .handlingJoin) :
      Handles ctx directory now c (.join join) (.ok [], c)
  /-- The join that is awaited arrives, and its group is gone. -/
  | lost {join : Join S}
      (assigned : c.assignment = some ⟨join.proof.group, join.proof.slot, join.pid⟩)
      (gone : c.groups[join.proof.group]? = none) :
      Handles ctx directory now c (.join join) (.error (.unknownGroup join.proof.group), c)
  /-- It arrives and fits its group, but its proof does not hold. -/
  | refuted {join : Join S} {g : ManagedGroup S}
      (assigned : c.assignment = some ⟨join.proof.group, join.proof.slot, join.pid⟩)
      (held : c.groups[join.proof.group]? = some g) (tier : g.info.tier = join.proof.tier)
      (free : g.info.isOccupied join.proof.slot = false)
      (invalid : (join.proof.check ctx.parameters directory c.generator).1 ≠ true) :
      Handles ctx directory now c (.join join) (.ok [], c.draw ctx directory join)
  /-- It is let in, but its group fails to seat the member. -/
  | unseated {join : Join S} {g g' : ManagedGroup S} {err : NodeError}
      (admits : Admits ctx directory join c g)
      (seat : g.seat ctx.parameters directory join.proof = (.error err, g')) :
      Handles ctx directory now c (.join join)
        (.error err, (c.draw ctx directory join).regroup join g')
  /-- It is let in, and the member takes its slot. -/
  | seated {join : Join S} {g g' : ManagedGroup S} {share : S.G1}
      (admits : Admits ctx directory join c g)
      (seat : g.seat ctx.parameters directory join.proof = (.ok share, g')) :
      Handles ctx directory now c (.join join)
        (.ok [.joinAck ⟨join.proof.group, join.proof.slot, join.proof.keyId, share, g'.info.key⟩],
          (c.draw ctx directory join).welcome now join g')
  /-- The key that was asked for is accepted. -/
  | answered {d : Distribution S} (asked : c.dispatcher = some d.pid)
      (fresh : IsFresh ctx now c d.fingerprint) :
      Handles ctx directory now c (.keyEncap d)
        (.ok [.keyEncap d], accept ctx now d { c with dispatcher := none })
  /-- A key that was proposed is accepted. -/
  | proposed {d : Distribution S} (fresh : IsFresh ctx now c d.fingerprint)
      (unlimited : ¬IsRateLimited ctx now c) :
      Handles ctx directory now c (.keyUpdate d)
        (.ok [.keyUpdate d, .keyUpdateAck ⟨d.pid, d.fingerprint⟩], accept ctx now d c)

theorem handles_handleHeartbeatAck (ctx : Context S) (directory : Directory S) (now : Timestamp)
    (ack : HeartbeatAck) (c : Coordinator S ρ) :
    Handles ctx directory now c (.heartbeatAck ack)
      (.ok (c.handleHeartbeatAck now ack).1, (c.handleHeartbeatAck now ack).2) := by
  rw [handleHeartbeatAck_eq]
  by_cases hunset : ack.phase = .unset
  · rw [if_neg (not_not_intro hunset)]
    cases hslot : (c.note now ack).slotFor? now ack.seq with
    | none => exact .noted fun _ => hslot
    | some slot => exact .placed hunset hslot
  · rw [if_pos hunset]
    exact .noted fun h => absurd h hunset

theorem handles_handleJoin (ctx : Context S) (directory : Directory S) (now : Timestamp)
    (join : Join S) (c : Coordinator S ρ) :
    Handles ctx directory now c (.join join) (c.handleJoin ctx directory now join) := by
  have hdropped (hrefused : ¬c.Takes ctx directory now (.join join)) :
      Handles ctx directory now c (.join join) (.ok [], c) := .dropped (by simp) hrefused
  -- The guards of the handler are the conditions of `Admits`, in this order.
  unfold handleJoin
  simp only
  by_cases hphase : c.phase ≠ .handlingJoin
  · rw [if_pos (.inl hphase)]
    exact .early hphase
  by_cases hother : c.assignment ≠ some ⟨join.proof.group, join.proof.slot, join.pid⟩
  · rw [if_pos (.inr hother)]
    exact hdropped fun ⟨g, hadmits⟩ => hother hadmits.assigned
  have hassigned := Decidable.not_not.1 hother
  rw [if_neg (not_or_intro hphase hother)]
  cases hheld : c.groups[join.proof.group]? with
  | none => exact .lost hassigned hheld
  | some g =>
    by_cases hunfit : g.info.tier ≠ join.proof.tier ∨ g.info.isOccupied join.proof.slot = true
    · simp only [if_pos hunfit]
      refine hdropped fun ⟨g', hadmits⟩ => ?_
      obtain rfl := Option.some.inj (hadmits.held.symm.trans hheld)
      simp [hadmits.tier, hadmits.free] at hunfit
    · simp only [if_neg hunfit]
      rw [not_or, Decidable.not_not, Bool.not_eq_true] at hunfit
      by_cases hvalid : (join.proof.check ctx.parameters directory c.generator).1 = true
      · have hadmits : Admits ctx directory join c g :=
          ⟨hassigned, hheld, hunfit.1, hunfit.2, hvalid⟩
        rw [if_neg (not_not_intro hvalid)]
        rcases hseat : g.seat ctx.parameters directory join.proof with ⟨err | share, g'⟩
        · exact .unseated hadmits hseat
        · exact .seated hadmits hseat
      · rw [if_pos hvalid]
        exact .refuted hassigned hheld hunfit.1 hunfit.2 hvalid

theorem handleJoin_of_admits {join : Join S} {c : Coordinator S ρ} {g g' : ManagedGroup S}
    {share : S.G1} (hphase : c.phase = .handlingJoin) (hadmits : Admits ctx directory join c g)
    (hseat : g.seat ctx.parameters directory join.proof = (.ok share, g')) (now : Timestamp) :
    c.handleJoin ctx directory now join =
      (.ok [.joinAck ⟨join.proof.group, join.proof.slot, join.proof.keyId, share, g'.info.key⟩],
        (c.draw ctx directory join).welcome now join g') := by
  have htakes : c.Takes ctx directory now (.join join) := ⟨g, hadmits⟩
  have hhandles := handles_handleJoin ctx directory now join c
  generalize c.handleJoin ctx directory now join = r at hhandles ⊢
  cases hhandles with
  | dropped other refused => exact absurd htakes refused
  | early idle => exact absurd hphase idle
  | lost assigned gone => simp [hadmits.held] at gone
  | refuted assigned held tier free invalid => exact absurd hadmits.valid invalid
  | unseated admits seat =>
    obtain rfl := admits.unique hadmits
    simp [hseat] at seat
  | seated admits seat =>
    obtain rfl := admits.unique hadmits
    obtain ⟨hshare, rfl⟩ := Prod.mk.inj (seat.symm.trans hseat)
    obtain rfl := Except.ok.inj hshare
    rfl

theorem handles_handleKeyEncap (ctx : Context S) (directory : Directory S) (now : Timestamp)
    (d : Distribution S) (c : Coordinator S ρ) :
    Handles ctx directory now c (.keyEncap d)
      (.ok (c.handleKeyEncap ctx now d).1, (c.handleKeyEncap ctx now d).2) := by
  unfold handleKeyEncap
  by_cases htakes : c.Takes ctx directory now (.keyEncap d)
  · rw [if_neg (by simp [htakes.1, htakes.2])]
    exact .answered htakes.1 htakes.2
  · rw [if_pos (not_and_or.1 htakes)]
    exact .dropped (by simp) htakes

theorem handles_handleKeyUpdate (ctx : Context S) (directory : Directory S) (now : Timestamp)
    (d : Distribution S) (c : Coordinator S ρ) :
    Handles ctx directory now c (.keyUpdate d)
      (.ok (c.handleKeyUpdate ctx now d).1, (c.handleKeyUpdate ctx now d).2) := by
  unfold handleKeyUpdate
  by_cases htakes : c.Takes ctx directory now (.keyUpdate d)
  · rw [if_neg (by simp [htakes.1, htakes.2])]
    exact .proposed htakes.1 htakes.2
  · have hrefused : ¬IsFresh ctx now c d.fingerprint ∨ IsRateLimited ctx now c :=
      (not_and_or.1 htakes).imp_right Decidable.not_not.1
    rw [if_pos hrefused]
    exact .dropped (by simp) htakes

theorem handles_handle (ctx : Context S) (directory : Directory S) (now : Timestamp)
    (m : Message S) (c : Coordinator S ρ) :
    Handles ctx directory now c m (c.handle ctx directory now m) := by
  cases m with
  | heartbeatAck ack => exact handles_handleHeartbeatAck ctx directory now ack c
  | join join => exact handles_handleJoin ctx directory now join c
  | keyEncap d => exact handles_handleKeyEncap ctx directory now d c
  | keyUpdate d => exact handles_handleKeyUpdate ctx directory now d c
  | _ => exact .dropped (by simp) (by simp [Takes])

/-! ## Steps -/

/-- The reaction of a coordinator, with its answer. -/
def react (ctx : Context S) (e : Stimulus S) (c : Coordinator S ρ) :
    Except NodeError (List (Message S)) × Coordinator S ρ :=
  match e.input with
  | .frame bytes => c.receive ctx e.directory e.now bytes
  | .timer timer => c.tick ctx e.now timer

variable {c : Coordinator S ρ} {e : Stimulus S}

theorem react_of_carries {m : Message S} (h : e.Carries ctx m) :
    c.react ctx e = c.handle ctx e.directory e.now m := by
  obtain ⟨frame, hinput, hread⟩ := h
  simp only [react, hinput, receive, hread]

theorem handles_react {m : Message S} (h : e.Carries ctx m) :
    Handles ctx e.directory e.now c m (c.react ctx e) := by
  rw [react_of_carries h]
  exact handles_handle ctx e.directory e.now m c

theorem ticks_react {timer : Timer} (h : e.input = .timer timer) :
    Ticks ctx e.now c timer (c.react ctx e) := by
  rw [react, h]
  exact ticks_tick ctx e.now timer c

/-- What a step comes to. -/
inductive Reacts (ctx : Context S) (e : Stimulus S) (c : Coordinator S ρ) :
    Except NodeError (List (Message S)) × Coordinator S ρ → Prop
  /-- A frame that is not well formed is dropped. -/
  | unread (unread : ∀ m, ¬e.Carries ctx m) : Reacts ctx e c (.ok [], c)
  | handled {m : Message S} {r : Except NodeError (List (Message S)) × Coordinator S ρ}
      (arrived : e.Carries ctx m) (handles : Handles ctx e.directory e.now c m r) :
      Reacts ctx e c r
  | ticked {timer : Timer} {r : Except NodeError (List (Message S)) × Coordinator S ρ}
      (fired : e.input = .timer timer) (ticks : Ticks ctx e.now c timer r) : Reacts ctx e c r

theorem reacts_react (ctx : Context S) (e : Stimulus S) (c : Coordinator S ρ) :
    Reacts ctx e c (c.react ctx e) := by
  cases hinput : e.input with
  | timer timer => exact .ticked hinput (ticks_react hinput)
  | frame frame =>
    cases hread : ctx.decode? frame with
    | none =>
      simp only [react, hinput, receive, hread]
      refine .unread fun m hm => ?_
      obtain ⟨frame', hinput', hread'⟩ := hm
      obtain rfl := Input.frame.inj (hinput.symm.trans hinput')
      simp [hread] at hread'
    | some m =>
      have arrived : e.Carries ctx m := ⟨frame, hinput, hread⟩
      exact .handled arrived (handles_react arrived)

end Coordinator

end GroupKey
