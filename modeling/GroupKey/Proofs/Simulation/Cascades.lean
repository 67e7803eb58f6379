import GroupKey.Proofs.Node.Emission
import GroupKey.Proofs.Node.MemberState
import GroupKey.Proofs.Simulation.Steps
import GroupKey.Proofs.Wire.Fields

/-!
# Frames that follow from frames

A node answers some frames by others, which the other nodes may answer in turn. No such cascade goes
on for long: a heartbeat is followed by acknowledgements, one of them by an assignment, this by a
join and the join by its acknowledgement, which nobody answers. What members hear from each other
they do not answer at all, and what the coordinator relays only members hear.

* `MessageKind.rank` — how many answers can still follow from a message, by who hears it.
* `Coordinator.replies_of_react`, `Member.replies_of_react` — what a node answers is of lower rank.
* `Network.handle_ok` — so are the frames that a network sends, and they are few.
-/

namespace GroupKey

variable {S : Suite} {ρ : Type}

/-- How many answers, one to the other, can follow from a message that arrives at a node. -/
def MessageKind.rank : (node : Nat) → MessageKind → Nat
  | 0, .heartbeatAck => 3
  | 0, .join | 0, .keyEncap | 0, .keyUpdate => 1
  | _ + 1, .heartbeat => 4
  | _ + 1, .notifyPosition | _ + 1, .keyEncapNotify => 2
  | _, _ => 0

theorem MessageKind.rank_le (node : Nat) (kind : MessageKind) : kind.rank node ≤ 4 := by
  cases node <;> cases kind <;> simp [rank]

/-! ## Frames -/

/-- How many answers, one to the other, can follow from a frame that arrives at a node. -/
def Context.rank (ctx : Context S) (node : Nat) (frame : Bytes) : Nat :=
  (ctx.decode? frame).elim 0 fun m => m.kind.rank node

theorem Context.rank_eq {ctx : Context S} {frame : Bytes} {m : Message S}
    (h : ctx.decode? frame = some m) (node : Nat) : ctx.rank node frame = m.kind.rank node := by
  rw [rank, h, Option.elim_some]

theorem Context.rank_le (ctx : Context S) (node : Nat) (frame : Bytes) :
    ctx.rank node frame ≤ 4 := by
  cases hm : ctx.decode? frame with
  | none => rw [rank, hm]; exact Nat.zero_le _
  | some m => rw [rank_eq hm]; exact m.kind.rank_le node

theorem Context.rank_encode_le (ctx : Context S) (node : Nat) (x : Message S) :
    ctx.rank node x.encode ≤ x.kind.rank node := by
  cases hm : ctx.decode? x.encode with
  | none => rw [rank, hm]; exact Nat.zero_le _
  | some m => rw [rank_eq hm, Message.kind_of_decode (decode?_eq_some.1 hm)]

/-! ## The coordinator -/

namespace Coordinator

variable {ctx : Context S} {e : Stimulus S} {c c' : Coordinator S ρ} {ms : List (Message S)}

theorem Emits.length_le (h : Emits ctx e c c' ms) : ms.length ≤ 2 := by
  cases h <;> simp

/-- **What the coordinator answers is of lower rank** at every member. -/
theorem Emits.rank_lt (h : Emits ctx e c c' ms) {m : Message S} (hm : e.Carries ctx m) :
    ∀ x ∈ ms, ∀ place, x.kind.rank (place + 1) < m.kind.rank 0 := by
  obtain ⟨frame, hin, -⟩ := id hm
  cases h with
  | silent => simp
  | stalled => simp
  | heartbeat hb fired => simp [hin] at fired
  | keyEncapNotify r fired => simp [hin] at fired
  | notifyPosition ack a arrived =>
    obtain rfl := arrived.unique hm
    intro x hx place
    rw [List.mem_singleton.1 hx]
    simp [Message.kind, MessageKind.rank]
  | joinAck join ack arrived =>
    obtain rfl := arrived.unique hm
    intro x hx place
    rw [List.mem_singleton.1 hx]
    simp [Message.kind, MessageKind.rank]
  | keyEncap d arrived =>
    obtain rfl := arrived.unique hm
    intro x hx place
    rw [List.mem_singleton.1 hx]
    simp [Message.kind, MessageKind.rank]
  | keyUpdate d arrived =>
    obtain rfl := arrived.unique hm
    intro x hx place
    rcases List.mem_cons.1 hx with rfl | hx
    · simp [Message.kind, MessageKind.rank]
    · rw [List.mem_singleton.1 hx]
      simp [Message.kind, MessageKind.rank]

/-- **The answers of the coordinator** are two at most, and what answers a frame is of lower rank at
every member. -/
theorem replies_of_react [Generator ρ] {c : Coordinator S ρ} (h : (c.react ctx e).1 = .ok ms) :
    ms.length ≤ 2 ∧ ∀ frame, e.input = .frame frame →
      ∀ x ∈ ms, ∀ place, x.kind.rank (place + 1) < ctx.rank 0 frame := by
  have hemits := emits_react ctx e c
  rw [h] at hemits
  refine ⟨hemits.length_le, ?_⟩
  intro frame hin x hx place
  cases hread : ctx.decode? frame with
  | none =>
    have hempty : ms = [] := by
      simp only [react, hin, receive, hread] at h
      exact (Except.ok.inj h).symm
    simp [hempty] at hx
  | some m =>
    rw [Context.rank_eq hread]
    exact hemits.rank_lt ⟨frame, hin, hread⟩ x hx place

end Coordinator

/-! ## Members -/

namespace Member

variable {ctx : Context S} {m : Member S ρ}

/-- What a member may answer to a message. -/
inductive Answers : Message S → List (Message S) → Prop
  | silent (msg : Message S) : Answers msg []
  | heartbeat (hb : Heartbeat S) (ack : HeartbeatAck) : Answers (.heartbeat hb) [.heartbeatAck ack]
  | notifyPosition (a : Assignment) (join : Join S) : Answers (.notifyPosition a) [.join join]
  | keyEncapNotify (r : DispatchRequest) (d : Distribution S) :
    Answers (.keyEncapNotify r) [.keyEncap d]

theorem Answers.length_le {msg : Message S} {ms : List (Message S)} (h : Answers msg ms) :
    ms.length ≤ 1 := by
  cases h <;> simp

theorem Answers.rank_lt {msg : Message S} {ms : List (Message S)} (h : Answers msg ms)
    (place : Nat) : ∀ x ∈ ms, ∀ node, x.kind.rank node < msg.kind.rank (place + 1) := by
  cases h with
  | silent => simp
  | heartbeat | notifyPosition | keyEncapNotify =>
    intro x hx node
    rw [List.mem_singleton.1 hx]
    cases node <;> simp [Message.kind, MessageKind.rank]

variable [Generator ρ]

theorem answers_handle (now : Timestamp) (msg : Message S) (directory : Directory S) :
    Answers msg (Coordinator.emitted (m.handle ctx now msg directory).1) := by
  have hkeys (hmsg : msg.IsOfKeys) :
      Answers msg (Coordinator.emitted (m.handle ctx now msg directory).1) := by
    obtain ⟨ms, m', hhandle, hkeys⟩ := handlesKeys_handle hmsg ctx now directory m
    rw [hhandle]
    cases hkeys with
    | drawn => exact .keyEncapNotify _ _
    | passed | decrypted | confirmed => exact .silent _
  cases msg with
  | heartbeat hb => exact .heartbeat hb _
  | notifyPosition a =>
    change Answers _ (Coordinator.emitted (m.handleNotifyPosition ctx a directory).1)
    have hassigned := assigned_handleNotifyPosition ctx a directory m
    generalize m.handleNotifyPosition ctx a directory = r at hassigned ⊢
    cases hassigned with
    | passed | unscaled | unproved => exact .silent _
    | proved => exact .notifyPosition a _
  | join | joinAck => exact (Coordinator.emitted_map_nil _).symm ▸ .silent _
  | heartbeatAck => exact .silent _
  | keyEncapNotify | keyEncap | keyUpdate | keyUpdateAck => exact hkeys (by trivial)

theorem length_tick_le (now : Timestamp) (timer : Timer) : (m.tick ctx now timer).1.length ≤ 1 := by
  have hticks := ticks_tick ctx now timer m
  generalize m.tick ctx now timer = r at hticks ⊢
  cases hticks <;> simp

/-- **The answers of a member** are one at most, and what answers a frame is of lower rank at every
node. -/
theorem replies_of_react {e : Coordinator.Stimulus S} {ms : List (Message S)}
    (h : (m.react ctx e).1 = .ok ms) (place : Nat) :
    ms.length ≤ 1 ∧ ∀ frame, e.input = .frame frame →
      ∀ x ∈ ms, ∀ node, x.kind.rank node < ctx.rank (place + 1) frame := by
  unfold react at h
  cases hin : e.input with
  | timer timer =>
    rw [hin] at h
    obtain rfl := Except.ok.inj h
    exact ⟨m.length_tick_le e.now timer, fun _ heq => by cases heq⟩
  | frame frame =>
    simp only [hin, receive] at h
    cases hread : ctx.decode? frame with
    | none =>
      simp only [hread] at h
      obtain rfl := Except.ok.inj h
      simp
    | some msg =>
      simp only [hread] at h
      have hanswers : Answers msg (Coordinator.emitted (m.handle ctx e.now msg e.directory).1) :=
        answers_handle e.now msg e.directory
      rw [h] at hanswers
      refine ⟨hanswers.length_le, ?_⟩
      intro frame' heq
      obtain rfl := Coordinator.Input.frame.inj heq
      rw [Context.rank_eq hread]
      exact hanswers.rank_lt place

end Member

/-! ## Networks -/

/-- What an event is to its node. -/
def Event.input : Event → Coordinator.Input
  | timer _ fired => .timer fired
  | deliver _ frame => .frame frame

/-- The rank of a delivery is that of its frame there; a timer is above all frames. -/
def Context.eventRank (ctx : Context S) : Event → Nat
  | .timer _ _ => 5
  | .deliver node frame => ctx.rank node frame

namespace Network

variable [Generator ρ]

/-- What the node of an event answers. -/
def reply (event : Event) (n : Network S ρ) : Except NodeError (List (Message S)) :=
  let stimulus := ⟨n.directory, n.now, event.input⟩
  match event.node with
  | 0 => (n.coordinator.react n.context stimulus).1
  | place + 1 => n.members[place]?.elim (.ok []) fun m => (m.react n.context stimulus).1

theorem handle_eq_reply (event : Event) (n : Network S ρ) :
    (n.handle event).1 = frames (n.reply event) := by
  cases event with
  | timer node timer =>
    cases node with
    | zero => rfl
    | succ place =>
      simp only [handle, tick, reply, Event.node]
      cases n.members[place]? <;> rfl
  | deliver node frame =>
    cases node with
    | zero => rfl
    | succ place =>
      simp only [handle, deliver, reply, Event.node]
      cases n.members[place]? <;> rfl

/-- **The answers of a node** are two at most, and what answers a frame is of lower rank at all
other nodes. -/
theorem replies_of_reply {n : Network S ρ} {event : Event} {ms : List (Message S)}
    (h : n.reply event = .ok ms) :
    ms.length ≤ 2 ∧ ∀ frame, event.input = .frame frame →
      ∀ x ∈ ms, ∀ other ≠ event.node, x.kind.rank other < n.context.rank event.node frame := by
  unfold reply at h
  cases hnode : event.node with
  | zero =>
    simp only [hnode] at h
    obtain ⟨hlength, hlt⟩ := Coordinator.replies_of_react h
    refine ⟨hlength, ?_⟩
    intro frame hin x hx other hother
    obtain ⟨place, rfl⟩ := Nat.exists_eq_succ_of_ne_zero hother
    exact hlt frame hin x hx place
  | succ place =>
    simp only [hnode] at h
    cases hm : n.members[place]? with
    | none =>
      simp only [hm, Option.elim_none] at h
      simp [← Except.ok.inj h]
    | some m =>
      simp only [hm, Option.elim_some] at h
      obtain ⟨hlength, hlt⟩ := Member.replies_of_react h place
      exact ⟨Nat.le_succ_of_le hlength, fun frame hin x hx other _ => hlt frame hin x hx other⟩

/-- **A reaction sends at most two frames**, of lower rank at all other nodes than what happened. -/
theorem handle_ok {n n' : Network S ρ} {event : Event} {sent : List Bytes}
    (h : n.handle event = (.ok sent, n')) :
    sent.length ≤ 2 ∧
      ∀ x ∈ sent, ∀ other ≠ event.node, n.context.rank other x < n.context.eventRank event := by
  have hframes : frames (n.reply event) = .ok sent := by rw [← handle_eq_reply, h]
  cases hreply : n.reply event with
  | error e => simp [hreply, frames, Except.map] at hframes
  | ok ms =>
    obtain rfl : ms.map Message.encode = sent := by simpa [hreply, frames, Except.map] using hframes
    obtain ⟨hlength, hlt⟩ := replies_of_reply hreply
    refine ⟨by rwa [List.length_map], ?_⟩
    intro x hx other hother
    obtain ⟨m, hm, rfl⟩ := List.mem_map.1 hx
    cases event with
    | timer node timer => exact Nat.lt_succ_of_le (n.context.rank_le other _)
    | deliver node frame =>
      exact Nat.lt_of_le_of_lt (n.context.rank_encode_le other m) (hlt frame rfl m hm other hother)

end Network

end GroupKey
