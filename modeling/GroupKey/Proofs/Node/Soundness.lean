import GroupKey.Proofs.Node.Delivery
import GroupKey.Proofs.Node.MemberState

/-!
# What a network keeps whatever is sent

Some facts about a network do not depend on what the nodes tell each other. The state of each node
is consistent, a member keeps its number, the directory knows its key, and groups are founded by
heartbeats only. They hold of new nodes and are kept by every frame.

* `Network.Sound` — these facts.
* `sound_assemble` — they hold at the start.
* `Sound.heard` — a broadcast keeps them.
-/

namespace GroupKey

variable {S : Suite} {ρ : Type}

theorem Message.IsOfKeys.of_decode {p : Parameters S} {msg msg' : Message S} (h : msg.IsOfKeys)
    (hmsg : Message.decode p msg.encode = .ok msg') : msg'.IsOfKeys := by
  rwa [IsOfKeys, Message.kind_of_decode hmsg]

/-! ## Numbers and keys of members -/

namespace Member

variable {ctx : Context S} {m m' : Member S ρ} [Generator ρ]

theorem honest_handleNotifyPosition {directory : Directory S}
    (h : m.engine.Honest directory) (a : Assignment) :
    (m.handleNotifyPosition ctx a directory).2.1.engine.Honest
      (m.handleNotifyPosition ctx a directory).2.2 := by
  have hassigned := assigned_handleNotifyPosition ctx a directory m
  generalize m.handleNotifyPosition ctx a directory = r at hassigned ⊢
  cases hassigned with
  | passed | unscaled => exact h
  | unproved _ proves | proved _ proves => exact proves ▸ Engine.honest_prove h _ _ _ _ _ _

/-- **A member keeps its number, and the directory knows its key**, whatever it handles. -/
theorem honest_handle {directory : Directory S} (h : m.engine.Honest directory) (now : Timestamp)
    (msg : Message S) :
    (m.handle ctx now msg directory).2.1.pid = m.pid ∧
      (m.handle ctx now msg directory).2.1.engine.Honest (m.handle ctx now msg directory).2.2 := by
  have hkeeps : ∀ e : Engine S, e.key = m.engine.key → e.Honest directory :=
    fun e hsame key hkey => h key (hsame ▸ hkey)
  have hplace (hmsg : msg.IsOfKeys) : (m.handle ctx now msg directory).2.1.pid = m.pid ∧
      (m.handle ctx now msg directory).2.1.engine.Honest directory := by
    have hkept : m.KeepsPlace (m.handle ctx now msg directory).2.1 :=
      keepsPlace_handle hmsg now directory
    exact ⟨hkept.pid, hkeeps _ (congrArg Engine.key hkept.engine)⟩
  cases msg with
  | heartbeat hb =>
    obtain ⟨engine, phase, groups, gaps, hm, hkey⟩ := handleHeartbeat_rest now hb m
    simp only [handle, hm]
    exact ⟨trivial, hkeeps engine hkey⟩
  | notifyPosition a =>
    obtain ⟨engine, generator, phase, hm, -⟩ := handleNotifyPosition_state ctx a directory m
    refine ⟨?_, honest_handleNotifyPosition h a⟩
    show (m.handleNotifyPosition ctx a directory).2.1.pid = m.pid
    rw [hm]
  | join join =>
    obtain ⟨engine, groups, gaps, generator, hm, hkey⟩ := handleJoin_rest ctx directory join m
    simp only [handle, hm]
    exact ⟨trivial, hkeeps engine hkey⟩
  | joinAck ack =>
    obtain ⟨engine, phase, groups, gaps, hm, hkey⟩ := handleJoinAck_rest ack m
    simp only [handle, hm]
    exact ⟨trivial, hkeeps engine hkey⟩
  | heartbeatAck ack => exact ⟨rfl, h⟩
  | keyEncapNotify | keyEncap | keyUpdate | keyUpdateAck => exact hplace trivial

theorem honest_receive (ctx : Context S) {directory : Directory S}
    (h : m.engine.Honest directory) (now : Timestamp) (frame : Bytes) :
    (m.receive ctx now frame directory).2.1.pid = m.pid ∧
      (m.receive ctx now frame directory).2.1.engine.Honest
        (m.receive ctx now frame directory).2.2 := by
  unfold receive
  split
  · exact honest_handle h now _
  · exact ⟨rfl, h⟩

end Member

namespace Coordinator

variable {ctx : Context S} {c : Coordinator S ρ} {k : Nat}
  {r : Except NodeError (List (Message S)) × Coordinator S ρ}

theorem Ticks.of_keys {now : Timestamp} (h : Ticks ctx now c .keyEncapNotify r) :
    Keeps c r.2 ∧ ∀ x ∈ emitted r.1, x.IsOfKeys := by
  have hforget := (keeps_forgetStale ctx now c).joined
  cases h with
  | nobody => exact ⟨⟨rfl, rfl, rfl, rfl, rfl, rfl, rfl, hforget⟩, by simp [emitted]⟩
  | asked =>
    refine ⟨⟨rfl, rfl, rfl, rfl, rfl, rfl, rfl, hforget⟩, ?_⟩
    simp [emitted, Message.IsOfKeys, Message.kind, MessageKind.IsOfKeys]

theorem IsConsistent.isSized_of_mem (hc : c.IsConsistent ctx) :
    ∀ info ∈ c.snapshots, info.IsSized ctx.parameters := by
  intro info hinfo
  obtain ⟨id, g, hg, rfl⟩ := mem_snapshots.1 hinfo
  have hgroup := hc.group id g hg
  refine ⟨hgroup.tier.symm, fun scale hscale => ?_⟩
  rw [hgroup.tier, hgroup.scale] at hscale
  rw [hgroup.length_slots, Except.ok.inj hscale]

variable [Generator ρ]

/-- **What a coordinator does with session keys** leaves its groups alone, and is about session keys
again. -/
theorem Handles.of_keys {directory : Directory S} {now : Timestamp} {msg : Message S}
    (h : Handles ctx directory now c msg r) (hmsg : msg.IsOfKeys) :
    Keeps c r.2 ∧ ∀ x ∈ emitted r.1, x.IsOfKeys := by
  cases h with
  | dropped => exact ⟨.refl c, by simp [emitted]⟩
  | answered | proposed =>
    refine ⟨⟨rfl, rfl, rfl, rfl, rfl, rfl, rfl, .refl _⟩, ?_⟩
    simp [emitted, Message.IsOfKeys, Message.kind, MessageKind.IsOfKeys]
  | noted | placed | early | lost | refuted | unseated | seated => exact absurd hmsg id

theorem founds_receive (ctx : Context S) (directory : Directory S) (now : Timestamp) (frame : Bytes)
    (c₀ c : Coordinator S ρ) :
    founds c₀ (c.receive ctx directory now frame).2 = founds c₀ c := by
  have halters : Alters ctx ⟨directory, now, .frame frame⟩ c (c.receive ctx directory now frame) :=
    alters_react ctx ⟨directory, now, .frame frame⟩ c
  obtain ⟨hnext, hcurrent⟩ := halters.current_of_frame (by simp)
  rw [founds, founds, founded?, founded?, hnext, hcurrent]

theorem Numbered.receive (hp : ctx.parameters.HasNumberedSlots) (hc : c.IsConsistent ctx)
    (h : c.Numbered k) (directory : Directory S) (now : Timestamp) (frame : Bytes) :
    (c.receive ctx directory now frame).2.Numbered k := by
  have halters : Alters ctx ⟨directory, now, .frame frame⟩ c (c.receive ctx directory now frame) :=
    alters_react ctx ⟨directory, now, .frame frame⟩ c
  have hnumbered := h.alters hp hc halters (by simp)
  rwa [founds_of_same (halters.current_of_frame (by simp)).1] at hnumbered

end Coordinator

/-! ## Networks -/

namespace Network

variable {ctx : Context S} {n n' : Network S ρ} {k : Nat}

/-- The state of every node is consistent, members have distinct numbers, and the directory knows
the key of each. The coordinator has founded `k` groups. -/
structure Sound (ctx : Context S) (k : Nat) (n : Network S ρ) : Prop where
  context : n.context = ctx
  coordinator : n.coordinator.IsConsistent ctx
  numbered : n.coordinator.Numbered k
  member : ∀ (place : Nat) (m : Member S ρ), n.members[place]? = some m → m.IsConsistent ctx
  honest : ∀ (place : Nat) (m : Member S ρ), n.members[place]? = some m →
    m.engine.Honest n.directory
  pids : (n.members.map (·.pid)).Nodup

theorem map_pid_eq (hlength : n'.members.length = n.members.length)
    (h : ∀ (place : Nat) (m' : Member S ρ), n'.members[place]? = some m' →
      ∃ m, n.members[place]? = some m ∧ m'.pid = m.pid) :
    n'.members.map (·.pid) = n.members.map (·.pid) := by
  refine List.ext_getElem? fun place => ?_
  rw [List.getElem?_map, List.getElem?_map]
  cases hm' : n'.members[place]? with
  | some m' =>
    obtain ⟨m, hm, hpid⟩ := h place m' hm'
    rw [hm, Option.map_some, Option.map_some, hpid]
  | none =>
    rw [List.getElem?_eq_none_iff, hlength] at hm'
    rw [List.getElem?_eq_none hm']

variable [Generator ρ]

/-- **A broadcast keeps a network sound.** -/
theorem Sound.heard (hp : ctx.parameters.HasNumberedSlots) (h : n.Sound ctx k) {t : Transmission}
    {answer : Nat → List (Message S)}
    (hheard : Heard t (List.range n.nodeCount) n n' answer) :
    n'.Sound ctx k := by
  have hmember : ∀ (place : Nat) (m' : Member S ρ), n'.members[place]? = some m' →
      ∃ m, n.members[place]? = some m ∧ m'.pid = m.pid ∧ m'.IsConsistent ctx ∧
        m'.engine.Honest n'.directory := by
    intro place m' hm'
    obtain ⟨m, hm, ⟨-, rfl, -⟩ | ⟨-, d, d', hd, hd', hreceive⟩⟩ := hheard.member_cases hm'
    · exact ⟨m', hm, rfl, h.member place m' hm, (h.honest place m' hm).mono hheard.grows.directory⟩
    · rw [h.context] at hreceive
      have hkept := Member.honest_receive ctx ((h.honest place m hm).mono hd) n.now t.frame
      have hconsistent := (h.member place m hm).receive hp n.now t.frame d (by simp [hreceive])
      rw [hreceive] at hkept hconsistent
      exact ⟨m, hm, hkept.1, hconsistent, hkept.2.mono hd'⟩
  have hcoordinator : n'.coordinator.IsConsistent ctx ∧ n'.coordinator.Numbered k := by
    rcases hheard.coordinator_cases with ⟨-, hsame, -⟩ | ⟨-, d, -, hreceive⟩
    · rw [hsame]
      exact ⟨h.coordinator, h.numbered⟩
    · rw [h.context] at hreceive
      have hnumbered := h.numbered.receive hp h.coordinator d n.now t.frame
      have hconsistent := h.coordinator.react hp ⟨d, n.now, .frame t.frame⟩
      change (n.coordinator.receive ctx d n.now t.frame).2.IsConsistent ctx at hconsistent
      rw [hreceive] at hnumbered hconsistent
      exact ⟨hconsistent, hnumbered⟩
  have hpids := map_pid_eq hheard.grows.length fun place m' hm' => by
    obtain ⟨m, hm, hpid, -⟩ := hmember place m' hm'
    exact ⟨m, hm, hpid⟩
  refine ⟨hheard.grows.context.trans h.context, hcoordinator.1, hcoordinator.2,
    fun place m' hm' => ?_, fun place m' hm' => ?_, hpids ▸ h.pids⟩
  · obtain ⟨-, -, -, hconsistent, -⟩ := hmember place m' hm'
    exact hconsistent
  · obtain ⟨-, -, -, -, hhonest⟩ := hmember place m' hm'
    exact hhonest

theorem Heard.founds_eq {t : Transmission} {answer : Nat → List (Message S)}
    (hheard : Heard t (List.range n.nodeCount) n n' answer) (c : Coordinator S ρ) :
    Coordinator.founds c n'.coordinator = Coordinator.founds c n.coordinator := by
  rcases hheard.coordinator_cases with ⟨-, hsame, -⟩ | ⟨-, d, -, hreceive⟩
  · rw [hsame]
  · have hfounds := Coordinator.founds_receive n.context d n.now t.frame c n.coordinator
    rwa [hreceive] at hfounds

/-! ### The start -/

theorem honest_new {pid : UInt32} {generator : ρ} {directory directory' : Directory S}
    {m : Member S ρ} (h : Member.new pid generator directory = (.ok m, directory')) :
    m.pid = pid ∧ m.engine.Honest directory' ∧ directory'.Extends directory := by
  obtain ⟨key, res, hdrawn, rfl, rfl⟩ := Member.new_eq_ok h
  cases hdrawn with
  | published grows _ _ published =>
    refine ⟨rfl, fun own hown => ?_, grows⟩
    obtain rfl := Option.some.inj hown
    exact published

theorem Sound.add (h : n.Sound ctx k) {pid : UInt32} {generator : ρ} {m : Member S ρ}
    {directory : Directory S} (hnew : Member.new pid generator n.directory = (.ok m, directory))
    (hpids : (n.members.map (·.pid) ++ [pid]).Nodup) :
    Sound ctx k { n with directory, members := n.members ++ [m] } := by
  obtain ⟨hpid, hhonest, hextends⟩ := honest_new hnew
  have hcases : ∀ (place : Nat) (m' : Member S ρ), (n.members ++ [m])[place]? = some m' →
      n.members[place]? = some m' ∨ m' = m := by
    intro place m' hm'
    rcases Nat.lt_or_ge place n.members.length with hlt | hge
    · exact .inl (List.getElem?_append_left hlt ▸ hm')
    · rw [List.getElem?_append_right hge] at hm'
      exact .inr (List.mem_singleton.1 (List.mem_of_getElem? hm'))
  refine ⟨h.context, h.coordinator, h.numbered, fun place m' hm' => ?_, fun place m' hm' => ?_, ?_⟩
  · rcases hcases place m' hm' with hm' | rfl
    · exact h.member place m' hm'
    · exact Member.isConsistent_new hnew
  · rcases hcases place m' hm' with hm' | rfl
    · exact (h.honest place m' hm').mono hextends
    · exact hhonest
  · simpa [hpid] using hpids

theorem Sound.enroll (h : n.Sound ctx k) {members : List (UInt32 × ρ)}
    (hpids : (n.members.map (·.pid) ++ members.map (·.1)).Nodup)
    (henroll : assemble.enroll members n = .ok n') : n'.Sound ctx k := by
  induction members generalizing n with
  | nil =>
    obtain rfl := Except.ok.inj henroll
    exact h
  | cons member members ih =>
    unfold assemble.enroll at henroll
    rcases hnew : Member.new (S := S) member.1 member.2 n.directory with ⟨_ | m, d⟩
    · simp [hnew] at henroll
    · simp only [hnew] at henroll
      rw [List.map_cons, ← List.singleton_append, ← List.append_assoc] at hpids
      refine ih (h.add hnew (hpids.sublist (List.sublist_append_left _ _))) ?_ henroll
      obtain ⟨hpid, -⟩ := honest_new hnew
      simpa [hpid] using hpids

/-- **New nodes with distinct numbers are a sound network**, and no group was founded. -/
theorem sound_assemble {now : Timestamp} {directory : Directory S} {coordinator : UInt32 × ρ}
    {secrets : SlotSecrets S} {members : List (UInt32 × ρ)} (hpids : (members.map (·.1)).Nodup)
    (h : assemble ctx now directory coordinator secrets members = .ok n) : n.Sound ctx 0 := by
  unfold assemble at h
  split at h
  · simp at h
  · next c hc =>
    obtain ⟨hconsistent, hnumbered⟩ := Coordinator.state_new hc
    have hstart : Sound ctx 0
        { context := ctx, now, directory, coordinator := c, members := [] : Network S ρ } :=
      ⟨rfl, hconsistent, hnumbered, by simp, by simp, by simp⟩
    exact hstart.enroll hpids h

end Network

end GroupKey
