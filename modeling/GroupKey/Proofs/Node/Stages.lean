import GroupKey.Proofs.Node.Soundness
import GroupKey.Proofs.Node.Tracking
import GroupKey.Proofs.Wire.RoundTrip

/-!
# The stages of a round

If no frame is lost, a round that starts with a heartbeat goes through the same stages each time.
The members answer the heartbeat, at most one of them is assigned a slot and sends a proof for it,
the coordinator lets it in while the other members of the group follow, and the acknowledgement
makes it a member. All other frames are about session keys. A frame that cannot be read is dropped
by all nodes alike, which ends the round early and does no harm.

* `Context.Tells` — what a frame tells those who can read it.
* `Network.Aligned` — all members track the groups of the coordinator, each in a place of its own.
* `Network.Stage` — what the queue can hold in the course of a round.
* `Aligned.heard_keys`, `Aligned.heard_beat`, `Aligned.heard_ack`, `Aligned.heard_note`,
  `Aligned.heard_join`, `Aligned.heard_joinAck` — one broadcast in each stage.
* `Stage.heard` — every broadcast keeps the network aligned and leads to a stage.
-/

namespace GroupKey

variable {S : Suite} {ρ : Type}

/-! ## What a frame tells -/

namespace Context

variable {ctx : Context S} {P : Message S → Prop}

/-- What is read from the frame, if anything, is a message of this kind. -/
def Tells (ctx : Context S) (P : Message S → Prop) (frame : Bytes) : Prop :=
  ∀ msg, ctx.decode? frame = some msg → P msg

theorem tells_encode {msg : Message S}
    (h : ∀ msg', Message.decode ctx.parameters msg.encode = .ok msg' → P msg') :
    ctx.Tells P msg.encode := by
  intro msg' hmsg
  unfold decode? at hmsg
  split at hmsg
  · next hdecode =>
    obtain rfl := Option.some.inj hmsg
    exact h _ hdecode
  · simp at hmsg

theorem tells_of_keys {msg : Message S} (h : msg.IsOfKeys) :
    ctx.Tells Message.IsOfKeys msg.encode :=
  tells_encode fun _ hmsg => h.of_decode hmsg

theorem tells_eq [S.FaithfulPoints] {msg : Message S} (h : msg.IsShaped (.all S) ctx.parameters) :
    ctx.Tells (· = msg) msg.encode := by
  refine tells_encode fun msg' hmsg => ?_
  rw [Message.decode_encode h] at hmsg
  split at hmsg
  · exact (Except.ok.inj hmsg).symm
  · simp at hmsg

end Context

/-! ## What one node does -/

/-- An answer to a heartbeat is noted, or gets an assignment if there is none. -/
theorem Coordinator.Handles.of_ack [Generator ρ] {ctx : Context S} {directory : Directory S}
    {now : Timestamp} {ack : HeartbeatAck} {c : Coordinator S ρ}
    {r : Except NodeError (List (Message S)) × Coordinator S ρ}
    (h : Handles ctx directory now c (.heartbeatAck ack) r) (hc : c.IsConsistent ctx) :
    r.2.groups = c.groups ∧ (r.2.assignment = c.assignment ∧ emitted r.1 = [] ∨
      c.assignment = none ∧
        ∃ a, r.2.assignment = some a ∧ emitted r.1 = [.notifyPosition a]) := by
  cases h with
  | noted => exact ⟨rfl, .inl ⟨rfl, rfl⟩⟩
  | placed unset free =>
    -- No slot is handed out while a join is awaited.
    obtain ⟨hidle, -⟩ := slotFor?_eq_some.1 free
    have hidle : c.phase = .idle := hidle
    have hawaited := mt hc.awaited.2 (by rw [hidle]; simp)
    exact ⟨rfl, .inr ⟨by simpa using hawaited, _, rfl, rfl⟩⟩
  | dropped other => exact absurd rfl (other ack)

/-- **A coordinator lets in the member that it awaits**, if that has sent an honest proof. -/
theorem Coordinator.handleJoin_of_suits [Generator ρ] [S.BilinearPairing] {ctx : Context S}
    {secrets : SlotSecrets S} (hp : ctx.parameters.IsSetup secrets) {c : Coordinator S ρ}
    (hc : c.IsConsistent ctx) {directory : Directory S} {t : SizeTier S} {made : Contribution S}
    {reserved : S.G1} {g : ManagedGroup S} {pid : UInt32} (now : Timestamp)
    (hassigned : c.assignment = some ⟨made.proof.group, made.proof.slot, pid⟩)
    (hheld : c.groups[made.proof.group]? = some g)
    (hsuits : made.Suits ctx.parameters directory t reserved g.info) :
    ∃ share g' c', c.handleJoin ctx directory now ⟨pid, made.proof⟩ = (.ok [.joinAck
        ⟨made.proof.group, made.proof.slot, made.proof.keyId, share, g'.info.key⟩], c') ∧
      g'.info = g.info.seated made.proof.slot (g.info.key.apply (made.change t)) ∧
      c'.groups = c.groups.insert made.proof.group g' := by
  have hgroup := hc.group _ g hheld
  have hphase : c.phase = .handlingJoin := hc.awaited.2 (by simp [hassigned])
  have hvalid := JoinProof.check_of_isMade hsuits.tier_eq hsuits.honest hsuits.published c.generator
  obtain ⟨share, g', hseat, hg'⟩ : ∃ share g',
      g.seat ctx.parameters directory made.proof = (.ok share, g') ∧
        g'.info = g.info.seated made.proof.slot (g.info.key.apply (made.change t)) := by
    obtain ⟨share, shares, hseat, -⟩ := ManagedGroup.seat_eq_ok (hp.isShaped hsuits.tier_eq)
      hsuits.tier_eq hsuits.honest.fits hsuits.published
      (hgroup.length_shares.trans (hsuits.scale_eq hgroup)) (hsuits.count_lt hp hgroup)
    exact ⟨share, _, hseat, rfl⟩
  have hadmits : Admits ctx directory ⟨pid, made.proof⟩ c g :=
    ⟨hassigned, hheld, hsuits.tier.symm, hsuits.free, by rw [hvalid]⟩
  exact ⟨share, g', _, handleJoin_of_admits hphase hadmits hseat now, hg', rfl⟩

theorem Member.eq_of_silent {r : Except NodeError Unit × Member S ρ} {d d' : Directory S}
    {ms : List (Message S)} {m' : Member S ρ}
    (h : (r.1.map fun _ => ([] : List (Message S)), r.2, d) = (.ok ms, m', d')) :
    ms = [] ∧ r = (.ok (), m') := by
  rcases r with ⟨_ | _, m⟩
  · simp [Except.map] at h
  · obtain ⟨hms, hm⟩ := Prod.mk.inj h
    obtain ⟨rfl, -⟩ := Prod.mk.inj hm
    exact ⟨(Except.ok.inj hms).symm, rfl⟩

namespace Network

variable {ctx : Context S} {n n' : Network S ρ} {k : Nat} {t : Transmission}
  {answer : Nat → List (Message S)}

section Heard

variable [Generator ρ] (h : Heard t (List.range n.nodeCount) n n' answer)

include h

/-- A frame that cannot be read changes nothing. -/
theorem Heard.of_unread (hread : n.context.decode? t.frame = none) :
    n'.coordinator = n.coordinator ∧
      (∀ (place : Nat) (m' : Member S ρ), n'.members[place]? = some m' →
        n.members[place]? = some m') ∧ n.replies answer = [] := by
  have hmember : ∀ (place : Nat) (m' : Member S ρ), n'.members[place]? = some m' →
      n.members[place]? = some m' ∧ answer (place + 1) = [] := by
    intro place m' hm'
    obtain ⟨m, hm, ⟨-, rfl, hanswer⟩ | ⟨-, d, d', -, -, hreceive⟩⟩ := h.member_cases hm'
    · exact ⟨hm, hanswer⟩
    · simp only [Member.receive, hread] at hreceive
      obtain ⟨hanswer, rfl, -⟩ : [] = answer (place + 1) ∧ m = m' ∧ d = d' := by
        simpa using hreceive
      exact ⟨hm, hanswer.symm⟩
  have hcoordinator : n'.coordinator = n.coordinator ∧ answer 0 = [] := by
    rcases h.coordinator_cases with ⟨-, hsame, hanswer⟩ | ⟨-, d, -, hreceive⟩
    · exact ⟨hsame, hanswer⟩
    · simp only [Coordinator.receive, hread] at hreceive
      obtain ⟨hanswer, hsame⟩ : [] = answer 0 ∧ n.coordinator = n'.coordinator := by
        simpa using hreceive
      exact ⟨hsame.symm, hanswer.symm⟩
  refine ⟨hcoordinator.1, fun place m' hm' => (hmember place m' hm').1, ?_⟩
  rw [h.replies_of_coordinator fun place m' hm' => (hmember place m' hm').2, hcoordinator.2,
    List.map_nil]

variable {msg : Message S}

theorem Heard.coordinator_handles (hread : n.context.decode? t.frame = some msg) :
    (t.sender = 0 ∧ n'.coordinator = n.coordinator ∧ answer 0 = []) ∨
      (t.sender ≠ 0 ∧ ∃ d, d.Extends n.directory ∧
        n.coordinator.handle n.context d n.now msg = (.ok (answer 0), n'.coordinator)) := by
  rcases h.coordinator_cases with hsent | ⟨hsender, d, hd, hreceive⟩
  · exact .inl hsent
  · simp only [Coordinator.receive, hread] at hreceive
    exact .inr ⟨hsender, d, hd, hreceive⟩

theorem Heard.member_handles (hread : n.context.decode? t.frame = some msg) {place : Nat}
    {m' : Member S ρ} (hm' : n'.members[place]? = some m') :
    ∃ m, n.members[place]? = some m ∧
      ((t.sender = place + 1 ∧ m' = m ∧ answer (place + 1) = []) ∨
        (t.sender ≠ place + 1 ∧ ∃ d d', d.Extends n.directory ∧ n'.directory.Extends d' ∧
          m.handle n.context n.now msg d = (.ok (answer (place + 1)), m', d'))) := by
  obtain ⟨m, hm, hsent | ⟨hsender, d, d', hd, hd', hreceive⟩⟩ := h.member_cases hm'
  · exact ⟨m, hm, .inl hsent⟩
  · simp only [Member.receive, hread] at hreceive
    exact ⟨m, hm, .inr ⟨hsender, d, d', hd, hd', hreceive⟩⟩

/-- What the coordinator has sent, all members handle. -/
theorem Heard.of_coordinator (hsender : t.sender = 0)
    (hread : n.context.decode? t.frame = some msg) :
    n'.coordinator = n.coordinator ∧ answer 0 = [] ∧
      ∀ (place : Nat) (m' : Member S ρ), n'.members[place]? = some m' →
        ∃ m d d', n.members[place]? = some m ∧ d.Extends n.directory ∧ n'.directory.Extends d' ∧
          m.handle n.context n.now msg d = (.ok (answer (place + 1)), m', d') := by
  have hcoordinator : n'.coordinator = n.coordinator ∧ answer 0 = [] := by
    rcases h.coordinator_cases with ⟨-, hsame, hanswer⟩ | ⟨hne, -⟩
    · exact ⟨hsame, hanswer⟩
    · exact absurd hsender hne
  refine ⟨hcoordinator.1, hcoordinator.2, fun place m' hm' => ?_⟩
  obtain ⟨m, hm, ⟨heq, -⟩ | ⟨-, d, d', hd, hd', hhandle⟩⟩ := h.member_handles hread hm'
  · rw [hsender] at heq
    exact absurd heq (Nat.succ_ne_zero place).symm
  · exact ⟨m, d, d', hm, hd, hd', hhandle⟩

end Heard

/-! ## Networks in step -/

/-- All members track the groups of the coordinator, and no two have the same place. -/
structure Aligned (ctx : Context S) (k : Nat) (n : Network S ρ) : Prop extends n.Sound ctx k where
  tracks : ∀ (place : Nat) (m : Member S ρ), n.members[place]? = some m →
    m.Tracks k n.coordinator.groups
  places : ∀ (i j : Nat) (m m' : Member S ρ) (place : GroupId × UInt32), n.members[i]? = some m →
    n.members[j]? = some m' → m.place? = some place → m'.place? = some place → i = j

/-- No member takes a place. -/
theorem Aligned.of_same_places (h : n.Aligned ctx k) (hsound : n'.Sound ctx k)
    (hmember : ∀ (i : Nat) (m' : Member S ρ), n'.members[i]? = some m' →
      m'.Tracks k n'.coordinator.groups ∧ ∃ m, n.members[i]? = some m ∧
        ∀ place, m'.place? = some place → m.place? = some place) : n'.Aligned ctx k where
  toSound := hsound
  tracks i m' hm' := (hmember i m' hm').1
  places i j m₁' m₂' place hm₁' hm₂' hplace₁ hplace₂ := by
    obtain ⟨-, m₁, hm₁, h₁⟩ := hmember i m₁' hm₁'
    obtain ⟨-, m₂, hm₂, h₂⟩ := hmember j m₂' hm₂'
    exact h.places i j m₁ m₂ place hm₁ hm₂ (h₁ place hplace₁) (h₂ place hplace₂)

theorem Aligned.of_keepsPlace (h : n.Aligned ctx k) (hsound : n'.Sound ctx k)
    (hgroups : n'.coordinator.groups = n.coordinator.groups)
    (hmember : ∀ (i : Nat) (m' : Member S ρ), n'.members[i]? = some m' →
      ∃ m, n.members[i]? = some m ∧ m.KeepsPlace m') : n'.Aligned ctx k := by
  refine h.of_same_places hsound fun i m' hm' => ?_
  obtain ⟨m, hm, hkeeps⟩ := hmember i m' hm'
  have hjoined : m'.joinedGroup? = m.joinedGroup? := by
    rw [Member.joinedGroup?, Member.joinedGroup?, hkeeps.phase, hkeeps.engine]
  refine ⟨?_, m, hm, fun place hplace => ?_⟩
  · rw [hgroups]
    exact (h.tracks i m hm).of_same hkeeps.groups hkeeps.gaps fun id hid => hjoined ▸ hid
  · rwa [Member.place?, hkeeps.phase, hkeeps.engine] at hplace

theorem Sound.eq_of_pid (h : n.Sound ctx k) {i j : Nat} {m m' : Member S ρ}
    (hm : n.members[i]? = some m) (hm' : n.members[j]? = some m') (hpid : m.pid = m'.pid) :
    i = j := by
  have hlt : i < (n.members.map (·.pid)).length := by
    rw [List.length_map]
    exact (List.getElem?_eq_some_iff.1 hm).1
  refine (List.getElem?_inj hlt h.pids).1 ?_
  rw [List.getElem?_map, List.getElem?_map, hm, hm', Option.map_some, Option.map_some, hpid]

/-! ## The stages of a round -/

theorem Sound.named (h : n.Sound ctx k) (id : GroupId) (g : ManagedGroup S)
    (hg : n.coordinator.groups[id]? = some g) : g.info.id = id ∧ id.seq.toNat < k :=
  ⟨(h.coordinator.group id g hg).id, h.numbered.held id g hg⟩

/-- One member has sent a proof for the slot that it was assigned, in a group that it knows as the
coordinator holds it. -/
structure Joining (ctx : Context S) (n : Network S ρ) (place : Nat) (m : Member S ρ)
    (t : SizeTier S) (made : Contribution S) (reserved : S.G1) (g : ManagedGroup S) : Prop where
  member : n.members[place]? = some m
  applies : m.Applies ctx.parameters n.directory t made reserved g.info
  assigned : n.coordinator.assignment = some ⟨made.proof.group, made.proof.slot, m.pid⟩
  held : n.coordinator.groups[made.proof.group]? = some g
  others : ∀ (other : Nat) (m' : Member S ρ), n.members[other]? = some m' → other ≠ place →
    m'.phase ≠ .joining

/-- The coordinator has let it in, and nobody else has the slot. -/
structure Admitted (ctx : Context S) (n : Network S ρ) (place : Nat) (m : Member S ρ)
    (t : SizeTier S) (made : Contribution S) (reserved : S.G1) (g g' : ManagedGroup S) : Prop where
  member : n.members[place]? = some m
  applies : m.Applies ctx.parameters n.directory t made reserved g.info
  held : n.coordinator.groups[made.proof.group]? = some g'
  admits : g'.info = g.info.seated made.proof.slot (g.info.key.apply (made.change t))
  others : ∀ (other : Nat) (m' : Member S ρ), n.members[other]? = some m' → other ≠ place →
    m'.phase ≠ .joining
  free : ∀ (other : Nat) (m' : Member S ρ), n.members[other]? = some m' →
    m'.place? ≠ some (made.proof.group, made.proof.slot)

/-- What the queue holds. -/
inductive Stage (ctx : Context S) (n : Network S ρ) : (queue : List Transmission) → Prop
  /-- Messages about session keys, or nothing any more. -/
  | keys {queue : List Transmission} (hkeys : ∀ t ∈ queue, ctx.Tells Message.IsOfKeys t.frame) :
    Stage ctx n queue
  /-- A heartbeat that tells of all groups held. -/
  | beat {frame : Bytes} (htold : ctx.Tells (fun msg => ∃ hb, msg = .heartbeat hb ∧
      hb.groups = n.coordinator.snapshots) frame) : Stage ctx n [⟨0, frame⟩]
  /-- Answers to the heartbeat from members that are up to date, and at most one assignment. -/
  | answers {queue acks notes : List Transmission} (hqueue : queue = acks ++ notes)
      (hacks : ∀ t ∈ acks, ctx.Tells (fun msg => ∃ ack, msg = .heartbeatAck ack) t.frame)
      (hfresh : ∀ (place : Nat) (m : Member S ρ), n.members[place]? = some m →
        m.IsUpToDate n.coordinator.groups)
      (hnotes : notes = [] ∨ ∃ a frame, notes = [⟨0, frame⟩] ∧
        n.coordinator.assignment = some a ∧ ctx.Tells (· = .notifyPosition a) frame) :
    Stage ctx n queue
  /-- The join of the member that was assigned the slot. -/
  | join {frame : Bytes} {place : Nat} {m : Member S ρ} {t : SizeTier S} {made : Contribution S}
      {reserved : S.G1} {g : ManagedGroup S} (hjoining : Joining ctx n place m t made reserved g)
      (htold : ctx.Tells (· = .join ⟨m.pid, made.proof⟩) frame) :
    Stage ctx n [⟨place + 1, frame⟩]
  /-- Its acknowledgement. -/
  | joinAck {frame : Bytes} {place : Nat} {m : Member S ρ} {t : SizeTier S}
      {made : Contribution S} {reserved share : S.G1} {g g' : ManagedGroup S}
      (hadmitted : Admitted ctx n place m t made reserved g g')
      (htold : ctx.Tells (· = .joinAck ⟨made.proof.group, made.proof.slot, made.proof.keyId, share,
        g'.info.key⟩) frame) : Stage ctx n [⟨0, frame⟩]

theorem Stage.done : Stage ctx n [] := .keys (by simp)

variable [Generator ρ]

theorem Aligned.of_unread (h : n.Aligned ctx k) (hsound : n'.Sound ctx k)
    (hheard : Heard t (List.range n.nodeCount) n n' answer)
    (hread : n.context.decode? t.frame = none) : n'.Aligned ctx k ∧ n.replies answer = [] := by
  obtain ⟨hcoordinator, hmembers, hreplies⟩ := hheard.of_unread hread
  refine ⟨h.of_same_places hsound fun i m' hm' => ?_, hreplies⟩
  rw [hcoordinator]
  exact ⟨h.tracks i m' (hmembers i m' hm'), m', hmembers i m' hm', fun _ hplace => hplace⟩

/-- Only frames that can be read need to be looked at. -/
theorem Aligned.heard_of_read (h : n.Aligned ctx k) (hsound : n'.Sound ctx k)
    (hheard : Heard t (List.range n.nodeCount) n n' answer)
    (hread : ∀ msg, n.context.decode? t.frame = some msg →
      n'.Aligned ctx k ∧ Stage ctx n' (n.replies answer)) :
    n'.Aligned ctx k ∧ Stage ctx n' (n.replies answer) := by
  cases hmsg : n.context.decode? t.frame with
  | none =>
    obtain ⟨haligned, hreplies⟩ := h.of_unread hsound hheard hmsg
    rw [hreplies]
    exact ⟨haligned, .done⟩
  | some msg => exact hread msg hmsg

/-! ## One broadcast in each stage -/

/-- **Session keys** leave the groups alone, and are answered by session keys. -/
theorem Aligned.heard_keys (h : n.Aligned ctx k) (hsound : n'.Sound ctx k)
    (hheard : Heard t (List.range n.nodeCount) n n' answer)
    (hkeys : ctx.Tells Message.IsOfKeys t.frame) :
    n'.Aligned ctx k ∧ ∀ r ∈ n.replies answer, ctx.Tells Message.IsOfKeys r.frame := by
  cases hread : n.context.decode? t.frame with
  | none =>
    obtain ⟨haligned, hreplies⟩ := h.of_unread hsound hheard hread
    exact ⟨haligned, by simp [hreplies]⟩
  | some msg =>
    have hmsg : msg.IsOfKeys := hkeys msg (h.context ▸ hread)
    have hcoordinator : n'.coordinator.groups = n.coordinator.groups ∧
        ∀ x ∈ answer 0, x.IsOfKeys := by
      rcases hheard.coordinator_handles hread with ⟨-, hsame, hanswer⟩ | ⟨-, d, -, hhandle⟩
      · exact ⟨by rw [hsame], by simp [hanswer]⟩
      · have hhandles := Coordinator.handles_handle n.context d n.now msg n.coordinator
        rw [hhandle] at hhandles
        obtain ⟨hkeeps, hkeys⟩ := hhandles.of_keys hmsg
        exact ⟨hkeeps.groups, hkeys⟩
    have hmember : ∀ (i : Nat) (m' : Member S ρ), n'.members[i]? = some m' →
        ∃ m, n.members[i]? = some m ∧ m.KeepsPlace m' ∧ ∀ x ∈ answer (i + 1), x.IsOfKeys := by
      intro i m' hm'
      obtain ⟨m, hm, ⟨-, rfl, hanswer⟩ | ⟨-, d, d', -, -, hhandle⟩⟩ :=
        hheard.member_handles hread hm'
      · exact ⟨m', hm, .refl m', by simp [hanswer]⟩
      · have hkeeps : m.KeepsPlace (m.handle n.context n.now msg d).2.1 :=
          Member.keepsPlace_handle hmsg n.now d
        rw [hhandle] at hkeeps
        exact ⟨m, hm, hkeeps, Member.isOfKeys_handle hmsg n.now d (congrArg Prod.fst hhandle)⟩
    refine ⟨h.of_keepsPlace hsound hcoordinator.1 fun i m' hm' => ?_, fun r hr => ?_⟩
    · obtain ⟨m, hm, hkeeps, -⟩ := hmember i m' hm'
      exact ⟨m, hm, hkeeps⟩
    · obtain ⟨node, hnode, x, hx, rfl⟩ := exists_of_mem_replies hr
      refine Context.tells_of_keys ?_
      cases node with
      | zero => exact hcoordinator.2 x hx
      | succ i =>
        obtain ⟨m', hm'⟩ := hheard.exists_member hnode
        obtain ⟨-, -, -, hanswer⟩ := hmember i m' hm'
        exact hanswer x hx

/-- **A heartbeat** brings all members up to date, and is answered by all. -/
theorem Aligned.heard_beat (h : n.Aligned ctx k) (hsound : n'.Sound ctx k) {frame : Bytes}
    (hheard : Heard ⟨0, frame⟩ (List.range n.nodeCount) n n' answer)
    (htold : ctx.Tells (fun msg => ∃ hb, msg = .heartbeat hb ∧
      hb.groups = n.coordinator.snapshots) frame) :
    n'.Aligned ctx k ∧ Stage ctx n' (n.replies answer) := by
  refine h.heard_of_read hsound hheard fun msg hread => ?_
  obtain ⟨hb, rfl, hgroups⟩ := htold msg (h.context ▸ hread)
  obtain ⟨hsame, hanswer, hhandles⟩ := hheard.of_coordinator rfl hread
  have hmember : ∀ (i : Nat) (m' : Member S ρ), n'.members[i]? = some m' →
      ∃ m, n.members[i]? = some m ∧ (m.handleHeartbeat n.now hb).2 = m' ∧
        ∃ ack, answer (i + 1) = [.heartbeatAck ack] := by
    intro i m' hm'
    obtain ⟨m, d, d', hm, -, -, hhandle⟩ := hhandles i m' hm'
    obtain ⟨hack, hm', -⟩ :
        _ = answer (i + 1) ∧ (m.handleHeartbeat n.now hb).2 = m' ∧ d = d' := by
      simpa [Member.handle] using hhandle
    exact ⟨m, hm, hm', _, hack.symm⟩
  have hlisted : ∀ info, info ∈ hb.groups ↔ ∃ (id : GroupId) (g : ManagedGroup S),
      n.coordinator.groups[id]? = some g ∧ g.info = info := by
    intro info
    rw [hgroups, Coordinator.mem_snapshots]
  have htracks : ∀ (i : Nat) (m' : Member S ρ), n'.members[i]? = some m' →
      m'.Tracks k n.coordinator.groups ∧ m'.IsUpToDate n.coordinator.groups ∧
        ∃ m, n.members[i]? = some m ∧ ∀ place, m'.place? = some place → m.place? = some place := by
    intro i m' hm'
    obtain ⟨m, hm, hm', -⟩ := hmember i m' hm'
    obtain ⟨htracks, hfresh, hplaces⟩ :=
      (h.tracks i m hm).heartbeat (h.member i m hm) n.now h.named hlisted hm'
    exact ⟨htracks, hfresh, m, hm, hplaces⟩
  refine ⟨h.of_same_places hsound fun i m' hm' => ?_,
    .answers (List.append_nil _).symm (fun r hr => ?_) (fun i m' hm' => ?_) (.inl rfl)⟩
  · obtain ⟨htracks, -, hplaces⟩ := htracks i m' hm'
    exact ⟨hsame ▸ htracks, hplaces⟩
  · obtain ⟨node, hnode, x, hx, rfl⟩ := exists_of_mem_replies hr
    cases node with
    | zero => simp [hanswer] at hx
    | succ i =>
      obtain ⟨m', hm'⟩ := hheard.exists_member hnode
      obtain ⟨-, -, -, ack, hack⟩ := hmember i m' hm'
      obtain rfl := List.mem_singleton.1 (hack ▸ hx)
      refine Context.tells_encode fun msg' hmsg' => ?_
      have hkind := Message.kind_of_decode hmsg'
      cases msg' with
      | heartbeatAck ack' => exact ⟨ack', rfl⟩
      | _ => cases hkind
  · rw [hsame]
    exact (htracks i m' hm').2.1

/-- **An answer to the heartbeat** is noted, or gets an assignment if there is none. -/
theorem Aligned.heard_ack (h : n.Aligned ctx k) (hsound : n'.Sound ctx k)
    (hheard : Heard t (List.range n.nodeCount) n n' answer)
    (hack : ctx.Tells (fun msg => ∃ ack, msg = .heartbeatAck ack) t.frame) :
    n'.Aligned ctx k ∧ n'.coordinator.groups = n.coordinator.groups ∧
      (∀ (i : Nat) (m' : Member S ρ), n'.members[i]? = some m' → n.members[i]? = some m') ∧
      (n'.coordinator.assignment = n.coordinator.assignment ∧ n.replies answer = [] ∨
        n.coordinator.assignment = none ∧ ∃ a, n'.coordinator.assignment = some a ∧
          n.replies answer = [⟨0, (Message.notifyPosition (S := S) a).encode⟩]) := by
  cases hread : n.context.decode? t.frame with
  | none =>
    obtain ⟨hsame, hmembers, hreplies⟩ := hheard.of_unread hread
    exact ⟨(h.of_unread hsound hheard hread).1, by rw [hsame], hmembers,
      .inl ⟨by rw [hsame], hreplies⟩⟩
  | some msg =>
    obtain ⟨ack, rfl⟩ := hack msg (h.context ▸ hread)
    have hmember : ∀ (i : Nat) (m' : Member S ρ), n'.members[i]? = some m' →
        n.members[i]? = some m' ∧ answer (i + 1) = [] := by
      intro i m' hm'
      obtain ⟨m, hm, ⟨-, rfl, hanswer⟩ | ⟨-, d, d', -, -, hhandle⟩⟩ :=
        hheard.member_handles hread hm'
      · exact ⟨hm, hanswer⟩
      · obtain ⟨hanswer, rfl, -⟩ : [] = answer (i + 1) ∧ m = m' ∧ d = d' := by
          simpa [Member.handle] using hhandle
        exact ⟨hm, hanswer.symm⟩
    have hreplies : n.replies answer = (answer 0).map fun m => ⟨0, m.encode⟩ :=
      hheard.replies_of_coordinator fun i m' hm' => (hmember i m' hm').2
    have hcoordinator : n'.coordinator.groups = n.coordinator.groups ∧
        (n'.coordinator.assignment = n.coordinator.assignment ∧ answer 0 = [] ∨
          n.coordinator.assignment = none ∧ ∃ a, n'.coordinator.assignment = some a ∧
            answer 0 = [.notifyPosition a]) := by
      rcases hheard.coordinator_handles hread with ⟨-, hsame, hanswer⟩ | ⟨-, d, -, hhandle⟩
      · exact ⟨by rw [hsame], .inl ⟨by rw [hsame], hanswer⟩⟩
      · have hhandles := Coordinator.handles_handle n.context d n.now (.heartbeatAck ack)
          n.coordinator
        rw [hhandle] at hhandles
        exact hhandles.of_ack (h.context.symm ▸ h.coordinator)
    refine ⟨h.of_same_places hsound fun i m' hm' => ?_, hcoordinator.1,
      fun i m' hm' => (hmember i m' hm').1, ?_⟩
    · have hm := (hmember i m' hm').1
      rw [hcoordinator.1]
      exact ⟨h.tracks i m' hm, m', hm, fun _ hplace => hplace⟩
    · rcases hcoordinator.2 with ⟨hsame, hanswer⟩ | ⟨hnone, a, ha, hanswer⟩
      · exact .inl ⟨hsame, by rw [hreplies, hanswer, List.map_nil]⟩
      · exact .inr ⟨hnone, a, ha, by rw [hreplies, hanswer]; rfl⟩

/-- The other answers are still to come, and the assignment after them. -/
theorem Aligned.heard_answer [S.FaithfulPoints] (h : n.Aligned ctx k) (hsound : n'.Sound ctx k)
    (hheard : Heard t (List.range n.nodeCount) n n' answer)
    (hack : ctx.Tells (fun msg => ∃ ack, msg = .heartbeatAck ack) t.frame)
    {acks notes : List Transmission}
    (hacks : ∀ r ∈ acks, ctx.Tells (fun msg => ∃ ack, msg = .heartbeatAck ack) r.frame)
    (hfresh : ∀ (place : Nat) (m : Member S ρ), n.members[place]? = some m →
      m.IsUpToDate n.coordinator.groups)
    (hnotes : notes = [] ∨ ∃ a frame, notes = [⟨0, frame⟩] ∧ n.coordinator.assignment = some a ∧
      ctx.Tells (· = .notifyPosition a) frame) :
    n'.Aligned ctx k ∧ Stage ctx n' (acks ++ notes ++ n.replies answer) := by
  obtain ⟨haligned, hgroups, hmembers, hassignment⟩ := h.heard_ack hsound hheard hack
  refine ⟨haligned, ?_⟩
  have hfresh' : ∀ (place : Nat) (m : Member S ρ), n'.members[place]? = some m →
      m.IsUpToDate n'.coordinator.groups := fun place m hm => by
    rw [hgroups]
    exact hfresh place m (hmembers place m hm)
  rcases hassignment with ⟨hsame, hreplies⟩ | ⟨hnone, a, ha, hreplies⟩
  · rw [hreplies, List.append_nil]
    exact .answers rfl hacks hfresh' (hsame ▸ hnotes)
  · obtain rfl : notes = [] := by
      rcases hnotes with hnotes | ⟨a', -, -, ha', -⟩
      · exact hnotes
      · simp [hnone] at ha'
    obtain ⟨-, g, hheld, -⟩ := hsound.coordinator.assigned a ha
    have hgroup := hsound.coordinator.group _ g hheld
    have htag : a.group.IsWellFormed := hgroup.id ▸ hgroup.tag
    rw [hreplies, List.append_nil]
    exact .answers rfl hacks hfresh' (.inr ⟨a, _, rfl, ha, Context.tells_eq htag⟩)

section Admission

variable {secrets : SlotSecrets S} {frame : Bytes}

/-- All members pass an assignment over, or the one that it names answers with an honest proof. -/
theorem Sound.heard_assignment [S.BilinearPairing] (hp : ctx.parameters.IsSetup secrets)
    (h : n.Sound ctx k)
    (hheard : Heard ⟨0, frame⟩ (List.range n.nodeCount) n n' answer) {a : Assignment}
    (hread : n.context.decode? frame = some (.notifyPosition a)) :
    (∀ (i : Nat) (m' : Member S ρ), n'.members[i]? = some m' →
      n.members[i]? = some m' ∧ answer (i + 1) = []) ∨
    ∃ i m m' t made reserved info, n.members[i]? = some m ∧ n'.members[i]? = some m' ∧
      m'.Applies ctx.parameters n'.directory t made reserved info ∧
      a = ⟨made.proof.group, made.proof.slot, m'.pid⟩ ∧
      answer (i + 1) = [.join ⟨m'.pid, made.proof⟩] ∧
      m'.groups = m.groups ∧ m'.gaps = m.gaps ∧
      ∀ (j : Nat) (m' : Member S ρ), n'.members[j]? = some m' → j ≠ i →
        n.members[j]? = some m' ∧ answer (j + 1) = [] := by
  obtain rfl := h.context
  obtain ⟨-, -, hhandles⟩ := hheard.of_coordinator rfl hread
  have hmember : ∀ (i : Nat) (m' : Member S ρ), n'.members[i]? = some m' →
      ∃ m, n.members[i]? = some m ∧ (answer (i + 1) = [] ∧ m' = m ∨
        ∃ t made reserved info, m'.Applies n.context.parameters n'.directory t made reserved info ∧
          a = ⟨made.proof.group, made.proof.slot, m.pid⟩ ∧
          answer (i + 1) = [.join ⟨m.pid, made.proof⟩] ∧ m'.pid = m.pid ∧ m'.groups = m.groups ∧
          m'.gaps = m.gaps) := by
    intro i m' hm'
    obtain ⟨m, d, d', hm, hd, hd', hhandle⟩ := hhandles i m' hm'
    refine ⟨m, hm, ?_⟩
    rcases Member.handleNotifyPosition_ok hp ((h.honest i m hm).mono hd) hhandle with
      ⟨hnone, hsame, -⟩ | ⟨t, made, reserved, info, happlies, ha, hms, hpid, hgroups, hgaps⟩
    · exact .inl ⟨hnone, hsame⟩
    · exact .inr ⟨t, made, reserved, info, happlies.mono hd', ha, hms, hpid, hgroups, hgaps⟩
  -- Numbers of members are different, so at most one of them is named.
  by_cases hnamed : ∃ (i : Nat) (m' : Member S ρ), n'.members[i]? = some m' ∧ answer (i + 1) ≠ []
  · obtain ⟨i, m', hm', hne⟩ := hnamed
    obtain ⟨m, hm, ⟨hnone, -⟩ | ⟨t, made, reserved, info, happlies, rfl, hms, hpid, hrest⟩⟩ :=
      hmember i m' hm'
    · exact absurd hnone hne
    refine .inr ⟨i, m, m', t, made, reserved, info, hm, hm', happlies, by rw [hpid],
      by rw [hpid, hms], hrest.1, hrest.2, fun j m₁ hm₁ hji => ?_⟩
    obtain ⟨m₂, hm₂, ⟨hnone, rfl⟩ | ⟨_, _, _, _, -, ha, -⟩⟩ := hmember j m₁ hm₁
    · exact ⟨hm₂, hnone⟩
    · exact absurd (h.eq_of_pid hm₂ hm (congrArg Assignment.pid ha).symm) hji
  · refine .inl fun i m' hm' => ?_
    obtain ⟨m, hm, ⟨hnone, rfl⟩ | ⟨_, _, _, _, -, -, hms, -⟩⟩ := hmember i m' hm'
    · exact ⟨hm, hnone⟩
    · exact absurd ⟨i, m', hm', by simp [hms]⟩ hnamed

/-- **An assignment** may be answered by the member that it names, which knows the group as it is.
-/
theorem Aligned.heard_note [S.BilinearPairing] [S.FaithfulPoints]
    (hp : ctx.parameters.IsSetup secrets) (h : n.Aligned ctx k) (hsound : n'.Sound ctx k)
    (hheard : Heard ⟨0, frame⟩ (List.range n.nodeCount) n n' answer)
    {a : Assignment} (htold : ctx.Tells (· = .notifyPosition a) frame)
    (hassigned : n.coordinator.assignment = some a)
    (hfresh : ∀ (place : Nat) (m : Member S ρ), n.members[place]? = some m →
      m.IsUpToDate n.coordinator.groups) :
    n'.Aligned ctx k ∧ Stage ctx n' (n.replies answer) := by
  refine h.heard_of_read hsound hheard fun msg hread => ?_
  obtain rfl := htold msg (h.context ▸ hread)
  obtain ⟨hsame, hanswer, -⟩ := hheard.of_coordinator rfl hread
  rcases h.toSound.heard_assignment hp hheard hread with hpassed |
    ⟨i, m, m', t, made, reserved, info, hm, hm', happlies, rfl, hms, hgroups, hgaps, hothers⟩
  · refine ⟨h.of_same_places hsound fun i m' hm' => ?_, ?_⟩
    · rw [hsame]
      have hm := (hpassed i m' hm').1
      exact ⟨h.tracks i m' hm, m', hm, fun _ hplace => hplace⟩
    · rw [hheard.replies_of_coordinator fun i m' hm' => (hpassed i m' hm').2, hanswer]
      exact .done
  · obtain ⟨-, g, hheld, -⟩ := h.coordinator.assigned _ hassigned
    have hgroup : g.IsConsistent ctx.parameters made.proof.group := h.coordinator.group _ g hheld
    -- The member is up to date, so it made its proof for the group as the coordinator holds it.
    obtain rfl : info = g.info := by
      have hknown := happlies.known
      rw [hgroups, (hfresh i m hm).known _ g hheld] at hknown
      exact (Option.some.inj hknown).symm
    refine ⟨h.of_same_places hsound fun j m₁ hm₁ => ?_, ?_⟩
    · rw [hsame]
      by_cases hji : j = i
      · subst hji
        obtain rfl : m' = m₁ := Option.some.inj (hm'.symm.trans hm₁)
        refine ⟨(h.tracks j m hm).of_same hgroups hgaps fun id hid => ?_, m, hm,
          fun place hplace => ?_⟩
        · simp [happlies.joinedGroup?_eq_none] at hid
        · simp [Member.place?, happlies.phase] at hplace
      · have hm₁ := (hothers j m₁ hm₁ hji).1
        exact ⟨h.tracks j m₁ hm₁, m₁, hm₁, fun _ hplace => hplace⟩
    · rw [hheard.replies_of_member hm hanswer fun j m₁ hm₁ hji => (hothers j m₁ hm₁ hji).2, hms]
      refine .join ⟨hm', happlies, hsame ▸ hassigned, hsame ▸ hheld,
        fun j m₁ hm₁ hji => (hfresh j m₁ (hothers j m₁ hm₁ hji).1).phase⟩ (Context.tells_eq ?_)
      have htag := hgroup.tag
      rw [hgroup.id] at htag
      exact ⟨htag, ⟨t.scale, Parameters.scale_of_tier happlies.suits.tier_eq,
        happlies.suits.honest.fits⟩, trivial, fun _ _ => trivial⟩

/-- The members of the group follow a join that is let in. Nobody moves, the joiner least of all. -/
theorem Aligned.tracks_join [S.BilinearPairing] (hp : ctx.parameters.IsSetup secrets)
    (h : n.Aligned ctx k) {place : Nat} {m : Member S ρ} {t : SizeTier S} {made : Contribution S}
    {reserved : S.G1} {g g' : ManagedGroup S}
    (hheard : Heard ⟨place + 1, frame⟩ (List.range n.nodeCount) n n' answer)
    (hjoining : Joining ctx n place m t made reserved g)
    (hread : n.context.decode? frame = some (.join ⟨m.pid, made.proof⟩))
    (hg' : g'.info = g.info.seated made.proof.slot (g.info.key.apply (made.change t))) :
    ∀ (i : Nat) (m' : Member S ρ), n'.members[i]? = some m' →
      answer (i + 1) = [] ∧ m'.Tracks k (n.coordinator.groups.insert made.proof.group g') ∧
        ∃ m₁, n.members[i]? = some m₁ ∧ m'.phase = m₁.phase ∧ m'.place? = m₁.place? ∧
          (i = place → m' = m₁) := by
  obtain rfl := h.context
  have hsuits := hjoining.applies.suits
  have hgroup := h.coordinator.group _ g hjoining.held
  intro i m' hm'
  obtain ⟨m₁, hm₁, ⟨hsender, rfl, hanswer⟩ | ⟨hsender, d, d', hd, -, hhandle⟩⟩ :=
    hheard.member_handles hread hm'
  · obtain rfl : place = i := Nat.succ.inj hsender
    obtain rfl : m = m' := Option.some.inj (hjoining.member.symm.trans hm₁)
    refine ⟨hanswer,
      (h.tracks place m hm₁).of_other hjoining.held hg' (hsuits.count_lt hp hgroup) ?_,
      m, hm₁, rfl, rfl, fun _ => rfl⟩
    simp [hjoining.applies.joinedGroup?_eq_none]
  · have hpid : m.pid ≠ m₁.pid := fun hpid =>
      hsender (congrArg Nat.succ (h.eq_of_pid hjoining.member hm₁ hpid))
    obtain ⟨hanswer, hjoin⟩ := Member.eq_of_silent hhandle
    obtain ⟨htracks, hphase, hplace⟩ := (h.tracks i m₁ hm₁).join hp (h.member i m₁ hm₁)
      (hsuits.mono hd) hgroup hjoining.held hg' hpid hjoin
    exact ⟨hanswer, htracks, m₁, hm₁, hphase, hplace,
      fun heq => absurd (congrArg Nat.succ heq.symm) hsender⟩

/-- **The join of the member that is awaited** is let in, and followed by the members of its group.
-/
theorem Aligned.heard_join [S.BilinearPairing] [S.FaithfulPoints]
    (hp : ctx.parameters.IsSetup secrets) (h : n.Aligned ctx k) (hsound : n'.Sound ctx k)
    {place : Nat} {m : Member S ρ} {t : SizeTier S} {made : Contribution S} {reserved : S.G1}
    {g : ManagedGroup S}
    (hheard : Heard ⟨place + 1, frame⟩ (List.range n.nodeCount) n n' answer)
    (hjoining : Joining ctx n place m t made reserved g)
    (htold : ctx.Tells (· = .join ⟨m.pid, made.proof⟩) frame) :
    n'.Aligned ctx k ∧ Stage ctx n' (n.replies answer) := by
  obtain rfl := h.context
  refine h.heard_of_read hsound hheard fun msg hread => ?_
  obtain rfl := htold msg hread
  have hheld := hjoining.held
  have hsuits := hjoining.applies.suits
  obtain ⟨share, g', hanswer, hg', hgroups⟩ : ∃ share g',
      answer 0 = [.joinAck
        ⟨made.proof.group, made.proof.slot, made.proof.keyId, share, g'.info.key⟩] ∧
      g'.info = g.info.seated made.proof.slot (g.info.key.apply (made.change t)) ∧
      n'.coordinator.groups = n.coordinator.groups.insert made.proof.group g' := by
    rcases hheard.coordinator_handles hread with ⟨hsender, -⟩ | ⟨-, d, hd, hhandle⟩
    · exact absurd hsender (Nat.succ_ne_zero place)
    · obtain ⟨share, g', c', hjoin, hg', hgroups⟩ := Coordinator.handleJoin_of_suits hp
        h.coordinator n.now hjoining.assigned hheld (hsuits.mono hd)
      obtain ⟨hms, hc⟩ := Prod.mk.inj (hjoin.symm.trans hhandle)
      exact ⟨share, g', (Except.ok.inj hms).symm, hg', hc ▸ hgroups⟩
  have hmember := h.tracks_join hp hheard hjoining hread hg'
  refine ⟨h.of_same_places hsound fun i m' hm' => ?_, ?_⟩
  · obtain ⟨-, htracks, m₁, hm₁, -, hplace, -⟩ := hmember i m' hm'
    exact ⟨hgroups ▸ htracks, m₁, hm₁, fun place hp => hplace ▸ hp⟩
  · rw [hheard.replies_of_coordinator fun i m' hm' => (hmember i m' hm').1, hanswer]
    obtain ⟨m', hm'⟩ := hheard.exists_member
      (Nat.succ_lt_succ (List.getElem?_eq_some_iff.1 hjoining.member).1)
    obtain ⟨-, -, m₁, hm₁, -, -, hsame⟩ := hmember place m' hm'
    obtain rfl : m₁ = m := Option.some.inj (hm₁.symm.trans hjoining.member)
    obtain rfl := hsame rfl
    have hadmitted : Admitted n.context n' place m' t made reserved g g' := by
      refine ⟨hm', hjoining.applies.mono hheard.grows.directory, ?_, hg', fun i m' hm' hne => ?_,
        fun i m' hm' => ?_⟩
      · rw [hgroups]
        exact Std.ExtTreeMap.getElem?_insert_self
      · obtain ⟨-, -, m₁, hm₁, hphase, -⟩ := hmember i m' hm'
        exact hphase ▸ hjoining.others i m₁ hm₁ hne
      · obtain ⟨-, -, m₁, hm₁, -, hplace, -⟩ := hmember i m' hm'
        exact hplace ▸ (h.tracks i m₁ hm₁).place?_ne (h.member i m₁ hm₁) hheld hsuits.free
    exact .joinAck hadmitted (Context.tells_encode fun msg hmsg => Message.joinAck_of_decode hmsg)

/-- **The acknowledgement** gives the joiner its place, which ends the round. -/
theorem Aligned.heard_joinAck (h : n.Aligned ctx k) (hsound : n'.Sound ctx k) {place : Nat}
    {m : Member S ρ} {t : SizeTier S} {made : Contribution S} {reserved share : S.G1}
    {g g' : ManagedGroup S} (hheard : Heard ⟨0, frame⟩ (List.range n.nodeCount) n n' answer)
    (hadmitted : Admitted ctx n place m t made reserved g g')
    (htold : ctx.Tells (· = .joinAck
      ⟨made.proof.group, made.proof.slot, made.proof.keyId, share, g'.info.key⟩) frame) :
    n'.Aligned ctx k ∧ n.replies answer = [] := by
  cases hread : n.context.decode? frame with
  | none => exact h.of_unread hsound hheard hread
  | some msg =>
    obtain rfl := htold msg (h.context ▸ hread)
    obtain ⟨hsame, hanswer, hhandles⟩ := hheard.of_coordinator rfl hread
    -- The joiner takes its place; nobody else waits for an acknowledgement.
    have hmember : ∀ (i : Nat) (m' : Member S ρ), n'.members[i]? = some m' →
        answer (i + 1) = [] ∧ m'.Tracks k n.coordinator.groups ∧
          (i = place ∧ m'.place? = some (made.proof.group, made.proof.slot) ∨
            i ≠ place ∧ n.members[i]? = some m') := by
      intro i m' hm'
      obtain ⟨m₁, d, d', hm₁, -, -, hhandle⟩ := hhandles i m' hm'
      obtain ⟨hanswer, hack⟩ := Member.eq_of_silent hhandle
      refine ⟨hanswer, ?_⟩
      by_cases hi : i = place
      · subst hi
        obtain rfl : m = m₁ := Option.some.inj (hadmitted.member.symm.trans hm₁)
        obtain ⟨htracks, -, hplace⟩ := (h.tracks i m hm₁).joinAck hadmitted.applies hadmitted.held
          hadmitted.admits hack
        exact ⟨htracks, .inl ⟨rfl, hplace⟩⟩
      · have hwaits := hadmitted.others i m₁ hm₁ hi
        rw [Member.handleJoinAck, if_pos hwaits] at hack
        obtain rfl := (Prod.mk.inj hack).2
        exact ⟨h.tracks i m₁ hm₁, .inr ⟨hi, hm₁⟩⟩
    refine ⟨⟨hsound, fun i m' hm' => hsame ▸ (hmember i m' hm').2.1,
      fun i j m₁ m₂ taken hm₁ hm₂ hplace₁ hplace₂ => ?_⟩, ?_⟩
    · obtain ⟨-, -, ⟨hi, hplace⟩ | ⟨hi, hold⟩⟩ := hmember i m₁ hm₁
      · obtain rfl := Option.some.inj (hplace.symm.trans hplace₁)
        obtain ⟨-, -, ⟨hj, -⟩ | ⟨-, hold⟩⟩ := hmember j m₂ hm₂
        · exact hi.trans hj.symm
        · exact absurd hplace₂ (hadmitted.free j m₂ hold)
      · obtain ⟨-, -, ⟨-, hplace⟩ | ⟨-, hold'⟩⟩ := hmember j m₂ hm₂
        · obtain rfl := Option.some.inj (hplace.symm.trans hplace₂)
          exact absurd hplace₁ (hadmitted.free i m₁ hold)
        · exact h.places i j m₁ m₂ taken hold hold' hplace₁ hplace₂
    · rw [hheard.replies_of_coordinator fun i m' hm' => (hmember i m' hm').1, hanswer]
      rfl

/-! ## All stages -/

/-- **Every broadcast keeps the network aligned and leads to a stage.** -/
theorem Stage.heard [S.BilinearPairing] [S.FaithfulPoints]
    (hp : ctx.parameters.IsSetup secrets) (h : n.Aligned ctx k)
    {queue : List Transmission} (hstage : Stage ctx n (t :: queue))
    (hheard : Heard t (List.range n.nodeCount) n n' answer) :
    n'.Aligned ctx k ∧ Stage ctx n' (queue ++ n.replies answer) := by
  have hsound := h.toSound.heard hp.hasNumberedSlots hheard
  generalize hq : t :: queue = q at hstage
  cases hstage with
  | keys hkeys =>
    subst hq
    obtain ⟨haligned, hreplies⟩ := h.heard_keys hsound hheard (hkeys t List.mem_cons_self)
    refine ⟨haligned, .keys fun r hr => ?_⟩
    rcases List.mem_append.1 hr with hr | hr
    · exact hkeys r (List.mem_cons_of_mem _ hr)
    · exact hreplies r hr
  | beat htold =>
    obtain ⟨rfl, rfl⟩ := List.cons.inj hq
    exact h.heard_beat hsound hheard htold
  | @answers _ acks notes hqueue hacks hfresh hnotes =>
    -- The assignment has its turn once the answers before it are taken.
    cases acks with
    | nil =>
      rcases hnotes with rfl | ⟨a, frame, rfl, hassigned, htold⟩
      · simp [← hq] at hqueue
      · obtain ⟨rfl, rfl⟩ := List.cons.inj (hq.trans hqueue)
        exact h.heard_note hp hsound hheard htold hassigned hfresh
    | cons ack acks =>
      obtain ⟨rfl, rfl⟩ := List.cons.inj (hq.trans hqueue)
      exact h.heard_answer hsound hheard (hacks t List.mem_cons_self)
        (fun r hr => hacks r (List.mem_cons_of_mem _ hr)) hfresh hnotes
  | join hjoining htold =>
    obtain ⟨rfl, rfl⟩ := List.cons.inj hq
    exact h.heard_join hp hsound hheard hjoining htold
  | joinAck hadmitted htold =>
    obtain ⟨rfl, rfl⟩ := List.cons.inj hq
    obtain ⟨haligned, hreplies⟩ := h.heard_joinAck hsound hheard hadmitted htold
    rw [hreplies]
    exact ⟨haligned, .done⟩

end Admission

end Network

end GroupKey
