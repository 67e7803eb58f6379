import GroupKey.Proofs.Node.Admission
import GroupKey.Proofs.Node.Stages

/-!
# A coordinator is never stuck

Whatever has happened to a coordinator, its next heartbeat opens a round in which a member can join:
a join that was awaited in vain is given up, expired groups are gone, and if the current group is
full there is a new one. An unset member that answers is handed the next slot, and if it sends an
honest proof it is let in.

* `ManagedGroup.IsNextSlot` — the free slot that is handed out next.
* `RoundOpen`, `heartbeat_opens` — a heartbeat opens a round.
* `react_of_open` — the first unset member that answers is handed the next slot.
* `Welcomed`, `handleJoin_of_proves` — a member that proves its join is let in.
* `next_round` — the three together, after any run.
-/

namespace GroupKey

variable {S : Suite} {ρ σ τ : Type}

/-! ## Slots -/

namespace ManagedGroup

/-- The first free slot of the group. -/
structure IsNextSlot (g : ManagedGroup S) (slot : UInt32) : Prop where
  lt : slot.toNat < g.scale
  free : g.info.isOccupied slot = false
  least : ∀ slot' < slot, g.info.isOccupied slot' = true

theorem isNextSlot_of_head? {g : ManagedGroup S} (hscale : g.scale < UInt32.size) {slot : UInt32}
    (h : g.freeSlots.head? = some slot) : g.IsNextSlot slot := by
  obtain ⟨⟨hlt, hfree⟩, hleast⟩ := (g.lists_freeSlots hscale).of_head? h
  refine ⟨hlt, hfree, fun slot' hslot' => Bool.of_not_eq_false fun hfree' => ?_⟩
  exact hleast slot' hslot' ⟨Nat.lt_trans (UInt32.lt_iff_toNat_lt.1 hslot') hlt, hfree'⟩

end ManagedGroup

namespace Coordinator

variable {ctx : Context S} {secrets : SlotSecrets S} {c c' : Coordinator S ρ} {g : ManagedGroup S}
  {hb : Heartbeat S} {now : Timestamp} {slot : UInt32}

/-! ## The heartbeat -/

/-- A round is open: its heartbeat was sent and no slot was handed out since. The current group was
among those told; at `now` it is not expired, and it has room. -/
structure RoundOpen (now : Timestamp) (hb : Heartbeat S) (g : ManagedGroup S)
    (c : Coordinator S ρ) : Prop where
  phase : c.phase = .idle
  fresh : c.assignedThisRound = false
  last : c.lastHeartbeatSeq = some hb.seq
  current : c.currentGroup? = some g
  told : g.info ∈ hb.groups
  live : g.info.isExpired now = false
  room : g.isFull = false

/-- A group of a tier that there is can be founded, and it has room. -/
theorem bootstrap_of_scale (hp : ctx.parameters.IsSetup secrets) {tier : UInt16}
    (htier : ∃ scale, ctx.parameters.scale tier = .ok scale) (seq : UInt16) (now : Timestamp) :
    ∃ g, ManagedGroup.bootstrap ctx.parameters seq tier (now + ctx.config.groupLifetime) = .ok g ∧
      g.info.isExpired now = false ∧ g.isFull = false := by
  obtain ⟨scale, hscale⟩ := htier
  obtain ⟨t, ht, -⟩ := Parameters.scale_eq_ok.1 hscale
  have hpos := (hp.scale _ t (Parameters.tier_eq_ok.1 ht)).1
  refine ⟨_, by rw [ManagedGroup.bootstrap, ht],
    decide_eq_false (Timestamp.not_lt.2 (now.le_add _)), ?_⟩
  simpa [ManagedGroup.isFull] using hpos.ne'

/-- **A heartbeat opens a round**, whatever was left of the one before. -/
theorem heartbeat_opens (hp : ctx.parameters.IsSetup secrets)
    (htier : ∃ scale, ctx.parameters.scale c.tier = .ok scale) (now : Timestamp) :
    ∃ hb c' g, c.heartbeat ctx now = (.ok [.heartbeat hb], c') ∧ RoundOpen now hb g c' := by
  have hticks := ticks_heartbeat ctx now c
  generalize c.heartbeat ctx now = r at hticks
  obtain ⟨new, hboot, hexpired, hroom⟩ := bootstrap_of_scale hp htier c.nextGroupSeq now
  cases hticks with
  | stalled filled fails => simp [hboot] at fails
  | @continued g current room =>
    obtain ⟨id, -, hheld⟩ := Option.bind_eq_some_iff.1 current
    exact ⟨_, _, g, rfl, rfl, rfl, rfl, current, mem_snapshots.2 ⟨id, g, hheld, rfl⟩,
      isExpired_of_live hheld, room⟩
  | founded filled founds =>
    obtain rfl := Except.ok.inj (hboot.symm.trans founds)
    have hheld : ((c.rest now).withGroup new).groups[new.info.id]? = some new :=
      Std.ExtTreeMap.getElem?_insert_self
    exact ⟨_, _, new, rfl, rfl, rfl, rfl, hheld, mem_snapshots.2 ⟨_, new, hheld, rfl⟩, hexpired,
      hroom⟩

/-! ## The answer to it -/

theorem exists_isNextSlot {p : Parameters S} {id : GroupId} (h : g.IsConsistent p id)
    (hp : p.HasNumberedSlots) (hroom : g.isFull = false) :
    ∃ slot, g.freeSlots.head? = some slot ∧ g.IsNextSlot slot := by
  have hfree : g.freeSlots ≠ [] := fun hnil => by
    rw [(h.isFull_iff hp).2 hnil] at hroom
    cases hroom
  obtain ⟨slot, hslot⟩ := Option.isSome_iff_exists.1 (List.isSome_head?.2 hfree)
  exact ⟨slot, hslot, ManagedGroup.isNextSlot_of_head? (hp _ _ h.scale) hslot⟩

variable [Generator ρ] [Generator σ] [Generator τ]

/-- **In an open round an unset member that answers is handed the next slot**, as long as the group
is not expired. -/
theorem react_of_open {opened : Timestamp} (h : RoundOpen opened hb g c)
    (hslot : g.freeSlots.head? = some slot) {pid : UInt32} {e : Stimulus S}
    (he : e.Carries ctx (.heartbeatAck ⟨.unset, pid, hb.seq⟩))
    (hlive : g.info.isExpired e.now = false) :
    ∃ c', c.react ctx e = (.ok [.notifyPosition ⟨g.info.id, slot, pid⟩], c') ∧
      c'.assignment = some ⟨g.info.id, slot, pid⟩ ∧ c'.groups = c.groups := by
  -- That the answer is noted first makes no difference to the slot.
  have hnext : (c.note e.now ⟨.unset, pid, hb.seq⟩).slotFor? e.now hb.seq =
      some (g.info.id, slot) :=
    slotFor?_eq_some.2 ⟨h.phase, h.fresh, h.last, g, h.current, hlive, rfl, hslot⟩
  have hhandles : Handles ctx e.directory e.now c _ (c.react ctx e) := handles_react he
  generalize c.react ctx e = r at hhandles
  cases hhandles with
  | noted passed => simp [passed rfl] at hnext
  | placed unset free =>
    obtain ⟨rfl, rfl⟩ := Prod.mk.inj (Option.some.inj (free.symm.trans hnext))
    exact ⟨_, rfl, rfl, rfl⟩
  | dropped other => exact absurd rfl (other _)

/-! ## The join -/

/-- What it means for a member that it was let in: the acknowledgement completes its join, and it
has the key of the group, which has one more member, in its slot. -/
structure Welcomed (engine : Engine S) (slot : UInt32) (ack : JoinAck S) (info info' : Snapshot S) :
    Prop where
  derives : ∃ engine' m, engine.derive ack.group ack.slot ack.share ack.key = (true, engine') ∧
    engine'.membership = some m ∧ m.key = info'.key
  memberCount : info'.memberCount.toNat = info.memberCount.toNat + 1
  isOccupied_iff : ∀ slot', info'.isOccupied slot' = true ↔
    slot' = slot ∨ info.isOccupied slot' = true

/-- **A member that proves its join is let in**, if it was assigned the slot. -/
theorem handleJoin_of_proves [S.BilinearPairing] (hp : ctx.parameters.IsSetup secrets)
    (hc : c.IsConsistent ctx) {pid : UInt32}
    (hassigned : c.assignment = some ⟨g.info.id, slot, pid⟩) (hheld : c.groups[g.info.id]? = some g)
    (hfree : g.info.isOccupied slot = false) {d directory : Directory S} {engine : Engine S}
    (hengine : engine.Honest d) {r : τ} {proof : JoinProof S}
    (hok : (engine.prove ctx.parameters g.info.id g.info.key g.info.tier slot ⟨d, r⟩).result =
      .ok proof)
    (hext : directory.Extends (engine.prove ctx.parameters g.info.id g.info.key g.info.tier slot
      ⟨d, r⟩).resources.directory) (now : Timestamp) :
    ∃ ack g' c', c.handleJoin ctx directory now ⟨pid, proof⟩ = (.ok [.joinAck ack], c') ∧
      ack.group = g.info.id ∧ ack.slot = slot ∧ c'.groups[g.info.id]? = some g' ∧
      Welcomed (engine.prove ctx.parameters g.info.id g.info.key g.info.tier slot ⟨d, r⟩).engine
        slot ack g.info g'.info := by
  obtain ⟨t, key, reserved, ht, hmade, htier, hslot, hkey, hpending⟩ :=
    Engine.prove_ok hp hengine hok
  obtain ⟨hgroup, -, -⟩ := Engine.prove_names hok
  have hsuits : Contribution.Suits ctx.parameters directory t reserved g.info ⟨proof, key⟩ :=
    ⟨hslot ▸ hfree, htier, ht, hmade, hext _ _ hkey⟩
  have hconsistent := hc.group _ g hheld
  have hcount := hsuits.count_lt hp hconsistent
  have hreach := Bitmap.reaches_of_lt hconsistent.length_slots
    ((hsuits.scale_eq hconsistent).symm ▸ hmade.fits.slot_lt)
  have hassigned' : c.assignment = some ⟨proof.group, proof.slot, pid⟩ := by
    rw [hassigned, hgroup, hslot]
  obtain ⟨share, g', c', hjoin, hg', hgroups⟩ :=
    handleJoin_of_suits hp hc now hassigned' (hgroup.symm ▸ hheld) hsuits
  refine ⟨_, g', c', hjoin, hgroup, hslot, ?_, ?_, ?_, ?_⟩
  · rw [hgroups, ← hgroup]
    exact Std.ExtTreeMap.getElem?_insert_self
  · have hexpected : g.info.key.apply (Contribution.change t ⟨proof, key⟩) = g'.info.key := by
      rw [hg', Snapshot.seated]
    simp only [Engine.derive, hpending, hgroup, hslot, hexpected, ne_eq, not_true_eq_false, or_self,
      if_false]
    exact ⟨_, _, rfl, rfl, rfl⟩
  · rw [hg']
    exact Nat.mod_eq_of_lt hcount
  · intro slot'
    rw [hg', Snapshot.isOccupied, Snapshot.seated, Bitmap.isOccupied_occupy, ← hslot]
    refine or_congr_left ⟨fun h => h.1.symm, ?_⟩
    rintro rfl
    exact ⟨rfl, hreach⟩

/-! ## Rounds -/

/-- **A coordinator is never stuck.** Let the parameters come from a successful setup, and let a new
coordinator take any steps: frames of any bytes, timers, and any directory and clock at each. Then
its next heartbeat is sent. It tells of the current group, which is not expired and has a next slot.
Any unset member that answers it, before the group expires, is handed this slot. And if an honest
engine makes a proof for it, on a directory of which the coordinator sees all, the join is
acknowledged: the engine completes it and has the key of the group, which counts one more member and
has this slot occupied beside those before. -/
theorem next_round [S.BilinearPairing] {level : UInt32} {maxGroupSize sizeStep : Nat} {r r' : σ}
    (hsetup : Parameters.setup level maxGroupSize sizeStep r =
      (.ok (ctx.parameters, secrets), r'))
    {pid : UInt32} {held : SlotSecrets S} {generator : ρ}
    (hnew : Coordinator.new ctx pid held generator = .ok c) (events : List (Stimulus S))
    {beat : Stimulus S} (hbeat : beat.input = .timer .heartbeat) :
    ∃ hb c₁ g slot, (c.run ctx events).react ctx beat = (.ok [.heartbeat hb], c₁) ∧
      c₁.currentGroup? = some g ∧ g.info ∈ hb.groups ∧ g.info.isExpired beat.now = false ∧
      g.IsNextSlot slot ∧
      ∀ (joiner : UInt32) (answer : Stimulus S),
        answer.Carries ctx (.heartbeatAck ⟨.unset, joiner, hb.seq⟩) →
        g.info.isExpired answer.now = false →
        ∃ c₂, c₁.react ctx answer = (.ok [.notifyPosition ⟨g.info.id, slot, joiner⟩], c₂) ∧
          ∀ {d : Directory S} {engine : Engine S} (s : τ) {proof : JoinProof S} (e : Stimulus S),
            engine.Reachable ctx.parameters d →
            (engine.prove ctx.parameters g.info.id g.info.key g.info.tier slot ⟨d, s⟩).result =
              .ok proof →
            e.Carries ctx (.join ⟨joiner, proof⟩) →
            e.directory.Extends (engine.prove ctx.parameters g.info.id g.info.key g.info.tier slot
              ⟨d, s⟩).resources.directory →
            ∃ ack g' c₃, c₂.react ctx e = (.ok [.joinAck ack], c₃) ∧
              c₃.groups[g.info.id]? = some g' ∧
              Welcomed (engine.prove ctx.parameters g.info.id g.info.key g.info.tier slot
                ⟨d, s⟩).engine slot ack g.info g'.info := by
  have hp := Parameters.isSetup_of_setup hsetup
  have hc := (state_new hnew).1.run hp.hasNumberedSlots events
  obtain ⟨hb, c₁, g, hopens, hround⟩ := heartbeat_opens hp hc.tier beat.now
  have hreact : (c.run ctx events).react ctx beat = (.ok [.heartbeat hb], c₁) := by
    rw [react, hbeat]
    exact hopens
  have hc₁ := hc.of_react hp.hasNumberedSlots hreact
  obtain ⟨id, -, hheld⟩ := Option.bind_eq_some_iff.1 hround.current
  have hgroup := hc₁.group id g hheld
  obtain rfl := hgroup.id
  obtain ⟨slot, hslot, hnext⟩ := exists_isNextSlot hgroup hp.hasNumberedSlots hround.room
  refine ⟨hb, c₁, g, slot, hreact, hround.current, hround.told, hround.live, hnext, ?_⟩
  intro joiner answer hanswer hlive
  obtain ⟨c₂, hreact₁, hassigned, hgroups⟩ := react_of_open hround hslot hanswer hlive
  have hc₂ := hc₁.of_react hp.hasNumberedSlots hreact₁
  refine ⟨c₂, hreact₁, fun s proof e hengine hok he hext => ?_⟩
  obtain ⟨ack, g', c₃, hack, -, -, hheld', hwelcome⟩ := handleJoin_of_proves hp hc₂ hassigned
    (hgroups ▸ hheld) hnext.free hengine.honest hok hext e.now
  exact ⟨ack, g', c₃, (react_of_carries he).trans hack, hheld', hwelcome⟩

theorem carries_encode [S.FaithfulPoints] {e : Stimulus S} {m : Message S}
    (h : m.IsWellFormed (.all S) ctx.parameters) (hinput : e.input = .frame m.encode) :
    e.Carries ctx m :=
  ⟨_, hinput, Context.decode?_eq_some.2 (by
    rw [Message.decode_encode h.shape, if_pos h.length_payload])⟩

/-- A proof that fits its tier is carried by the frame of its join, if that can tell its length. -/
theorem carries_join [S.FaithfulPoints] {e : Stimulus S} {proof : JoinProof S} {scale : Nat}
    (hscale : ctx.parameters.scale proof.tier = .ok scale) (hfits : proof.Fits scale)
    (hgroup : proof.group.IsWellFormed) (hsize : 50 * scale + 80 < UInt32.size) {pid : UInt32}
    (hinput : e.input = .frame (Message.encode (.join ⟨pid, proof⟩))) :
    e.Carries ctx (.join ⟨pid, proof⟩) :=
  ⟨_, hinput, Context.decode?_eq_some.2
    ((JoinProof.decode_join hscale hfits hgroup pid).trans (if_pos hsize))⟩

/-- The heartbeat after a slot was handed to member 1, which has not joined. -/
def sampleBeat : Stimulus .sample := ⟨.empty, ⟨3000⟩, .timer .heartbeat⟩

/-- In the round that it opens, member 2 joins. -/
theorem next_round_after_lost_join :
    ∃ (hb : Heartbeat .sample) (c₁ c₂ c₃ : Coordinator .sample Counter)
      (g : ManagedGroup .sample) (directory : Directory .sample) (proof : JoinProof .sample)
      (ack : JoinAck .sample),
      (sampleNew.run sampleContext sampleOpening).react sampleContext sampleBeat =
        (.ok [.heartbeat hb], c₁) ∧
      c₁.react sampleContext ⟨.empty, ⟨3000⟩,
        .frame (Message.encode (S := .sample) (.heartbeatAck ⟨.unset, 2, hb.seq⟩))⟩ =
          (.ok [.notifyPosition ⟨g.info.id, 0, 2⟩], c₂) ∧
      c₂.react sampleContext ⟨directory, ⟨4000⟩, .frame (Message.encode (.join ⟨2, proof⟩))⟩ =
        (.ok [.joinAck ack], c₃) := by
  have hnew : Coordinator.new sampleContext 0 sampleSetup.2 (Counter.mk 5) = .ok sampleNew :=
    eq_ok_of_toOption (by decide +kernel)
  obtain ⟨hb, c₁, g, slot, hbeat, hcurrent, -, hlive, hnext, hround⟩ :=
    next_round (τ := Counter) setup_sample hnew sampleOpening
      (rfl : sampleBeat.input = .timer .heartbeat)
  have hgroup : (((sampleNew.run sampleContext sampleOpening).react sampleContext
      sampleBeat).2.currentGroup?.any fun g => decide (g.info.id.IsWellFormed ∧
        g.info.tier = 0 ∧ g.info.isOccupied 0 = false)) = true := by
    decide +kernel
  rw [hbeat, hcurrent] at hgroup
  obtain ⟨htag, htier, hfree⟩ := of_decide_eq_true hgroup
  obtain rfl : slot = 0 := by
    by_contra hne
    have hocc := hnext.least 0 (UInt32.pos_iff_ne_zero.2 hne)
    rw [hfree] at hocc
    cases hocc
  obtain ⟨c₂, hnotify, hjoin⟩ := hround 2 ⟨.empty, ⟨3000⟩,
    .frame (Message.encode (S := .sample) (.heartbeatAck ⟨.unset, 2, hb.seq⟩))⟩
      (carries_encode ⟨trivial, by simp [Message.payload, UInt32.size]⟩ rfl) hlive
  have hscale : sampleSetup.1.scale g.info.tier = .ok 2 := by
    rw [htier]
    exact (eq_ok_of_toOption (by decide +kernel)).trans (congrArg Except.ok (by decide +kernel))
  have hkey := eq_ok_of_toOption
    (e := (Engine.empty.unusedKey (⟨.empty, Counter.mk 9⟩ : Resources .sample Counter)).1)
    (by decide +kernel)
  obtain ⟨proof, hok⟩ := Engine.exists_prove hscale (show (0 : UInt32).toNat < 2 by decide) hkey
    g.info.id g.info.key
  have hengine : Engine.empty.Reachable sampleSetup.1 .empty := .empty .empty
  obtain ⟨t, _, _, ht, hmade, htier', -⟩ :=
    Engine.prove_ok (Parameters.isSetup_of_setup setup_sample) hengine.honest hok
  obtain ⟨hgroup, -, -⟩ := Engine.prove_names hok
  have htwo : t.scale = 2 := Except.ok.inj ((Parameters.scale_of_tier ht).symm.trans hscale)
  have hframe : ∀ directory, Stimulus.Carries sampleContext
      ⟨directory, ⟨4000⟩, .frame (Message.encode (.join ⟨2, proof⟩))⟩ (.join ⟨2, proof⟩) := fun _ =>
    carries_join (htier'.symm ▸ hscale) (htwo ▸ hmade.fits) (hgroup.symm ▸ htag) (by decide) rfl
  obtain ⟨ack, -, c₃, hwelcome, -⟩ := hjoin _ ⟨_, ⟨4000⟩, _⟩ hengine hok (hframe _) (.refl _)
  exact ⟨hb, c₁, c₂, c₃, g, _, proof, ack, hbeat, hnotify, hwelcome⟩

end Coordinator

end GroupKey
