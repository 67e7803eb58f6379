import GroupKey.Proofs.Node.Progress

/-!
# No input is fatal to a coordinator

A step that fails reports it, and what it changed before the failure stays changed. A join has five
ways to fail, two of them after the key of its group was replaced, and a heartbeat fails if it
cannot found a group. None of them can be reached, whatever the frames say: the group of a slot that
was handed out is still held, the check of a proof leaves no entry missing and none too many, and
the coordinator founds groups of a tier that the parameters have.

* `ManagedGroup.IsSeated` — what a join does to its group when nothing of it is left out.
* `IsConsistent.seat_of_check` — a checked join for a free slot is carried through.
* `Settles` — a join is declined or carried through.
* `Handles.answers`, `Ticks.answers`, `react_answers` — each step answers.
* `no_input_is_fatal` — the same for all runs.
-/

namespace GroupKey

variable {S : Suite} {ρ σ : Type}

/-! ## Groups -/

namespace ManagedGroup

/-- The group `g'` is `g` with the joiner of `made` in its slot. Key, shares, bitmap and count all
tell of it. -/
structure IsSeated (t : SizeTier S) (made : Contribution S) (g g' : ManagedGroup S) : Prop where
  info : g'.info = g.info.seated made.proof.slot (g.info.key.apply (made.change t))
  memberCount : g'.info.memberCount.toNat = g.info.memberCount.toNat + 1
  scale : g'.scale = g.scale
  /-- Each entry of the proof took the place of that of the pseudo member. -/
  share : ∀ j : Nat, g'.shares[j]? = (g.shares[j]?).map fun share =>
    ((made.proof.entry? j).map fun z => share + z - t.entry made.proof.slot.toNat j).getD share

variable [Generator ρ] {p : Parameters S} {secrets : SlotSecrets S} {id : GroupId}
  {g : ManagedGroup S}

/-- **A checked join for a free slot is carried through.** -/
theorem IsConsistent.seat_of_check (h : g.IsConsistent p id) (hp : p.IsSetup secrets)
    {directory : Directory S} {proof : JoinProof S} {r : ρ} (htier : g.info.tier = proof.tier)
    (hfree : g.info.isOccupied proof.slot = false) (hvalid : (proof.check p directory r).1 = true) :
    ∃ t key share g', p.tier proof.tier = .ok t ∧ directory.get? proof.keyId = some key ∧
      g.seat p directory proof = (.ok share, g') ∧ IsSeated t ⟨proof, key⟩ g g' ∧
      g'.shares[proof.slot.toNat]? = some share := by
  obtain ⟨t, ht, hscale⟩ := Parameters.scale_eq_ok.1 (htier ▸ h.scale)
  obtain ⟨key, hfits, hkey⟩ := JoinProof.fits_of_tier ht hvalid
  have hcount := h.count_lt hp.hasNumberedSlots (hscale ▸ hfits.slot_lt) hfree
  obtain ⟨share, shares, hseat, -, hshare, hshares⟩ := seat_of_fits (hp.isShaped ht) ht hfits hkey
    (h.length_shares.trans hscale.symm) hcount
  refine ⟨t, key, share, _, ht, hkey, hseat, ⟨rfl, Nat.mod_eq_of_lt hcount, rfl, fun j => ?_⟩,
    hshare⟩
  rw [hshares j]
  refine congrArg (Option.map · _) (funext fun share => ?_)
  rw [replaced, if_pos (Nat.zero_le j), Nat.sub_zero, JoinProof.entry?]

end ManagedGroup

namespace Coordinator

variable {ctx : Context S} {secrets : SlotSecrets S} {c : Coordinator S ρ} {directory : Directory S}
  {now : Timestamp} {join : Join S} {m : Message S} {g : ManagedGroup S}
  {r : Except NodeError (List (Message S)) × Coordinator S ρ}

/-! ## Timers -/

/-- A timer is answered: there is a tier to found a group of. -/
theorem Ticks.answers {timer : Timer} (h : Ticks ctx now c timer r)
    (hp : ctx.parameters.IsSetup secrets) (hc : c.IsConsistent ctx) :
    ∃ ms c', r = (.ok ms, c') := by
  cases h with
  | stalled filled fails =>
    obtain ⟨g, hboot, -⟩ := bootstrap_of_scale hp hc.tier c.nextGroupSeq now
    simp [hboot] at fails
  | _ => exact ⟨_, _, rfl⟩

/-! ## Joins -/

/-- What becomes of a join: it is declined and no group changes, or it is carried through and
acknowledged with the share of its slot and the new key, and no other group changes. -/
inductive Settles (ctx : Context S) (directory : Directory S) (join : Join S)
    (c : Coordinator S ρ) : List (Message S) → Coordinator S ρ → Prop
  | declined {c' : Coordinator S ρ} (groups : c'.groups = c.groups) :
      Settles ctx directory join c [] c'
  | seated {t : SizeTier S} {key : PublicKey S} {g g' : ManagedGroup S} {share : S.G1}
      {c' : Coordinator S ρ} (tier : ctx.parameters.tier join.proof.tier = .ok t)
      (published : directory.get? join.proof.keyId = some key)
      (held : c.groups[join.proof.group]? = some g)
      (seated : g.IsSeated t ⟨join.proof, key⟩ g')
      (own : g'.shares[join.proof.slot.toNat]? = some share)
      (groups : c'.groups = c.groups.insert join.proof.group g') :
      Settles ctx directory join c [.joinAck ⟨join.proof.group, join.proof.slot, join.proof.keyId,
        share, g'.info.key⟩] c'

variable [Generator ρ] [Generator σ]

/-- A join that is let in is carried through: the proof fits its tier, so nothing fails once the key
of the group is replaced. -/
theorem Admits.seat (h : Admits ctx directory join c g) (hp : ctx.parameters.IsSetup secrets)
    (hc : c.IsConsistent ctx) :
    ∃ t key share g', ctx.parameters.tier join.proof.tier = .ok t ∧
      directory.get? join.proof.keyId = some key ∧
      g.seat ctx.parameters directory join.proof = (.ok share, g') ∧
      g.IsSeated t ⟨join.proof, key⟩ g' ∧ g'.shares[join.proof.slot.toNat]? = some share :=
  (hc.group _ g h.held).seat_of_check hp h.tier h.free h.valid

/-! ## Messages -/

theorem Handles.answers (h : Handles ctx directory now c m r) (hp : ctx.parameters.IsSetup secrets)
    (hc : c.IsConsistent ctx) :
    ∃ ms c', r = (.ok ms, c') ∧ ∀ join, m = .join join → Settles ctx directory join c ms c' := by
  cases h with
  | noted | placed | answered | proposed => exact ⟨_, _, rfl, nofun⟩
  | dropped => exact ⟨_, _, rfl, fun _ _ => .declined rfl⟩
  | early | refuted => exact ⟨_, _, rfl, fun _ _ => .declined rfl⟩
  | lost assigned gone =>
    -- The group of a slot that was handed out is still held.
    obtain ⟨-, g, hheld, -⟩ := hc.assigned _ assigned
    simp [hheld] at gone
  | unseated admits seat =>
    obtain ⟨t, key, share, g', -, -, hseat, -⟩ := admits.seat hp hc
    simp [hseat] at seat
  | seated admits seat =>
    obtain ⟨t, key, share, g', ht, hkey, hseat, hseated, hshare⟩ := admits.seat hp hc
    obtain ⟨hok, rfl⟩ := Prod.mk.inj (seat.symm.trans hseat)
    obtain rfl := Except.ok.inj hok
    refine ⟨_, _, rfl, fun join' hjoin => ?_⟩
    obtain rfl := Message.join.inj hjoin
    exact .seated ht hkey admits.held hseated hshare rfl

/-! ## Steps -/

/-- **Each step answers**, and settles the join that it was given. -/
theorem react_answers (hp : ctx.parameters.IsSetup secrets) (hc : c.IsConsistent ctx)
    (e : Stimulus S) :
    ∃ ms c', c.react ctx e = (.ok ms, c') ∧
      ∀ join, e.Carries ctx (.join join) → Settles ctx e.directory join c ms c' := by
  have hreacts := reacts_react ctx e c
  generalize c.react ctx e = r at hreacts
  cases hreacts with
  | unread unread => exact ⟨_, _, rfl, fun join hjoin => absurd hjoin (unread _)⟩
  | handled arrived handles =>
    obtain ⟨ms, c', hanswer, hsettles⟩ := handles.answers hp hc
    exact ⟨ms, c', hanswer, fun join hjoin => hsettles join (arrived.unique hjoin)⟩
  | ticked fired ticks =>
    obtain ⟨ms, c', hanswer⟩ := ticks.answers hp hc
    exact ⟨ms, c', hanswer, fun join hjoin => absurd fired (hjoin.not_timer _)⟩

/-! ## Runs -/

/-- **No input is fatal.** Let the parameters come from a successful setup, and let a new
coordinator take any steps: frames of any bytes, timers, and any directory and clock at each. Then
the next step, whatever it is, answers. If it is given a join, it declines it with the groups as
they are, or carries it through. And no group has more members than slots. -/
theorem no_input_is_fatal {level : UInt32} {maxGroupSize sizeStep : Nat} {r r' : σ}
    (hsetup : Parameters.setup level maxGroupSize sizeStep r =
      (.ok (ctx.parameters, secrets), r'))
    {pid : UInt32} {generator : ρ} (hnew : Coordinator.new ctx pid secrets generator = .ok c)
    (events : List (Stimulus S)) (e : Stimulus S) :
    ∃ ms c', (c.run ctx events).react ctx e = (.ok ms, c') ∧
      (∀ join, e.Carries ctx (.join join) →
        Settles ctx e.directory join (c.run ctx events) ms c') ∧
      ∀ (id : GroupId) (g : ManagedGroup S), c'.groups[id]? = some g →
        g.info.memberCount.toNat ≤ g.scale := by
  have hp := Parameters.isSetup_of_setup hsetup
  have hc := (state_new hnew).1.run hp.hasNumberedSlots events
  obtain ⟨ms, c', hanswer, hsettles⟩ := react_answers hp hc e
  have hc' := hc.of_react hp.hasNumberedSlots hanswer
  exact ⟨ms, c', hanswer, hsettles, fun id g hg => (hc'.group id g hg).memberCount_le⟩

/-- The join for the first slot is carried through, and its group counts one member of two. -/
theorem no_input_is_fatal_one_join :
    ∃ e join ack c' g, (sampleJoin?.bind (·[2]?)) = some e ∧
      e.Carries sampleContext (.join join) ∧
      (sampleNew.run sampleContext sampleOpening).react sampleContext e = (.ok [.joinAck ack], c') ∧
      Settles sampleContext e.directory join (sampleNew.run sampleContext sampleOpening)
        [.joinAck ack] c' ∧
      c'.groups[sampleGroup]? = some g ∧ g.info.memberCount = 1 ∧
      g.info.memberCount.toNat ≤ g.scale := by
  have hrun : ((sampleJoin?.bind (·[2]?)).any fun e =>
      let r := (sampleNew.run sampleContext sampleOpening).react sampleContext e
      decide ((emitted r.1).map Message.kind = [.joinAck]) &&
        r.2.groups[sampleGroup]?.any fun g => decide (g.info.memberCount = 1)) = true := by
    decide +kernel
  obtain ⟨e, he, hrun⟩ := (Option.any_eq_true _ _).1 hrun
  have hnew : Coordinator.new sampleContext 0 sampleSetup.2 (Counter.mk 5) = .ok sampleNew :=
    eq_ok_of_toOption (by decide +kernel)
  obtain ⟨ms, c', hanswer, hsettles, hfits⟩ :=
    no_input_is_fatal setup_sample hnew sampleOpening e
  have hemits := emits_react sampleContext e (sampleNew.run sampleContext sampleOpening)
  simp only [hanswer, emitted, Bool.and_eq_true, decide_eq_true_eq] at hrun hemits
  obtain ⟨hkinds, hgroup⟩ := hrun
  obtain ⟨g, hg, hcount⟩ := (Option.any_eq_true _ _).1 hgroup
  cases hemits with
  | joinAck join ack arrived =>
    exact ⟨e, join, ack, c', g, he, arrived, hanswer, hsettles join arrived, hg,
      of_decide_eq_true hcount, hfits _ g hg⟩
  | _ => simp [Message.kind] at hkinds

end Coordinator

end GroupKey
