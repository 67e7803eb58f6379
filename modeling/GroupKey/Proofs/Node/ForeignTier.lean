import GroupKey.Proofs.Node.Emission
import GroupKey.Proofs.Node.MemberState

/-!
# Joins that name another tier

A join names a group and, beside it, a tier. The coordinator compares the tier with that of the
group and declines a join of another one. A member does not compare them: it has the proof checked
against the tier that the proof itself names, and needs an entry of it for its own slot. So of the
joins for its group it follows all that hold for a tier which has its slot. If this tier is not that
of the group, the member has a key then that the group does not have.

* `Coordinator.handleJoin_other_tier` — what a coordinator does with a join of another tier.
* `Member.Passes` — all that a member asks of a join.
* `Member.Folds` — what becomes of a member that follows it.
* `Member.react_join_exact` — it follows just the joins that pass.
* `Member.other_tier_join` — coordinators and members, after any steps of the member.
* `Member.leaves_group_key` — a member that follows a join of another tier.
-/

namespace GroupKey

variable {S : Suite} {ρ σ : Type} [Generator ρ] [Generator σ]

namespace Coordinator

/-- **A join of another tier than its group's is declined**, before its proof is looked at. -/
theorem handleJoin_other_tier (ctx : Context S) (directory : Directory S) (now : Timestamp)
    {join : Join S} {c : Coordinator S ρ} {g : ManagedGroup S}
    (hg : c.groups[join.proof.group]? = some g) (htier : join.proof.tier ≠ g.info.tier) :
    c.handleJoin ctx directory now join = (.ok [], c) := by
  have hhandles := handles_handleJoin ctx directory now join c
  have hother {g' : ManagedGroup S} (hheld : c.groups[join.proof.group]? = some g') :
      g'.info.tier ≠ join.proof.tier := by
    obtain rfl := Option.some.inj (hg.symm.trans hheld)
    exact Ne.symm htier
  generalize c.handleJoin ctx directory now join = r at hhandles
  cases hhandles with
  | dropped | early => rfl
  | lost assigned gone => simp [hg] at gone
  | refuted assigned held tier => exact absurd tier (hother held)
  | unseated admits | seated admits => exact absurd admits.tier (hother admits.held)

end Coordinator

namespace Member

variable {ctx : Context S} {secrets : SlotSecrets S} {directory : Directory S} {join : Join S}
  {m : Member S ρ} {s : Membership S} {g : Snapshot S} {t : SizeTier S}

/-- All that a member with the key pair `s` for a group known as `g` asks of a join: it is that of
another node, for a slot of the group that is free as far as the member knows, its proof holds for
the tier `t` that it names, and this tier has the member's slot. -/
structure Passes (ctx : Context S) (directory : Directory S) (join : Join S) (m : Member S ρ)
    (s : Membership S) (g : Snapshot S) (t : SizeTier S) : Prop where
  other : join.pid ≠ m.pid
  own : join.proof.group = s.group
  free : g.isOccupied join.proof.slot = false
  tier : ctx.parameters.tier join.proof.tier = .ok t
  valid : (join.proof.check ctx.parameters directory m.generator).1 = true
  reaches : s.slot.toNat < t.scale

/-- The key pair that follows a join of tier `t`. -/
def patched (t : SizeTier S) (made : Contribution S) (s : Membership S) : Membership S :=
  { s with
    key := s.key.apply (made.change t)
    decryptionKey := s.decryptionKey + made.entry s.slot.toNat -
      t.entry made.proof.slot.toNat s.slot.toNat }

theorem Passes.absorb_eq_ok (h : Passes ctx directory join m s g t)
    (hp : ctx.parameters.IsSetup secrets) (hs : m.engine.membership = some s)
    (hocc : g.isOccupied s.slot = true) :
    ∃ key, directory.get? join.proof.keyId = some key ∧
      m.engine.absorb ctx.parameters directory join.proof =
        (.ok (), { m.engine with membership := some (patched t ⟨join.proof, key⟩ s) }) := by
  obtain ⟨key, hfits, hkey⟩ := JoinProof.fits_of_tier h.tier h.valid
  -- The member's own slot is taken, so it is not the one that is joined.
  have hne : s.slot ≠ join.proof.slot := by
    intro heq
    have hfree := h.free
    rw [← heq, hocc] at hfree
    simp at hfree
  refine ⟨key, hkey, ?_⟩
  simp only [Engine.absorb, hs,
    Engine.absorbed_eq_ok (hp.isShaped h.tier) h.tier hfits hkey h.reaches hne]
  rfl

theorem Follows.passes {engine : Engine S} (h : Follows ctx directory join m g engine)
    (hs : m.engine.membership = some s) (hgroup : join.proof.group = s.group) :
    ∃ t, Passes ctx directory join m s g t := by
  obtain ⟨t, key, ht, hfits, -⟩ := JoinProof.fits_of_check h.valid
  refine ⟨t, h.other, hgroup, h.free, ht, h.valid, ?_⟩
  have habsorb := h.absorb
  simp only [Engine.absorb, hs] at habsorb
  split at habsorb
  · next s' habsorbed =>
    obtain ⟨-, mine, -, -, -, hmine, -⟩ := Engine.absorbed_cases habsorbed
    exact hfits.lt_of_entry? hmine
  · simp at habsorb

/-- What becomes of a member that folds in a join: it has another key pair, and the slot is counted
under the new key and is no longer a gap, unless the count is at its limit. -/
structure Folds (t : SizeTier S) (made : Contribution S) (s : Membership S) (g : Snapshot S)
    (m : Member S ρ) (r : Except NodeError (List (Message S)) × Member S ρ) : Prop where
  membership : r.2.engine.membership = some (patched t made s)
  answer : r.1 = if g.memberCount.toNat + 1 < UInt32.size then .ok []
    else .error .memberCountOverflow
  groups : r.1 = .ok [] → r.2.groups = m.groups.insert s.group { g with
    slots := g.slots.occupy made.proof.slot
    memberCount := g.memberCount + 1
    key := (patched t made s).key }
  gaps : r.1 = .ok [] → r.2.gaps = m.gaps.erase made.proof.slot

theorem react_of_carries {e : Coordinator.Stimulus S} {msg : Message S} (h : e.Carries ctx msg) :
    m.react ctx e = ((m.handle ctx e.now msg e.directory).1,
      (m.handle ctx e.now msg e.directory).2.1) := by
  obtain ⟨frame, hin, hread⟩ := h
  simp only [react, hin, receive, hread]

/-- **What a member does with a join**, whatever the tier of its group: it folds it in if it passes,
and is as before if it does not. -/
theorem react_join_exact (hp : ctx.parameters.IsSetup secrets) (hm : m.IsConsistent ctx)
    (hjoined : m.phase = .joined) (hs : m.engine.membership = some s)
    (hg : m.groups[s.group]? = some g) {e : Coordinator.Stimulus S}
    (he : e.Carries ctx (.join join)) :
    ((¬∃ t, Passes ctx e.directory join m s g t) ∧
      ∃ generator, m.react ctx e = (.ok [], { m with generator })) ∨
    ∃ t key, Passes ctx e.directory join m s g t ∧
      e.directory.get? join.proof.keyId = some key ∧
      Folds t ⟨join.proof, key⟩ s g m (m.react ctx e) := by
  have hown : m.joinedGroup? = some s.group := joinedGroup?_eq_some.2 ⟨hjoined, s, hs, rfl⟩
  obtain ⟨s', g', hs', -, hg', -, hocc⟩ := hm.getElem?_own hown
  obtain rfl : s = s' := Option.some.inj (hs.symm.trans hs')
  obtain rfl : g = g' := Option.some.inj (hg.symm.trans hg')
  rw [react_of_carries he]
  simp only [handle]
  rcases handleJoin_cases ctx e.directory join m with
    ⟨hpassed, generator, hsame⟩ | ⟨g', engine, generator, result, m', hf, hfill, hjoin⟩
  · refine .inl ⟨fun ⟨t, h⟩ => hpassed ?_, generator, by rw [hsame]; rfl⟩
    obtain ⟨key, -, habsorb⟩ := h.absorb_eq_ok hp hs hocc
    exact ⟨g, _, h.other, h.own ▸ hown, h.own ▸ hg, h.free, h.valid, habsorb⟩
  · have hgroup : join.proof.group = s.group := Option.some.inj (hf.own.symm.trans hown)
    obtain rfl : g = g' := Option.some.inj (hg.symm.trans (hgroup ▸ hf.known))
    obtain ⟨t, hpasses⟩ := hf.passes hs hgroup
    obtain ⟨key, hkey, habsorb⟩ := hpasses.absorb_eq_ok hp hs hocc
    obtain rfl := (Prod.mk.inj (hf.absorb.symm.trans habsorb)).2
    refine .inr ⟨t, key, hpasses, hkey, ?_⟩
    simp only [Option.map_some, Option.getD_some] at hfill
    generalize hm₁ : ({ m with
      engine := { m.engine with membership := some (patched t ⟨join.proof, key⟩ s) }
      generator } : Member S ρ) = m₁ at hfill
    have hgroups : m₁.groups = m.groups := by rw [← hm₁]
    have hgaps : m₁.gaps = m.gaps := by rw [← hm₁]
    have hmembership : m₁.engine.membership = some (patched t ⟨join.proof, key⟩ s) := by rw [← hm₁]
    have hknown := hgroups ▸ hf.known
    rw [hjoin]
    by_cases hcount : g.memberCount.toNat + 1 < UInt32.size
    · rw [fillSlot_of_some hknown _ _ hcount] at hfill
      obtain ⟨rfl, rfl⟩ := Prod.mk.inj hfill
      refine ⟨hmembership, (if_pos hcount).symm, fun _ => ?_, fun _ => by rw [← hgaps]⟩
      rw [← hgroup, ← hgroups]
    · rw [fillSlot_of_limit hknown _ _ hcount] at hfill
      obtain ⟨rfl, rfl⟩ := Prod.mk.inj hfill
      exact ⟨hmembership, (if_neg hcount).symm, nofun, nofun⟩

/-- **What becomes of a join that names another tier.** Let a new member, with parameters from a
successful setup, take any steps that make no count overflow, and be joined after them. A join that
names another tier than the member's group has is declined by every coordinator that holds its group
under this tier. The member folds it in if it passes, and then has another key pair and counts
another slot; otherwise key pair, groups and gaps stay as they are. -/
theorem other_tier_join {level : UInt32} {maxGroupSize sizeStep : Nat} {r r' : σ}
    (hsetup : Parameters.setup level maxGroupSize sizeStep r = (.ok (ctx.parameters, secrets), r'))
    {pid : UInt32} {generator : ρ} {directory directory' : Directory S}
    (hnew : Member.new pid generator directory = (.ok m, directory'))
    (events : List (Coordinator.Stimulus S)) (hok : m.Survives ctx events)
    (hjoined : (m.run ctx events).phase = .joined) :
    ∃ s g, (m.run ctx events).engine.membership = some s ∧
      (m.run ctx events).groups[s.group]? = some g ∧
      ∀ (e : Coordinator.Stimulus S) (join : Join S), e.Carries ctx (.join join) →
        join.proof.tier ≠ g.tier →
        (∀ (c : Coordinator S ρ) (held : ManagedGroup S),
          c.groups[join.proof.group]? = some held → held.info.tier = g.tier →
          c.react ctx e = (.ok [], c)) ∧
        (((¬∃ t, Passes ctx e.directory join (m.run ctx events) s g t) ∧
          ∃ generator, (m.run ctx events).react ctx e =
            (.ok [], { m.run ctx events with generator })) ∨
        ∃ t key, Passes ctx e.directory join (m.run ctx events) s g t ∧
          e.directory.get? join.proof.keyId = some key ∧
          Folds t ⟨join.proof, key⟩ s g (m.run ctx events) ((m.run ctx events).react ctx e)) := by
  have hp := Parameters.isSetup_of_setup hsetup
  have hm := places_agree_of_run hp.hasNumberedSlots hnew events hok
  obtain ⟨s, g, hs, hg, -⟩ := hm.joined hjoined
  refine ⟨s, g, hs, hg, fun e join he htier => ⟨fun c held hheld hsame => ?_, ?_⟩⟩
  · rw [Coordinator.react_of_carries he]
    exact Coordinator.handleJoin_other_tier ctx e.directory e.now hheld (hsame ▸ htier)
  · exact react_join_exact hp hm hjoined hs hg he

/-! ### A join of the smaller tier for a group of the larger one -/

/-- Parameters for groups of two and of four, as a counting generator draws them, and their
unpublished entries. -/
def sampleTiers : Parameters .sample × SlotSecrets .sample :=
  ((Parameters.setup 80 4 2 (Counter.mk 1)).1.toOption).get (by decide +kernel)

/-- The standard tunables, for groups of four. -/
def sampleWide : Context .sample :=
  ⟨sampleTiers.1, { Config.standard with maxGroupSize := 4, sizeStep := 2, groupSize := 4 }⟩

/-- The join in the frame that arrives, if it is one. -/
def joinOf? (ctx : Context S) (e : Coordinator.Stimulus S) : Option (Join S) :=
  match e.input with
  | .timer _ => none
  | .frame frame =>
    match ctx.decode? frame with
    | some (.join join) => some join
    | _ => none

theorem carries_of_joinOf? {e : Coordinator.Stimulus S} (h : joinOf? ctx e = some join) :
    e.Carries ctx (.join join) := by
  unfold joinOf? at h
  split at h
  · simp at h
  · next frame hin =>
    split at h
    · next hread =>
      obtain rfl := Option.some.inj h
      exact ⟨frame, hin, hread⟩
    · simp at h

/-- A member hears of a group of four, is handed its first slot and gets a share for it. Then
another node joins the second slot, with a proof for groups of two. -/
def sampleForeign? :
    Option (List (Coordinator.Stimulus .sample) × Coordinator.Stimulus .sample) := do
  let directory := (Member.new (S := .sample) 1 (Counter.mk 100) .empty).2
  let coordinator ← (Coordinator.new sampleWide 0 sampleTiers.2 (Counter.mk 5)).toOption
  let told ← (coordinator.react sampleWide ⟨directory, ⟨1000⟩, .timer .heartbeat⟩).1.toOption
  let heartbeat ← told.head?
  let group := GroupId.new 0 1 ⟨60001000⟩
  let assignment : Message .sample := .notifyPosition ⟨group, 0, 1⟩
  let opening : List (Coordinator.Stimulus .sample) :=
    [⟨directory, ⟨1000⟩, .frame heartbeat.encode⟩, ⟨directory, ⟨2000⟩, .frame assignment.encode⟩]
  let pending ← (sampleMember.run sampleWide opening).engine.pending
  let ack : Message .sample := .joinAck ⟨group, 0, 7, Suite.sample.base1, pending.key⟩
  let proving := Engine.empty.prove sampleTiers.1 group pending.key 0 1 ⟨directory, Counter.mk 300⟩
  let proof ← proving.result.toOption
  let join : Message .sample := .join ⟨2, proof⟩
  return (opening ++ [⟨directory, ⟨3000⟩, .frame ack.encode⟩],
    ⟨proving.resources.directory, ⟨4000⟩, .frame join.encode⟩)

/-- The member is joined before, and has another encryption key after. -/
theorem key_changed_of_sample : ∃ events e join s g, sampleForeign? = some (events, e) ∧
    sampleMember.Survives sampleWide events ∧
    (sampleMember.run sampleWide events).phase = .joined ∧
    (sampleMember.run sampleWide events).engine.membership = some s ∧
    (sampleMember.run sampleWide events).groups[s.group]? = some g ∧
    e.Carries sampleWide (.join join) ∧ join.proof.tier ≠ g.tier ∧
    ((sampleMember.run sampleWide events).react sampleWide e).2.engine.membership.map (·.key) ≠
      some s.key := by
  have hrun : (sampleForeign?.any fun x =>
      let m := sampleMember.run sampleWide x.1
      decide (sampleMember.Survives sampleWide x.1) && decide (m.phase = .joined) &&
        (joinOf? sampleWide x.2).any fun join => m.engine.membership.any fun s =>
          (m.groups[s.group]?).any (fun g => decide (join.proof.tier ≠ g.tier)) &&
            decide ((m.react sampleWide x.2).2.engine.membership.map (·.key) ≠ some s.key)) =
      true := by
    decide +kernel
  obtain ⟨⟨events, e⟩, hevents, hrun⟩ := (Option.any_eq_true _ _).1 hrun
  simp only [Bool.and_eq_true, Option.any_eq_true, decide_eq_true_eq] at hrun
  obtain ⟨⟨hok, hjoined⟩, join, hjoin, s, hs, ⟨g, hg, htier⟩, hkey⟩ := hrun
  exact ⟨events, e, join, s, g, hevents, hok, hjoined, hs, hg, carries_of_joinOf? hjoin, htier,
    hkey⟩

/-- The member folds in a join that every coordinator declines. -/
theorem other_tier_join_smaller : ∃ events e join s g t key,
    sampleForeign? = some (events, e) ∧ e.Carries sampleWide (.join join) ∧
    join.proof.tier ≠ g.tier ∧
    Passes sampleWide e.directory join (sampleMember.run sampleWide events) s g t ∧
    Folds t ⟨join.proof, key⟩ s g (sampleMember.run sampleWide events)
      ((sampleMember.run sampleWide events).react sampleWide e) ∧
    ∀ (c : Coordinator .sample Counter) (held : ManagedGroup .sample),
      c.groups[join.proof.group]? = some held → held.info.tier = g.tier →
      c.react sampleWide e = (.ok [], c) := by
  obtain ⟨events, e, join, s, g, hevents, hok, hjoined, hs, hg, hcarries, htier, hkey⟩ :=
    key_changed_of_sample
  have hsetup : Parameters.setup 80 4 2 (Counter.mk 1) =
      (.ok (sampleWide.parameters, sampleTiers.2),
        (Parameters.setup (S := .sample) 80 4 2 (Counter.mk 1)).2) :=
    Prod.ext (eq_ok_of_toOption (by decide +kernel)) rfl
  have hnew : Member.new 1 (Counter.mk 100) .empty =
      (.ok sampleMember, (Member.new (S := .sample) 1 (Counter.mk 100) .empty).2) :=
    Prod.ext (eq_ok_of_toOption (by decide +kernel)) rfl
  obtain ⟨s', g', hs', hg', hexact⟩ := other_tier_join hsetup hnew events hok hjoined
  obtain rfl : s = s' := Option.some.inj (hs.symm.trans hs')
  obtain rfl : g = g' := Option.some.inj (hg.symm.trans hg')
  obtain ⟨hdeclined, ⟨-, generator, hsame⟩ | ⟨t, key, hpasses, -, hfolds⟩⟩ :=
    hexact e join hcarries htier
  · rw [hsame] at hkey
    exact absurd (congrArg (Option.map (·.key)) hs) hkey
  · exact ⟨events, e, join, s, g, t, key, hevents, hcarries, htier, hpasses, hfolds, hdeclined⟩

/-- **Members do not leave alone what coordinators decline**: not every join of another tier leaves
the key pair, the groups and the gaps of a joined member as they are. -/
theorem leaves_group_key : ¬∀ (events : List (Coordinator.Stimulus .sample))
    (e : Coordinator.Stimulus .sample) (join : Join .sample) (s : Membership .sample)
    (g : Snapshot .sample), sampleMember.Survives sampleWide events →
    (sampleMember.run sampleWide events).phase = .joined →
    (sampleMember.run sampleWide events).engine.membership = some s →
    (sampleMember.run sampleWide events).groups[s.group]? = some g →
    e.Carries sampleWide (.join join) → join.proof.tier ≠ g.tier →
    let m := ((sampleMember.run sampleWide events).react sampleWide e).2
    m.engine.membership = some s ∧ m.groups = (sampleMember.run sampleWide events).groups ∧
      m.gaps = (sampleMember.run sampleWide events).gaps := by
  intro hclaim
  obtain ⟨events, e, join, s, g, -, hok, hjoined, hs, hg, hcarries, htier, hkey⟩ :=
    key_changed_of_sample
  have hsame := (hclaim events e join s g hok hjoined hs hg hcarries htier).1
  exact hkey (congrArg (Option.map (·.key)) hsame)

end Member

end GroupKey
