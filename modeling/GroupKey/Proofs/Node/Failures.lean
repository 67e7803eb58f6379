import GroupKey.Proofs.Agreement.FailedCalls
import GroupKey.Proofs.Node.ForeignTier
import GroupKey.Proofs.Node.Soundness

/-!
# When a step of a member fails

A member drops what it cannot use, and its steps answer. There are two ways to fail all the same. To
take up an assignment it may need a fresh key, and the numbers that it draws for one may all be
taken. And it counts the members of the groups that it knows: a count starts with what a heartbeat
says and rises by one with every slot that is filled, and one at the limit cannot rise. Nothing
checks the counts in heartbeats, so any node can bring a member there. As long as no heartbeat
counts more members than slots taken, and joins name the tier of their group, no count gets near the
limit.

* `Member.RunsOut`, `Member.Counts` — the steps that may fail.
* `Member.ends_react` — what a step does to the counts, and how it fails.
* `Member.react_error_iff` — the failures of a step.
* `Snapshot.CountsTaken` — a count that leaves room for the free slots.
* `Member.hasRoom_react`, `Member.hasRoom_run` — such counts never overflow.
* `Member.failures_of_run` — the failures after any steps.
* `Member.count_overflows` — a run in which a count overflows.
-/

namespace GroupKey

variable {S : Suite} {ρ σ : Type} [Generator ρ] [Generator σ]

/-- The messages by which nodes come to places in groups. -/
def Message.ConcernsPlaces : Message S → Prop
  | .notifyPosition _ | .join _ | .joinAck _ => True
  | _ => False

namespace Member

variable {ctx : Context S} {secrets : SlotSecrets S} {directory : Directory S}
  {e : Coordinator.Stimulus S} {m m' : Member S ρ} {id : GroupId} {g : Snapshot S} {slot : UInt32}

/-! ## Steps that may fail -/

/-- The member takes up an assignment to a free slot of a group that it knows, but finds no number
for the key that it needs. -/
structure RunsOut (ctx : Context S) (directory : Directory S) (a : Assignment) (m : Member S ρ)
    (g : Snapshot S) (scale : Nat) : Prop where
  addressed : a.pid = m.pid
  unset : m.phase = .unset
  known : m.groups[a.group]? = some g
  tier : ctx.parameters.scale g.tier = .ok scale
  fits : a.slot.toNat < scale
  free : g.isOccupied a.slot = false
  taken : (m.engine.unusedKey ⟨directory, m.generator⟩).1 = .error .keyIdExhausted

theorem RunsOut.takesUp {a : Assignment} {scale : Nat} (h : RunsOut ctx directory a m g scale) :
    TakesUp ctx a m g scale :=
  ⟨h.addressed, h.unset, h.known, h.tier, h.fits, h.free⟩

/-- **An assignment fails just if the member runs out of numbers.** It changes no group. -/
theorem handleNotifyPosition_fails (hm : m.IsConsistent ctx) (a : Assignment)
    (directory : Directory S) :
    let r := m.handleNotifyPosition ctx a directory
    r.2.1.groups = m.groups ∧
      (((¬∃ g scale, RunsOut ctx directory a m g scale) ∧ ∃ ms, r.1 = .ok ms) ∨
        (∃ g scale, RunsOut ctx directory a m g scale) ∧
          r.1 = .error (.agreement .keyIdExhausted)) := by
  have hassigned := assigned_handleNotifyPosition ctx a directory m
  generalize m.handleNotifyPosition ctx a directory = r at hassigned ⊢
  cases hassigned with
  | passed refused =>
    exact ⟨rfl, .inl ⟨fun ⟨g, scale, hruns⟩ => refused ⟨g, scale, hruns.takesUp⟩, _, rfl⟩⟩
  | unscaled known tier =>
    -- The groups of a consistent member are of known tiers, so the lookup does not fail.
    obtain ⟨scale, hscale, -⟩ := (hm.groups _ _ known).2.length_slots
    simp [hscale] at tier
  | @unproved g scale _ err takes proves failed =>
    subst proves
    obtain ⟨rfl, htaken⟩ := (Engine.prove_error_iff takes.tier takes.fits a.group g.key).1 failed
    exact ⟨rfl, .inr ⟨⟨g, scale, takes.addressed, takes.unset, takes.known, takes.tier, takes.fits,
      takes.free, htaken⟩, rfl⟩⟩
  | proved takes proves made =>
    subst proves
    refine ⟨rfl, .inl ⟨fun ⟨g, scale, hruns⟩ => ?_, _, rfl⟩⟩
    obtain rfl := Option.some.inj (takes.known.symm.trans hruns.known)
    rw [(Engine.prove_error_iff takes.tier takes.fits a.group _).2 ⟨rfl, hruns.taken⟩] at made
    simp at made

/-- The step runs out of numbers for a key. -/
def Exhausts (ctx : Context S) (e : Coordinator.Stimulus S) (m : Member S ρ) : Prop :=
  ∃ a g scale, e.Carries ctx (.notifyPosition a) ∧ RunsOut ctx e.directory a m g scale

/-- The step counts one more member of a group, known as `g`, in a slot that is free as far as the
member knows: another node, or itself. -/
inductive Counts (ctx : Context S) (e : Coordinator.Stimulus S) (m : Member S ρ) :
    GroupId → Snapshot S → UInt32 → Prop
  | join {join : Join S} {g : Snapshot S} {engine : Engine S} (arrived : e.Carries ctx (.join join))
      (follows : Follows ctx e.directory join m g engine) :
      Counts ctx e m join.proof.group g join.proof.slot
  | joinAck {ack : JoinAck S} {pending : PendingJoin S} {g : Snapshot S}
      (arrived : e.Carries ctx (.joinAck ack)) (completes : Completes ack m pending)
      (known : m.groups[ack.group]? = some g) (free : g.isOccupied ack.slot = false) :
      Counts ctx e m ack.group g ack.slot

/-- The count that the step would raise is at its limit. -/
def Overflows (ctx : Context S) (e : Coordinator.Stimulus S) (m : Member S ρ) : Prop :=
  ∃ id g slot, Counts ctx e m id g slot ∧ ¬g.memberCount.toNat + 1 < UInt32.size

/-- What a step does to the counts, and how it fails. -/
inductive Ends (ctx : Context S) (e : Coordinator.Stimulus S) (m : Member S ρ) :
    Except NodeError (List (Message S)) × Member S ρ → Prop
  /-- Counts and slots of all groups are as they were, or as a heartbeat says. -/
  | steady {ms : List (Message S)} {m' : Member S ρ}
      (uncounted : ∀ id g slot, ¬Counts ctx e m id g slot) (unexhausted : ¬Exhausts ctx e m)
      (groups : ∀ (id : GroupId) (g' : Snapshot S), m'.groups[id]? = some g' →
        (∃ g, m.groups[id]? = some g ∧ g'.tier = g.tier ∧ g'.slots = g.slots ∧
          g'.memberCount = g.memberCount) ∨
        ∃ hb, e.Carries ctx (.heartbeat hb) ∧ g' ∈ hb.groups) : Ends ctx e m (.ok ms, m')
  | counted {ms : List (Message S)} {m' : Member S ρ} {id : GroupId} {g : Snapshot S}
      {slot : UInt32} {key : EncryptionKey S} (counts : Counts ctx e m id g slot)
      (room : g.memberCount.toNat + 1 < UInt32.size)
      (groups : m'.groups = m.groups.insert id { g with
        slots := g.slots.occupy slot
        memberCount := g.memberCount + 1
        key }) : Ends ctx e m (.ok ms, m')
  | overflowed {m' : Member S ρ} (overflows : Overflows ctx e m) :
      Ends ctx e m (.error .memberCountOverflow, m')
  | exhausted {m' : Member S ρ} (exhausts : Exhausts ctx e m) (groups : m'.groups = m.groups) :
      Ends ctx e m (.error (.agreement .keyIdExhausted), m')

theorem Ends.of_groups {ms : List (Message S)} (huncounted : ∀ id g slot, ¬Counts ctx e m id g slot)
    (hunexhausted : ¬Exhausts ctx e m) (hgroups : m'.groups = m.groups) :
    Ends ctx e m (.ok ms, m') :=
  .steady huncounted hunexhausted fun _ g' hg' => .inl ⟨g', hgroups ▸ hg', rfl, rfl, rfl⟩

theorem not_counts_of_assigned {a : Assignment} (he : e.Carries ctx (.notifyPosition a)) :
    ¬Counts ctx e m id g slot := by
  intro hcounts
  cases hcounts with
  | join arrived => cases he.unique arrived
  | joinAck arrived => cases he.unique arrived

theorem ends_notifyPosition (hm : m.IsConsistent ctx) {a : Assignment}
    (he : e.Carries ctx (.notifyPosition a)) :
    let r := m.handleNotifyPosition ctx a e.directory
    Ends ctx e m (r.1, r.2.1) := by
  have huncounted : ∀ id g slot, ¬Counts ctx e m id g slot := fun _ _ _ => not_counts_of_assigned he
  obtain ⟨hgroups, ⟨hnone, ms, hok⟩ | ⟨⟨g, scale, hruns⟩, herror⟩⟩ :=
    handleNotifyPosition_fails hm a e.directory
  · simp only [hok]
    refine .of_groups huncounted (fun ⟨a', g, scale, ha', hruns⟩ => hnone ⟨g, scale, ?_⟩) hgroups
    obtain rfl := Message.notifyPosition.inj (he.unique ha')
    exact hruns
  · simp only [herror]
    exact .exhausted ⟨a, g, scale, he, hruns⟩ hgroups

theorem ends_fillSlot (hcounts : Counts ctx e m id g slot) (hknown : m.groups[id]? = some g)
    (m' : Member S ρ) (hgroups : m'.groups = m.groups) (key : EncryptionKey S) :
    let r := m'.fillSlot id slot key
    Ends ctx e m (r.1.map fun _ => [], r.2) := by
  by_cases hcount : g.memberCount.toNat + 1 < UInt32.size
  · simp only [fillSlot_of_some (hgroups ▸ hknown) slot key hcount]
    exact .counted hcounts hcount (by rw [← hgroups])
  · simp only [fillSlot_of_limit (hgroups ▸ hknown) slot key hcount]
    exact .overflowed ⟨id, g, slot, hcounts, hcount⟩

theorem Ends.of_same {answer : Except NodeError (List (Message S))} {m'' : Member S ρ}
    (h : Ends ctx e m (answer, m')) (hgroups : m''.groups = m'.groups) :
    Ends ctx e m (answer, m'') := by
  cases h with
  | steady huncounted hunexhausted hkept =>
    exact .steady huncounted hunexhausted (hgroups ▸ hkept)
  | counted hcounts hroom hinsert => exact .counted hcounts hroom (hgroups.trans hinsert)
  | overflowed h => exact .overflowed h
  | exhausted h hkept => exact .exhausted h (hgroups.trans hkept)

theorem ends_join {join : Join S} (he : e.Carries ctx (.join join)) :
    let r := m.handleJoin ctx e.directory join
    Ends ctx e m (r.1.map fun _ => [], r.2) := by
  have hunexhausted : ¬Exhausts ctx e m := by
    rintro ⟨a, g, scale, ha, -⟩
    cases he.unique ha
  rcases handleJoin_cases ctx e.directory join m with
    ⟨hpassed, generator, hsame⟩ | ⟨g, engine, generator, result, m', hf, hfill, hjoin⟩
  · simp only [hsame]
    refine .of_groups (fun id g slot h => ?_) hunexhausted rfl
    cases h with
    | @join join' g engine arrived follows =>
      obtain rfl := Message.join.inj (he.unique arrived)
      exact hpassed ⟨g, engine, follows⟩
    | joinAck arrived => cases he.unique arrived
  · have hends := ends_fillSlot (.join he hf) hf.known { m with engine, generator } rfl
      ((engine.membership.map (·.key)).getD g.key)
    simp only [hfill] at hends
    simp only [hjoin]
    cases result <;> exact hends.of_same rfl

theorem ends_joinAck {ack : JoinAck S} (he : e.Carries ctx (.joinAck ack)) :
    let r := m.handleJoinAck ack
    Ends ctx e m (r.1.map fun _ => [], r.2) := by
  have hunexhausted : ¬Exhausts ctx e m := by
    rintro ⟨a, g, scale, ha, -⟩
    cases he.unique ha
  -- Nothing is counted unless the join is completed, in a group with the slot free.
  have huncounted (h : ∀ pending g, Completes ack m pending → m.groups[ack.group]? = some g →
      g.isOccupied ack.slot = true) : ∀ id g slot, ¬Counts ctx e m id g slot := by
    intro id g slot hcounts
    cases hcounts with
    | join arrived => cases he.unique arrived
    | @joinAck ack' pending g arrived completes known free =>
      obtain rfl := Message.joinAck.inj (he.unique arrived)
      rw [h pending g completes known] at free
      simp at free
  rcases handleJoinAck_cases ack m with ⟨hpassed, hsame⟩ | ⟨pending, hc, hack⟩
  · simp only [hsame]
    exact .of_groups (huncounted fun pending _ hc => absurd ⟨pending, hc⟩ hpassed) hunexhausted rfl
  · simp only [hack]
    cases hg : m.groups[ack.group]? with
    | none =>
      exact .of_groups (huncounted fun _ _ _ hg' => by simp [hg] at hg') hunexhausted rfl
    | some g =>
      simp only
      split
      · next hocc =>
        refine .steady (huncounted fun _ g' _ hg' => ?_) hunexhausted fun id g' hg' => .inl ?_
        · rwa [← Option.some.inj (hg.symm.trans hg')]
        · rcases getElem?_insert_cases hg' with ⟨rfl, rfl⟩ | ⟨-, hg'⟩
          · exact ⟨g, hg, rfl, rfl, rfl⟩
          · exact ⟨g', hg', rfl, rfl, rfl⟩
      · next hfree =>
        exact ends_fillSlot (.joinAck he hc hg (Bool.not_eq_true _ ▸ hfree)) hg
          (m.admittedBy ack pending.reserved) rfl ack.key

/-- A step without a message that concerns places counts nobody and needs no key. -/
theorem not_counts_of_other (hother : ∀ msg, e.Carries ctx msg → ¬msg.ConcernsPlaces) :
    (∀ id g slot, ¬Counts ctx e m id g slot) ∧ ¬Exhausts ctx e m := by
  constructor
  · intro id g slot hcounts
    cases hcounts with
    | join arrived => exact hother _ arrived trivial
    | joinAck arrived => exact hother _ arrived trivial
  · rintro ⟨a, _, _, ha, _⟩
    exact hother _ ha trivial

theorem Ends.of_other (hother : ∀ msg, e.Carries ctx msg → ¬msg.ConcernsPlaces)
    {ms : List (Message S)} (hgroups : m'.groups = m.groups) : Ends ctx e m (.ok ms, m') :=
  have ⟨huncounted, hunexhausted⟩ := not_counts_of_other hother
  .of_groups huncounted hunexhausted hgroups

theorem ends_message (hm : m.IsConsistent ctx) {msg : Message S} (he : e.Carries ctx msg) :
    let r := m.handle ctx e.now msg e.directory
    Ends ctx e m (r.1, r.2.1) := by
  have hother (hmsg : ¬msg.ConcernsPlaces) : ∀ msg', e.Carries ctx msg' → ¬msg'.ConcernsPlaces :=
    fun msg' h => he.unique h ▸ hmsg
  have hkept (hkeys : msg.IsOfKeys) : (m.handle ctx e.now msg e.directory).2.1.groups = m.groups :=
    (keepsPlace_handle hkeys e.now e.directory).groups
  cases msg with
  | notifyPosition a => exact ends_notifyPosition hm he
  | join join => exact ends_join he
  | joinAck ack => exact ends_joinAck he
  | heartbeat hb =>
    obtain ⟨huncounted, hunexhausted⟩ := not_counts_of_other (m := m) (hother id)
    refine .steady huncounted hunexhausted fun id g' hg' => ?_
    rcases (handleHeartbeat_hears e.now hb m).known id g' hg' with ⟨hg', -⟩ | ⟨hg', -⟩
    · exact .inl ⟨g', hg', rfl, rfl, rfl⟩
    · exact .inr ⟨hb, he, hg'⟩
  | heartbeatAck ack => exact .of_other (hother id) rfl
  | keyEncapNotify _ | keyEncap _ | keyUpdate _ | keyUpdateAck _ =>
    exact .of_other (hother id) (hkept trivial)

theorem ends_react (hm : m.IsConsistent ctx) (e : Coordinator.Stimulus S) :
    Ends ctx e m (m.react ctx e) := by
  cases hin : e.input with
  | timer timer =>
    have hnone (msg : Message S) : ¬e.Carries ctx msg := fun ⟨frame, hframe, _⟩ => by
      simp [hin] at hframe
    simp only [react, hin]
    exact .of_other (fun msg h => absurd h (hnone msg)) (keepsPlace_tick ctx e.now timer m).1.groups
  | frame frame =>
    cases hread : ctx.decode? frame with
    | none =>
      have hnone (msg : Message S) : ¬e.Carries ctx msg := fun ⟨frame', hframe, hmsg⟩ => by
        obtain rfl := Coordinator.Input.frame.inj (hin.symm.trans hframe)
        simp [hread] at hmsg
      simp only [react, hin, receive, hread]
      exact .of_other (fun msg h => absurd h (hnone msg)) rfl
    | some msg =>
      have hcarries : e.Carries ctx msg := ⟨frame, hin, hread⟩
      rw [react_of_carries hcarries]
      exact ends_message hm hcarries

theorem Counts.unique {id' : GroupId} {g' : Snapshot S} {slot' : UInt32}
    (h : Counts ctx e m id g slot) (h' : Counts ctx e m id' g' slot') : g = g' := by
  cases h with
  | join arrived follows =>
    cases h' with
    | join arrived' follows' =>
      obtain rfl := Message.join.inj (arrived.unique arrived')
      exact Option.some.inj (follows.known.symm.trans follows'.known)
    | joinAck arrived' => cases arrived.unique arrived'
  | joinAck arrived _ known =>
    cases h' with
    | join arrived' => cases arrived.unique arrived'
    | joinAck arrived' _ known' =>
      obtain rfl := Message.joinAck.inj (arrived.unique arrived')
      exact Option.some.inj (known.symm.trans known')

theorem Exhausts.not_counts (h : Exhausts ctx e m) : ¬Counts ctx e m id g slot :=
  let ⟨_, _, _, ha, _⟩ := h
  not_counts_of_assigned ha

/-- **The failures of a step**: there are two, each on a condition of its own. -/
theorem react_error_iff (hm : m.IsConsistent ctx) (e : Coordinator.Stimulus S) (err : NodeError) :
    (m.react ctx e).1 = .error err ↔
      (err = .agreement .keyIdExhausted ∧ Exhausts ctx e m) ∨
        (err = .memberCountOverflow ∧ Overflows ctx e m) := by
  have hends := ends_react hm e
  generalize m.react ctx e = r at hends ⊢
  cases hends with
  | steady huncounted hunexhausted =>
    refine ⟨nofun, ?_⟩
    rintro (⟨-, h⟩ | ⟨-, id, g, slot, h, -⟩)
    · exact absurd h hunexhausted
    · exact absurd h (huncounted id g slot)
  | counted hcounts hroom =>
    refine ⟨nofun, ?_⟩
    rintro (⟨-, h⟩ | ⟨-, id, g, slot, h, hlimit⟩)
    · exact absurd hcounts h.not_counts
    · exact absurd (hcounts.unique h ▸ hroom) hlimit
  | overflowed hover =>
    refine ⟨fun h => .inr ⟨(Except.error.inj h).symm, hover⟩, ?_⟩
    rintro (⟨-, h⟩ | ⟨rfl, -⟩)
    · obtain ⟨id, g, slot, hcounts, -⟩ := hover
      exact absurd hcounts h.not_counts
    · rfl
  | exhausted hexhausts =>
    refine ⟨fun h => .inl ⟨(Except.error.inj h).symm, hexhausts⟩, ?_⟩
    rintro (⟨rfl, -⟩ | ⟨-, id, g, slot, h, -⟩)
    · rfl
    · exact absurd h hexhausts.not_counts

end Member

/-! ## Counts that leave room -/

namespace Snapshot

variable {p : Parameters S} {g : Snapshot S} {slot : UInt32} {scale : Nat}

/-- No more members are counted than slots of the tier are taken. -/
def CountsTaken (p : Parameters S) (g : Snapshot S) : Prop :=
  ∀ scale, p.scale g.tier = .ok scale →
    g.memberCount.toNat ≤ (g.slots.setBits.filter (· < scale)).card

theorem insert_subset_range (hslot : slot.toNat < scale) :
    insert slot.toNat (g.slots.setBits.filter (· < scale)) ⊆ Finset.range scale := by
  intro i hi
  rcases Finset.mem_insert.1 hi with rfl | hi
  · exact Finset.mem_range.2 hslot
  · exact Finset.mem_range.2 (Finset.mem_filter.1 hi).2

theorem notMem_taken (hfree : g.isOccupied slot = false) :
    slot.toNat ∉ g.slots.setBits.filter (· < scale) := by
  intro hmem
  rw [isOccupied, (g.slots.isOccupied_iff_mem_setBits slot).2 (Finset.mem_filter.1 hmem).1] at hfree
  simp at hfree

theorem CountsTaken.count_lt (h : g.CountsTaken p) (hp : p.HasNumberedSlots)
    (hscale : p.scale g.tier = .ok scale) (hslot : slot.toNat < scale)
    (hfree : g.isOccupied slot = false) : g.memberCount.toNat + 1 < UInt32.size := by
  have hcard := Finset.card_le_card (insert_subset_range (g := g) hslot)
  rw [Finset.card_insert_of_notMem (notMem_taken hfree), Finset.card_range] at hcard
  have hcount := h scale hscale
  have hsize := hp _ _ hscale
  omega

/-- One more member in a free slot. -/
theorem CountsTaken.occupy (h : g.CountsTaken p) (hp : p.HasNumberedSlots) (hfits : g.FitsTier p)
    (hscale : p.scale g.tier = .ok scale) (hslot : slot.toNat < scale)
    (hfree : g.isOccupied slot = false) (key : EncryptionKey S) :
    CountsTaken p { g with
      slots := g.slots.occupy slot
      memberCount := g.memberCount + 1
      key } := by
  intro scale' hscale'
  obtain rfl : scale = scale' := Except.ok.inj (hscale.symm.trans hscale')
  obtain ⟨scale', hscale'', hlength⟩ := hfits.length_slots
  obtain rfl : scale = scale' := Except.ok.inj (hscale.symm.trans hscale'')
  -- The slots taken before and the new one are all taken afterwards, and they are one more.
  have hsub : insert slot.toNat (g.slots.setBits.filter (· < scale)) ⊆
      (g.slots.occupy slot).setBits.filter (· < scale) := by
    intro i hi
    have hlt : i < scale := Finset.mem_range.1 (insert_subset_range (g := g) hslot hi)
    have hi_eq : (UInt32.ofNat i).toNat = i := UInt32.toNat_ofNat_of_lt' (hlt.trans (hp _ _ hscale))
    refine Finset.mem_filter.2 ⟨?_, hlt⟩
    rw [← hi_eq, ← Bitmap.isOccupied_iff_mem_setBits, Bitmap.isOccupied_occupy]
    rcases Finset.mem_insert.1 hi with rfl | hi
    · rw [UInt32.ofNat_toNat]
      exact .inl ⟨rfl, Bitmap.reaches_of_lt hlength hslot⟩
    · refine .inr ((g.slots.isOccupied_iff_mem_setBits _).2 ?_)
      rw [hi_eq]
      exact (Finset.mem_filter.1 hi).1
  have hcard := Finset.card_le_card hsub
  rw [Finset.card_insert_of_notMem (notMem_taken hfree)] at hcard
  have hcount := h scale hscale
  show (g.memberCount.toNat + 1) % UInt32.size ≤ _
  rw [Nat.mod_eq_of_lt (h.count_lt hp hscale hslot hfree)]
  exact (Nat.succ_le_succ hcount).trans hcard

end Snapshot

instance (p : Parameters S) (g : Snapshot S) : Decidable (g.CountsTaken p) :=
  match h : p.scale g.tier with
  | .error _ => isTrue fun scale hscale => by simp [h] at hscale
  | .ok scale => decidable_of_iff (g.memberCount.toNat ≤ (g.slots.setBits.filter (· < scale)).card)
    ⟨fun hle _ hscale => Except.ok.inj (h.symm.trans hscale) ▸ hle, fun hle => hle scale h⟩

/-- A message that leaves room: neither does a heartbeat count more members than slots taken, nor is
a join for another tier than its group's. -/
def Message.LeavesRoom (p : Parameters S) : Message S → Prop
  | .heartbeat hb => ∀ info ∈ hb.groups, info.CountsTaken p
  | .join j => j.proof.tier = j.proof.group.tier
  | _ => True

instance (p : Parameters S) : (msg : Message S) → Decidable (msg.LeavesRoom p)
  | .heartbeat hb => inferInstanceAs (Decidable (∀ info ∈ hb.groups, info.CountsTaken p))
  | .join _ => inferInstanceAs (Decidable (_ = _))
  | .heartbeatAck _ | .notifyPosition _ | .joinAck _ | .keyEncapNotify _ | .keyEncap _
  | .keyUpdate _ | .keyUpdateAck _ => isTrue trivial

/-- What arrives leaves room. -/
def Coordinator.Stimulus.LeavesRoom (ctx : Context S) (e : Coordinator.Stimulus S) : Prop :=
  ∀ msg, e.Carries ctx msg → msg.LeavesRoom ctx.parameters

instance (ctx : Context S) (e : Coordinator.Stimulus S) : Decidable (e.LeavesRoom ctx) :=
  match hin : e.input with
  | .timer _ => isTrue fun _ ⟨_, hframe, _⟩ => by simp [hin] at hframe
  | .frame frame => decidable_of_iff (∀ msg ∈ ctx.decode? frame, msg.LeavesRoom ctx.parameters)
    ⟨fun h msg ⟨_, hframe, hread⟩ =>
      h msg (Coordinator.Input.frame.inj (hin.symm.trans hframe) ▸ hread),
      fun h msg hread => h msg ⟨frame, hin, hread⟩⟩

namespace Member

variable {ctx : Context S} {secrets : SlotSecrets S} {e : Coordinator.Stimulus S} {m : Member S ρ}
  {id : GroupId} {g : Snapshot S} {slot : UInt32}

/-- No group is known with more members than slots taken. -/
def HasRoom (ctx : Context S) (m : Member S ρ) : Prop :=
  ∀ (id : GroupId) (g : Snapshot S), m.groups[id]? = some g → g.CountsTaken ctx.parameters

/-- What is counted is a free slot of the group's tier. -/
theorem Counts.slot_lt (h : Counts ctx e m id g slot) (hm : m.IsConsistent ctx)
    (he : e.LeavesRoom ctx) : m.groups[id]? = some g ∧ g.isOccupied slot = false ∧
      ∃ scale, ctx.parameters.scale g.tier = .ok scale ∧ slot.toNat < scale := by
  cases h with
  | @join join g engine arrived follows =>
    refine ⟨follows.known, follows.free, ?_⟩
    obtain ⟨t, key, ht, hfits, -⟩ := JoinProof.fits_of_check follows.valid
    obtain ⟨hid, htier⟩ := hm.groups _ g follows.known
    refine ⟨t.scale, ?_, hfits.slot_lt⟩
    rw [htier.tier, hid, ← he (.join join) arrived]
    exact Parameters.scale_of_tier ht
  | @joinAck ack pending g arrived completes known free =>
    obtain ⟨g', scale, hg', hscale, hslot⟩ := hm.awaited pending completes.awaited
    rw [completes.group] at hg'
    obtain rfl : g = g' := Option.some.inj (known.symm.trans hg')
    exact ⟨known, free, scale, hscale, completes.slot ▸ hslot⟩

/-- **A step that leaves room makes no count overflow**, and leaves room for more. -/
theorem hasRoom_react (hp : ctx.parameters.HasNumberedSlots) (hm : m.IsConsistent ctx)
    (hroom : m.HasRoom ctx) (he : e.LeavesRoom ctx) :
    (m.react ctx e).1 ≠ .error .memberCountOverflow ∧ (m.react ctx e).2.HasRoom ctx := by
  have hends := ends_react hm e
  generalize m.react ctx e = r at hends ⊢
  cases hends with
  | steady _ _ hgroups =>
    refine ⟨nofun, fun id g' hg' scale hscale => ?_⟩
    rcases hgroups id g' hg' with ⟨g, hg, htier, hslots, hcount⟩ | ⟨hb, hcarries, hmem⟩
    · rw [hslots, hcount]
      exact hroom id g hg scale (htier ▸ hscale)
    · exact he (.heartbeat hb) hcarries g' hmem scale hscale
  | counted hcounts _ hgroups =>
    obtain ⟨hknown, hfree, scale, hscale, hslot⟩ := hcounts.slot_lt hm he
    refine ⟨nofun, fun id' g' hg' => ?_⟩
    rw [hgroups] at hg'
    rcases getElem?_insert_cases hg' with ⟨-, rfl⟩ | ⟨-, hg'⟩
    · exact (hroom _ _ hknown).occupy hp (hm.groups _ _ hknown).2 hscale hslot hfree _
    · exact hroom id' g' hg'
  | overflowed hover =>
    obtain ⟨id, g, slot, hcounts, hlimit⟩ := hover
    obtain ⟨hknown, hfree, scale, hscale, hslot⟩ := hcounts.slot_lt hm he
    exact absurd ((hroom id g hknown).count_lt hp hscale hslot hfree) hlimit
  | exhausted _ hgroups => exact ⟨by simp, fun id g hg => hroom id g (hgroups ▸ hg)⟩

/-- **Steps that leave room make no count overflow.** -/
theorem hasRoom_run (hp : ctx.parameters.HasNumberedSlots) (hm : m.IsConsistent ctx)
    (hroom : m.HasRoom ctx) {events : List (Coordinator.Stimulus S)}
    (hevents : ∀ e ∈ events, e.LeavesRoom ctx) :
    m.Survives ctx events ∧ (m.run ctx events).HasRoom ctx := by
  induction events generalizing m with
  | nil => exact ⟨trivial, hroom⟩
  | cons e events ih =>
    obtain ⟨hok, hroom'⟩ := hasRoom_react hp hm hroom (hevents e List.mem_cons_self)
    obtain ⟨hrest, hend⟩ :=
      ih (hm.react hp hok) hroom' fun e he => hevents e (List.mem_cons_of_mem _ he)
    exact ⟨⟨hok, hrest⟩, hend⟩

/-- **When a member fails.** Let a new member, with parameters from a successful setup, take any
steps: frames of any bytes, timers, and any directory and clock at each. As long as no count
overflows, no index is out of bounds: tiers have no more slots than there are generators, and the
bitmaps of the groups known have no more bits than there are slot numbers. The next step fails just
if it takes up an assignment without finding a number for its key, or counts one more member where
the count is at its limit. And no count overflows, so that only the first of these failures is left,
as long as heartbeats count no more members than slots taken and joins name the tier of their
group. -/
theorem failures_of_run {level : UInt32} {maxGroupSize sizeStep : Nat} {r r' : σ}
    (hsetup : Parameters.setup level maxGroupSize sizeStep r = (.ok (ctx.parameters, secrets), r'))
    {pid : UInt32} {generator : ρ} {directory directory' : Directory S}
    (hnew : Member.new pid generator directory = (.ok m, directory'))
    (events : List (Coordinator.Stimulus S)) :
    (∀ number t, ctx.parameters.tier number = .ok t → t.scale ≤ ctx.parameters.h.length) ∧
      (m.Survives ctx events →
        (∀ (id : GroupId) (g : Snapshot S), (m.run ctx events).groups[id]? = some g →
          g.slots.bytes.length * 8 ≤ UInt32.size) ∧
        ∀ (e : Coordinator.Stimulus S) (err : NodeError),
          ((m.run ctx events).react ctx e).1 = .error err ↔
            (err = .agreement .keyIdExhausted ∧ Exhausts ctx e (m.run ctx events)) ∨
              (err = .memberCountOverflow ∧ Overflows ctx e (m.run ctx events))) ∧
      ((∀ e ∈ events, e.LeavesRoom ctx) →
        m.Survives ctx events ∧
        ∀ (e : Coordinator.Stimulus S) (err : NodeError), e.LeavesRoom ctx →
          ((m.run ctx events).react ctx e).1 = .error err → err = .agreement .keyIdExhausted) := by
  have hp := Parameters.isSetup_of_setup hsetup
  have hconsistent := places_agree_of_run hp.hasNumberedSlots hnew events
  refine ⟨fun number t ht => (hp.scale _ t (Parameters.tier_eq_ok.1 ht)).2, fun hok => ?_,
    fun hevents => ?_⟩
  · have hm := hconsistent hok
    exact ⟨fun id g hg => (hm.groups id g hg).2.length_le hp.hasNumberedSlots, react_error_iff hm⟩
  · have hroom₀ : m.HasRoom ctx := fun id g hg => by
      obtain ⟨key, res, -, -, rfl⟩ := new_eq_ok hnew
      simp at hg
    obtain ⟨hok, hroom⟩ :=
      hasRoom_run hp.hasNumberedSlots (isConsistent_new hnew) hroom₀ hevents
    refine ⟨hok, fun e err he herror => ?_⟩
    rcases (react_error_iff (hconsistent hok) e err).1 herror with ⟨rfl, -⟩ | ⟨rfl, -⟩
    · rfl
    · exact absurd herror (hasRoom_react hp.hasNumberedSlots (hconsistent hok) hroom he).1

/-! ### A count that a heartbeat brings to its limit -/

/-- A member hears that the first group has `count` members and no slot taken, and is handed its
first slot; then it gets a share. -/
def sampleForged? (count : UInt32) :
    Option (List (Coordinator.Stimulus .sample) × Coordinator.Stimulus .sample) := do
  let directory := (Member.new (S := .sample) 1 (Counter.mk 100) .empty).2
  let group : Snapshot .sample := ⟨0, count, Coordinator.sampleGroup, .free 2,
    ⟨Suite.sample.base2, Suite.sample.base1⟩, ⟨60001000⟩⟩
  let heartbeat : Message .sample := .heartbeat ⟨0, .zero, [group]⟩
  let assignment : Message .sample := .notifyPosition ⟨group.id, 0, 1⟩
  let opening : List (Coordinator.Stimulus .sample) :=
    [⟨directory, ⟨1000⟩, .frame heartbeat.encode⟩, ⟨directory, ⟨2000⟩, .frame assignment.encode⟩]
  let pending ← (sampleMember.run sampleContext opening).engine.pending
  let ack : Message .sample := .joinAck ⟨group.id, 0, 7, Suite.sample.base1, pending.key⟩
  return (opening, ⟨directory, ⟨3000⟩, .frame ack.encode⟩)

/-- With the highest count of all, the acknowledgement makes it overflow. -/
theorem overflow_of_sample : ∃ events e, sampleForged? 4294967295 = some (events, e) ∧
    sampleMember.Survives sampleContext events ∧
    ((sampleMember.run sampleContext events).react sampleContext e).1 =
      .error .memberCountOverflow := by
  have hrun : ((sampleForged? 4294967295).any fun x =>
      decide (sampleMember.Survives sampleContext x.1) &&
        match ((sampleMember.run sampleContext x.1).react sampleContext x.2).1 with
        | .ok _ => false
        | .error err => decide (err = .memberCountOverflow)) = true := by
    decide +kernel
  obtain ⟨⟨events, e⟩, hevents, hrun⟩ := (Option.any_eq_true _ _).1 hrun
  simp only [Bool.and_eq_true, decide_eq_true_eq] at hrun
  obtain ⟨hok, hrun⟩ := hrun
  refine ⟨events, e, hevents, hok, ?_⟩
  cases hr : ((sampleMember.run sampleContext events).react sampleContext e).1 with
  | ok ms => simp [hr] at hrun
  | error err =>
    rw [hr] at hrun
    exact congrArg _ (of_decide_eq_true hrun)

/-- A count without a slot taken brings the member down; the true one does not. -/
theorem failures_of_run_two_counts :
    (∃ events e, sampleForged? 4294967295 = some (events, e) ∧
      sampleMember.Survives sampleContext events ∧
      Overflows sampleContext e (sampleMember.run sampleContext events)) ∧
    ∃ events e, sampleForged? 0 = some (events, e) ∧ (∀ x ∈ events, x.LeavesRoom sampleContext) ∧
      e.LeavesRoom sampleContext ∧ sampleMember.Survives sampleContext events ∧
      ∀ err, ((sampleMember.run sampleContext events).react sampleContext e).1 = .error err →
        err = .agreement .keyIdExhausted := by
  have hnew : Member.new 1 (Counter.mk 100) .empty =
      (.ok sampleMember, (Member.new (S := .sample) 1 (Counter.mk 100) .empty).2) :=
    Prod.ext (eq_ok_of_toOption (by decide +kernel)) rfl
  have hsetup : Parameters.setup 80 2 2 (Counter.mk 1) =
      (.ok (sampleContext.parameters, sampleSetup.2),
        (Parameters.setup (S := .sample) 80 2 2 (Counter.mk 1)).2) := setup_sample
  have hfails := failures_of_run hsetup hnew
  constructor
  · obtain ⟨events, e, hevents, hok, herror⟩ := overflow_of_sample
    refine ⟨events, e, hevents, hok, ?_⟩
    obtain ⟨-, hexact⟩ := (hfails events).2.1 hok
    rcases (hexact e _).1 herror with ⟨herr, -⟩ | ⟨-, hover⟩
    · simp at herr
    · exact hover
  · have hrun : ((sampleForged? 0).any fun x =>
        decide (∀ y ∈ x.1, y.LeavesRoom sampleContext) &&
          decide (x.2.LeavesRoom sampleContext)) = true := by
      decide +kernel
    obtain ⟨⟨events, e⟩, hevents, hrun⟩ := (Option.any_eq_true _ _).1 hrun
    simp only [Bool.and_eq_true, decide_eq_true_eq] at hrun
    obtain ⟨hok, honly⟩ := (hfails events).2.2 hrun.1
    exact ⟨events, e, hevents, hrun.1, hrun.2, hok, fun err => honly e err hrun.2⟩

/-- **Inputs can be fatal to a member**: not every failure of a step is that no number was found for
a key. -/
theorem count_overflows : ¬∀ (events : List (Coordinator.Stimulus .sample))
    (e : Coordinator.Stimulus .sample) (err : NodeError),
    sampleMember.Survives sampleContext events →
    ((sampleMember.run sampleContext events).react sampleContext e).1 = .error err →
    err = .agreement .keyIdExhausted := by
  intro hclaim
  obtain ⟨events, e, -, hok, herror⟩ := overflow_of_sample
  simpa using hclaim events e _ hok herror

end Member

end GroupKey
