import GroupKey.Proofs.Group.Balance
import GroupKey.Proofs.Group.Tally
import GroupKey.Proofs.Node.Journal
import GroupKey.Proofs.Wire.Groups

/-!
# Where a member stands

The keys of a member and of the coordinator are both determined by the joins behind them. This file
says what is true of the groups that the coordinator holds, of a member and of the messages between
them, given these joins, and how the steps of both keep it.

* `Broadcast.Books`, `Broadcast.Stands` — a group of the coordinator, a member.
* `Broadcast.Told` — a message on its way, from which `Told.of_decode` carries over to what arrives.
* `books_bootstrap`, `Books.seat` — the groups after a step of the coordinator.
* `Stands.handle`, `Stands.tick` — the steps of a member.
-/

namespace GroupKey

variable {S : Suite} {ρ : Type} {p : Parameters S}

/-! ## Snapshots on their way -/

/-- A snapshot that tallies with the tier that its name gives. -/
def Snapshot.IsTallied (p : Parameters S) (g : Snapshot S) : Prop :=
  g.tier = g.id.tier ∧ ∃ t taken, p.tier g.id.tier = .ok t ∧ g.Tallies t.scale taken

/-- The same, with the slots filled in order, as the coordinator does. -/
def Snapshot.IsOrdered (p : Parameters S) (g : Snapshot S) : Prop :=
  g.tier = g.id.tier ∧ ∃ t n, p.tier g.id.tier = .ok t ∧ g.Tallies t.scale (Finset.range n)

theorem Snapshot.IsOrdered.isTallied {g : Snapshot S} (h : g.IsOrdered p) : g.IsTallied p := by
  obtain ⟨htier, t, n, ht, htally⟩ := h
  exact ⟨htier, t, _, ht, htally⟩

theorem Snapshot.IsOrdered.isSized {g : Snapshot S} (h : g.IsOrdered p) : g.IsSized p := by
  obtain ⟨htier, t, n, ht, htally⟩ := h
  refine ⟨htier, ?_⟩
  intro scale hscale
  rw [Parameters.scale_of_tier ht, Except.ok.injEq] at hscale
  rw [← hscale]
  exact htally.length

/-! ## What is true of messages -/

/-- An acknowledgement carries the key after a number of earlier joins, of which the one that it
acknowledges is the last. -/
structure Broadcast.Acknowledges [S.AbelianSources] (b : Broadcast S ρ) (index : Nat)
    (joins : Finset Nat) (ack : JoinAck S) : Prop where
  covers : b.Covers joins
  earlier : ∀ i ∈ joins, i < index
  card : joins.card = ack.slot.toNat + 1
  slot_lt : ∃ t, b.network.context.parameters.tier ack.group.tier = .ok t ∧
    ack.slot.toNat < t.scale
  key : ack.key = b.keyAfter ack.group joins

/-- What is true of the message in a frame, with the joins behind the key that it carries. -/
def Broadcast.Told [S.AbelianSources] (b : Broadcast S ρ) (index : Nat) (joins : Finset Nat) :
    Message S → Prop
  | .heartbeat hb => ∀ g ∈ hb.groups, g.IsOrdered b.network.context.parameters
  | .join join => join.proof.tier = join.proof.group.tier
  | .joinAck ack => b.Acknowledges index joins ack
  | .heartbeatAck _ | .notifyPosition _ | .keyEncapNotify _ | .keyEncap _ | .keyUpdate _
  | .keyUpdateAck _ => True

namespace Broadcast

variable [S.AbelianSources] {b b' : Broadcast S ρ} {index : Nat} {joins : Finset Nat}

theorem told_of_not_concernsGroups {m : Message S} (h : ¬m.ConcernsGroups) :
    b.Told index joins m := by
  cases m <;> first | trivial | exact absurd trivial h

theorem Told.grow (hb : b.Grows b') {m : Message S} (h : b.Told index joins m) :
    b'.Told index joins m := by
  cases m with
  | heartbeat hb' =>
    show ∀ g ∈ hb'.groups, g.IsOrdered b'.network.context.parameters
    rw [hb.context]
    exact h
  | join join => exact h
  | joinAck ack =>
    have h : b.Acknowledges index joins ack := h
    refine ⟨hb.covers h.covers, h.earlier, h.card, ?_, ?_⟩
    · rw [hb.context]
      exact h.slot_lt
    · rw [hb.keyAfter h.covers]
      exact h.key
  | _ => trivial

theorem Told.of_decode [S.FaithfulPoints] {m m' : Message S} (h : b.Told index joins m)
    (hm : Message.decode b.network.context.parameters m.encode = .ok m') :
    b.Told index joins m' := by
  have hkind := Message.kind_of_decode hm
  cases m with
  | heartbeat hb =>
    obtain ⟨hb', rfl, hgroups⟩ := Message.groups_of_decode (fun g hg => (h g hg).isSized) hm
    show ∀ g ∈ hb'.groups, g.IsOrdered b.network.context.parameters
    rw [hgroups]
    exact h
  | join join =>
    obtain ⟨join', rfl, hgroup, htier⟩ := Message.join_of_decode hm
    show join'.proof.tier = join'.proof.group.tier
    rw [hgroup, htier]
    exact h
  | joinAck ack =>
    obtain rfl := Message.joinAck_of_decode hm
    exact h
  | _ => cases m' <;> trivial

/-! ## What is true of groups and members -/

/-- A group that the coordinator holds, with the joins in its ledger: its slots are filled in order,
one for each join, and it has the key after these joins. -/
structure Books (b : Broadcast S ρ) (joins : Finset Nat) (id : GroupId) (g : ManagedGroup S) :
    Prop where
  named : g.info.id = id
  tier : g.info.tier = id.tier
  tally : ∃ t, b.network.context.parameters.tier id.tier = .ok t ∧ g.scale = t.scale ∧
    g.shares.length = t.scale ∧ g.info.Tallies t.scale (Finset.range joins.card)
  key : g.info.key = b.keyAfter id joins

theorem Books.grow {id : GroupId} {g : ManagedGroup S} (hb : b.Grows b') (hc : b.Covers joins)
    (h : b.Books joins id g) : b'.Books joins id g := by
  refine ⟨h.named, h.tier, ?_, ?_⟩
  · rw [hb.context]
    exact h.tally
  · rw [hb.keyAfter hc]
    exact h.key

theorem Books.isOrdered {id : GroupId} {g : ManagedGroup S} (h : b.Books joins id g) :
    g.info.IsOrdered b.network.context.parameters := by
  obtain ⟨t, ht, -, -, htally⟩ := h.tally
  rw [← h.named] at ht
  exact ⟨h.tier.trans (congrArg GroupId.tier h.named.symm), t, _, ht, htally⟩

/-- A member, with the joins behind its key. Its snapshots tally, those of groups other than its own
in order. A slot that it waits for is free. It has the key after its joins, and counts no more
members than there are joins. -/
structure Stands (b : Broadcast S ρ) (joins : Finset Nat) (m : Member S ρ) : Prop where
  known : ∀ id g, m.groups[id]? = some g → g.id = id ∧
    g.IsTallied b.network.context.parameters ∧
    (m.joinedGroup? ≠ some id → g.IsOrdered b.network.context.parameters)
  awaited : m.phase = .joining → ∀ pending, m.engine.pending = some pending →
    ∀ g, m.groups[pending.group]? = some g → g.isOccupied pending.slot = false
  key : m.phase = .joined → ∀ s, m.engine.membership = some s →
    s.key = b.keyAfter s.group joins ∧
    ∀ g, m.groups[s.group]? = some g → g.memberCount.toNat ≤ joins.card

theorem Stands.grow {m : Member S ρ} (hb : b.Grows b') (hc : b.Covers joins)
    (h : b.Stands joins m) : b'.Stands joins m := by
  refine ⟨?_, h.awaited, ?_⟩
  · rw [hb.context]
    exact h.known
  · intro hphase s hs
    rw [hb.keyAfter hc]
    exact h.key hphase s hs

end Broadcast

/-! ## Steps of the coordinator -/

namespace Broadcast

variable [S.AbelianSources] {b : Broadcast S ρ} {joins : Finset Nat} {secrets : SlotSecrets S}

theorem books_bootstrap (hp : b.network.context.parameters.IsSetup secrets) {seq tier : UInt16}
    {expiry : Timestamp} {g : ManagedGroup S}
    (h : ManagedGroup.bootstrap b.network.context.parameters seq tier expiry = .ok g) :
    b.Books ∅ g.info.id g := by
  cases ht : b.network.context.parameters.tier tier with
  | error e =>
    rw [ManagedGroup.bootstrap, ht] at h
    simp at h
  | ok t =>
    obtain ⟨g', h', -, -, -, hbalanced⟩ :=
      ManagedGroup.balanced_bootstrap seq expiry ht (hp.isShaped ht)
    obtain rfl := Except.ok.inj (h.symm.trans h')
    rw [ManagedGroup.bootstrap, ht] at h
    obtain rfl := Except.ok.inj h
    refine ⟨rfl, rfl, ⟨t, ht, rfl, hbalanced.length_shares, Snapshot.tallies_free rfl rfl⟩, ?_⟩
    rw [keyAfter_empty]
    show _ = Parameters.foundingKey _ tier
    rw [Parameters.foundingKey, ht]

/-- **A join that the coordinator admits** is let in. It is one of those behind the key of its group
from then on, and behind the key of its acknowledgement, which is sent next. -/
theorem Books.seat [Generator ρ] (hp : b.network.context.parameters.IsSetup secrets) {join : Join S}
    {c : Coordinator S ρ} {g : ManagedGroup S} (h : b.Books joins join.proof.group g)
    (hg : Coordinator.Admits b.network.context b.network.directory join c g)
    (hslot : join.proof.slot.toNat = joins.card) (hcovers : b.Covers joins) {index : Nat}
    (hindex : b.message? index = some (.join join)) (hnew : index ∉ joins) :
    ∃ share g', g.seat b.network.context.parameters b.network.directory join.proof =
        (.ok share, g') ∧
      b.Books (insert index joins) join.proof.group g' ∧
      b.Acknowledges b.sent.length (insert index joins)
        ⟨join.proof.group, join.proof.slot, join.proof.keyId, share, g'.info.key⟩ := by
  obtain ⟨t, ht, hscale, hlength, htally⟩ := h.tally
  have ht' : b.network.context.parameters.tier join.proof.tier = .ok t := by
    rw [← hg.tier, h.tier, ht]
  obtain ⟨key, hfits, hkey⟩ := JoinProof.fits_of_tier ht' hg.valid
  have hsize : t.scale < UInt32.size := (hp.isShaped ht').scale_lt
  have hfree := htally.notMem hg.free
  have hlt := htally.count_lt hfits.slot_lt hfree
  obtain ⟨share, shares, hseat, hlength', -, -⟩ := ManagedGroup.seat_eq_ok (hp.isShaped ht') ht'
    hfits hkey hlength (by omega)
  have hchange : b.change? index = some (Contribution.change t ⟨join.proof, key⟩) := by
    rw [change?, hindex]
    simp only [JoinProof.keyChange_eq_ok ht' hfits.slot_lt hkey, Except.toOption]
  have hcovers' : b.Covers (insert index joins) := by
    intro i hi
    rcases Finset.mem_insert.1 hi with rfl | hi
    · exact ⟨_, hchange⟩
    · exact hcovers i hi
  have hcard := Finset.card_insert_of_notMem hnew
  have hkey' : g.info.key.apply (Contribution.change t ⟨join.proof, key⟩) =
      b.keyAfter join.proof.group (insert index joins) := by
    rw [keyAfter_insert hnew hchange, h.key]
  refine ⟨share, _, hseat, ⟨h.named, h.tier, ⟨t, ht, hscale, hlength', ?_⟩, hkey'⟩,
    ⟨hcovers', fun i hi => hcovers'.lt hi, hcard.trans (hslot ▸ rfl), ⟨t, ht, hfits.slot_lt⟩,
      hkey'⟩⟩
  rw [hcard, Finset.range_add_one, ← hslot]
  exact (hslot ▸ htally).fill hsize hfits.slot_lt (hslot ▸ hfree) rfl rfl

end Broadcast

/-! ## Steps of a member -/

namespace Broadcast.Stands

variable [S.AbelianSources] {b : Broadcast S ρ} {joins : Finset Nat} {m m' : Member S ρ}

theorem of_keepsPlace (h : b.Stands joins m) (hkeeps : m.KeepsPlace m') : b.Stands joins m' := by
  have hjoined := hkeeps.joinedGroup?_eq
  obtain ⟨-, hphase, hengine, hgroups, -⟩ := hkeeps
  refine ⟨?_, ?_, ?_⟩
  · rw [hgroups, hjoined]
    exact h.known
  · rw [hphase, hengine, hgroups]
    exact h.awaited
  · rw [hphase, hengine, hgroups]
    exact h.key

theorem heartbeat (h : b.Stands joins m) {hb : Heartbeat S}
    (hordered : ∀ g ∈ hb.groups, g.IsOrdered b.network.context.parameters)
    (hm : Member.Hears hb m m') : b.Stands joins m' := by
  refine ⟨?_, ?_, ?_⟩
  · intro id g hg
    rcases hm.known id g hg with ⟨hg, hown⟩ | ⟨hmem, hid, -⟩
    · obtain ⟨hid, htallied, hother⟩ := h.known id g hg
      exact ⟨hid, htallied, fun hne => hother fun hjoined => hne (hown hjoined)⟩
    · exact ⟨hid, (hordered g hmem).isTallied, fun _ => hordered g hmem⟩
  · intro hphase
    rcases hm.phase with hunset | ⟨hjoined, -⟩
    · rw [hunset] at hphase
      simp at hphase
    · rw [hjoined] at hphase
      simp at hphase
  · intro hphase s hs
    rcases hm.phase with hunset | ⟨-, hjoined⟩
    · rw [hunset] at hphase
      simp at hphase
    · obtain ⟨hkey, hcount⟩ := h.key hjoined s (hm.membership ▸ hs)
      refine ⟨hkey, fun g hg => ?_⟩
      rcases hm.known s.group g hg with ⟨hg, -⟩ | ⟨-, -, hother⟩
      · exact hcount g hg
      · exact absurd (Member.joinedGroup?_eq_some.2 ⟨hphase, s, hs, rfl⟩) hother

/-- **What a member sends** is true: it knows the groups that it names by their tiers. -/
theorem told (h : b.Stands joins m) {x : Message S} (hx : m.MaySend x) (index : Nat)
    (stamp : Finset Nat) : b.Told index stamp x := by
  cases x with
  | join join =>
    obtain ⟨g, hg, htier⟩ := hx
    obtain ⟨hid, ⟨hgtier, -⟩, -⟩ := h.known _ g hg
    show join.proof.tier = join.proof.group.tier
    rw [htier, hgtier, hid]
  | heartbeat _ => exact absurd hx id
  | joinAck _ => exact absurd hx id
  | _ => trivial

variable [Generator ρ]

theorem notifyPosition (h : b.Stands joins m) (ctx : Context S) (a : Assignment)
    (directory : Directory S) : b.Stands joins (m.handleNotifyPosition ctx a directory).2.1 := by
  have hassigned := Member.assigned_handleNotifyPosition ctx a directory m
  generalize m.handleNotifyPosition ctx a directory = r at hassigned ⊢
  cases hassigned with
  | passed | unscaled => exact h
  | unproved takes =>
    have hphase := takes.unset
    refine ⟨fun id g hg => ?_, by simp [hphase], by simp [hphase]⟩
    obtain ⟨hid, htallied, hother⟩ := h.known id g hg
    exact ⟨hid, htallied, fun _ => hother (by simp [takes.joinedGroup?_eq_none])⟩
  | proved takes proves made =>
    subst proves
    obtain ⟨-, -, pending, hpending, hgroup, hslot⟩ := Engine.prove_names made
    refine ⟨fun id g hg => ?_, ?_, by simp⟩
    · obtain ⟨hid, htallied, hother⟩ := h.known id g hg
      exact ⟨hid, htallied, fun _ => hother (by simp [takes.joinedGroup?_eq_none])⟩
    -- The slot that is waited for was free when the proof was made.
    · intro _ pending' hpending' g' hg'
      obtain rfl : pending = pending' := Option.some.inj (hpending.symm.trans hpending')
      rw [hgroup] at hg'
      obtain rfl := Option.some.inj (takes.known.symm.trans hg')
      rw [hslot]
      exact takes.free

/-- **Following a join** brings its part of the key and one more member. -/
theorem join {secrets : SlotSecrets S} (hp : b.network.context.parameters.IsSetup secrets)
    (h : b.Stands joins m) {join : Join S} (htier : join.proof.tier = join.proof.group.tier)
    {index : Nat} (hindex : b.message? index = some (.join join)) (hnew : index ∉ joins)
    (stamp : Finset Nat) :
    b.Stands (m.accountAfter b.network.context b.network.directory (.join join) index stamp joins)
      (m.handleJoin b.network.context b.network.directory join).2 := by
  rcases Member.handleJoin_cases b.network.context b.network.directory join m with
    ⟨hno, generator, hm⟩ | ⟨g, engine, generator, result, m', hfollows, hfill, hm⟩
  · rw [hm, Member.accountAfter, if_neg hno]
    exact h.of_keepsPlace ⟨rfl, rfl, rfl, rfl, rfl⟩
  · rw [Member.accountAfter, if_pos ⟨g, engine, hfollows⟩]
    obtain ⟨hphase, s, hs, hsgroup⟩ := Member.joinedGroup?_eq_some.1 hfollows.own
    obtain ⟨s', change, share, hs', hchange, hengine⟩ := Engine.absorb_changes hfollows.absorb
    obtain rfl : s = s' := Option.some.inj (hs.symm.trans hs')
    obtain ⟨hkey, hcount⟩ := h.key hphase s hs
    obtain ⟨hgid, ⟨hgtier, t, taken, ht, htally⟩, -⟩ := h.known _ g hfollows.known
    have ht' : b.network.context.parameters.tier join.proof.tier = .ok t := by
      rw [htier, ← hgid, ht]
    obtain ⟨key, hfits, -⟩ := JoinProof.fits_of_tier ht' hfollows.valid
    -- There is room for one more count, since the slot of the join is free and the counted ones
    -- are different slots.
    have hscale : t.scale < UInt32.size := (hp.isShaped ht').scale_lt
    have hfree := htally.notMem hfollows.free
    have hlt := htally.count_lt hfits.slot_lt hfree
    rw [Member.fillSlot_of_some (m := { m with engine, generator }) hfollows.known _ _
      (by omega)] at hfill
    obtain ⟨rfl, rfl⟩ := Prod.mk.inj hfill
    rw [hm, hengine]
    have hchange? : b.change? index = some change := by
      rw [Broadcast.change?, hindex]
      simp only [hchange, Except.toOption]
    refine ⟨?_, ?_, ?_⟩
    · intro id g' hg'
      have hjoined : ∀ id', Member.joinedGroup? { m with
          engine := { m.engine with membership := some { s with
            key := s.key.apply change
            decryptionKey := share } } } = some id' ↔ m.joinedGroup? = some id' := fun id' => by
        simp [Member.joinedGroup?, hphase, hs]
      rcases getElem?_insert_cases hg' with ⟨rfl, rfl⟩ | ⟨-, hg'⟩
      · refine ⟨hgid, ⟨hgtier, t, _, ht, htally.fill hscale hfits.slot_lt hfree rfl rfl⟩,
          fun hother => absurd ((hjoined _).2 hfollows.own) hother⟩
      · obtain ⟨hid', htallied, hother⟩ := h.known id g' hg'
        exact ⟨hid', htallied, fun hne => hother fun hown => hne ((hjoined id).2 hown)⟩
    · intro hjoining
      have hjoining : m.phase = .joining := hjoining
      rw [hphase] at hjoining
      simp at hjoining
    · intro _ s'' hs''
      obtain rfl := Option.some.inj hs''
      refine ⟨?_, fun g' hg' => ?_⟩
      · rw [Broadcast.keyAfter_insert hnew hchange?]
        exact congrArg (EncryptionKey.apply · change) hkey
      · simp only [hsgroup, Std.ExtTreeMap.getElem?_insert_self, Option.some.injEq] at hg'
        subst hg'
        rw [Finset.card_insert_of_notMem hnew]
        have hold := hcount g (hsgroup ▸ hfollows.known)
        show (g.memberCount.toNat + 1) % UInt32.size ≤ _
        rw [Nat.mod_eq_of_lt (by omega)]
        omega

/-- **Completing its join** brings the key of the acknowledgement and the joins behind it. -/
theorem joinAck {secrets : SlotSecrets S} (hp : b.network.context.parameters.IsSetup secrets)
    (h : b.Stands joins m) {index : Nat} {stamp : Finset Nat} {ack : JoinAck S}
    (hack : b.Acknowledges index stamp ack) (directory : Directory S) :
    b.Stands (m.accountAfter b.network.context directory (.joinAck ack) index stamp joins)
      (m.handleJoinAck ack).2 := by
  rcases Member.handleJoinAck_cases ack m with ⟨hno, hm⟩ | ⟨pending, hcompletes, hm⟩
  · rw [hm, Member.accountAfter, if_neg hno]
    exact h
  · rw [Member.accountAfter, if_pos ⟨pending, hcompletes⟩, hm]
    -- Until now the member was in no group, so that it knows all groups in order.
    have hknown : ∀ (id : GroupId) (g : Snapshot S), m.groups[id]? = some g → g.id = id ∧
        g.IsOrdered b.network.context.parameters := fun id g hg => by
      obtain ⟨hid, -, hordered⟩ := h.known id g hg
      exact ⟨hid, hordered (by simp [Member.joinedGroup?, hcompletes.joining])⟩
    cases hg : m.groups[ack.group]? with
    | none =>
      show b.Stands stamp (m.admittedBy ack pending.reserved)
      refine ⟨?_, fun hjoining => (by cases hjoining), ?_⟩
      · intro id g hid
        obtain ⟨hgid, hordered⟩ := hknown id g hid
        exact ⟨hgid, hordered.isTallied, fun _ => hordered⟩
      · intro _ s hs
        obtain rfl := Option.some.inj hs
        refine ⟨hack.key, fun g hg' => ?_⟩
        have hg' : m.groups[ack.group]? = some g := hg'
        rw [hg] at hg'
        simp at hg'
    | some g =>
      have hfree : g.isOccupied ack.slot = false := by
        rw [← hcompletes.slot]
        exact h.awaited hcompletes.joining pending hcompletes.awaited g (hcompletes.group ▸ hg)
      obtain ⟨hgid, hgtier, t, n, ht, htally⟩ := hknown _ g hg
      obtain ⟨t', ht', hslot⟩ := hack.slot_lt
      obtain rfl : t = t' := by
        rw [hgid, ht'] at ht
        exact (Except.ok.inj ht).symm
      have hscale : t.scale < UInt32.size := (hp.isShaped ht').scale_lt
      have hnotMem := htally.notMem hfree
      have hlt := htally.count_lt hslot hnotMem
      have hle := htally.le_of_free hfree
      simp only [hfree]
      rw [if_neg (by simp),
        Member.fillSlot_of_some (m := m.admittedBy ack pending.reserved) hg _ _ (by omega)]
      refine ⟨?_, fun hjoining => (by cases hjoining), ?_⟩
      · intro id g' hg'
        rcases getElem?_insert_cases hg' with ⟨rfl, rfl⟩ | ⟨-, hg'⟩
        · exact ⟨hgid, ⟨hgtier, t, _, ht, htally.fill hscale hslot hnotMem rfl rfl⟩,
            fun hother => absurd rfl hother⟩
        · obtain ⟨hgid', hordered⟩ := hknown id g' hg'
          exact ⟨hgid', hordered.isTallied, fun _ => hordered⟩
      · intro _ s hs
        obtain rfl := Option.some.inj hs
        refine ⟨hack.key, fun g' hg' => ?_⟩
        simp only [Std.ExtTreeMap.getElem?_insert_self, Option.some.injEq] at hg'
        subst hg'
        rw [hack.card]
        show (g.memberCount.toNat + 1) % UInt32.size ≤ _
        rw [Nat.mod_eq_of_lt (by omega), htally.count_range]
        omega

/-- The joins behind the key of a member are ones that it heard of. -/
theorem covers_accountAfter {index : Nat} {stamp : Finset Nat} {msg : Message S}
    (hcovers : b.Covers joins) (hlt : ∀ i ∈ joins, i < index) (hindex : b.message? index = some msg)
    (htold : b.Told index stamp msg) (m : Member S ρ) :
    let joins' := m.accountAfter b.network.context b.network.directory msg index stamp joins
    b.Covers joins' ∧ ∀ i ∈ joins', i < index + 1 := by
  have hsame : b.Covers joins ∧ ∀ i ∈ joins, i < index + 1 :=
    ⟨hcovers, fun i hi => Nat.lt_succ_of_lt (hlt i hi)⟩
  cases msg with
  | join join =>
    simp only [Member.accountAfter]
    split
    · next hfollows =>
      obtain ⟨g, engine, hfollows⟩ := hfollows
      obtain ⟨_, change, _, -, hchange, -⟩ := Engine.absorb_changes hfollows.absorb
      refine ⟨?_, ?_⟩
      -- A join that is followed could be folded in, so the frame that brought it changes the key.
      · intro i hi
        rcases Finset.mem_insert.1 hi with rfl | hi
        · refine ⟨change, ?_⟩
          rw [Broadcast.change?, hindex]
          simp only [hchange, Except.toOption]
        · exact hcovers i hi
      · intro i hi
        rcases Finset.mem_insert.1 hi with rfl | hi
        · exact Nat.lt_succ_self i
        · exact hsame.2 i hi
    · exact hsame
  | joinAck ack =>
    simp only [Member.accountAfter]
    split
    · exact ⟨htold.covers, fun i hi => Nat.lt_succ_of_lt (htold.earlier i hi)⟩
    · exact hsame
  | _ => exact hsame

/-- **Whatever a member handles**, it stands where its joins put it. -/
theorem handle {secrets : SlotSecrets S} (hp : b.network.context.parameters.IsSetup secrets)
    (h : b.Stands joins m) {index : Nat} {stamp : Finset Nat} {msg : Message S}
    (hindex : b.message? index = some msg) (htold : b.Told index stamp msg) (hnew : index ∉ joins)
    (now : Timestamp) :
    b.Stands (m.accountAfter b.network.context b.network.directory msg index stamp joins)
      (m.handle b.network.context now msg b.network.directory).2.1 := by
  cases msg with
  | heartbeat hb => exact h.heartbeat htold (Member.handleHeartbeat_hears now hb m)
  | notifyPosition a => exact h.notifyPosition b.network.context a b.network.directory
  | join join => exact h.join hp htold hindex hnew stamp
  | joinAck ack => exact h.joinAck hp htold b.network.directory
  | heartbeatAck _ => exact h
  | keyEncapNotify | keyEncap | keyUpdate | keyUpdateAck =>
    exact h.of_keepsPlace (Member.keepsPlace_handle (by trivial) now b.network.directory)

theorem tick (h : b.Stands joins m) (ctx : Context S) (now : Timestamp) (timer : Timer) :
    b.Stands joins (m.tick ctx now timer).2 :=
  h.of_keepsPlace (m.keepsPlace_tick ctx now timer).1

end Broadcast.Stands

end GroupKey
