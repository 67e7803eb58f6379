import GroupKey.Proofs.Agreement.Completeness
import GroupKey.Proofs.Group.Balance
import GroupKey.Proofs.Node.MemberState

/-!
# Members that track the groups of the coordinator

A member hears of a group in heartbeats and then only of the joins to its own. So what it knows of
another group may be old, but it is never more than the coordinator knows, and what it knows of its
own group is what the coordinator knows. The number of members tells how old a snapshot is: a group
never loses a member, and with each member it gets a new key.

* `Member.Tracks` — a member beside the groups that the coordinator holds.
* `Tracks.begins` — a new round, before the member has heard of it.
* `Tracks.heartbeat` — a heartbeat, after which the member knows all groups as they are.
* `handleNotifyPosition_ok` — an assignment is passed over, or answered with an honest proof.
* `Tracks.join` — an honest join, which the members of its group follow and no one else.
* `Tracks.joinAck` — the acknowledgement, by which the joiner catches up.
-/

namespace GroupKey

variable {S : Suite} {ρ : Type}

namespace Snapshot

/-- The snapshot has fewer members than a later one, or is the same. -/
def IsBehind (known info : Snapshot S) : Prop :=
  known.memberCount ≤ info.memberCount ∧ (known.memberCount = info.memberCount → known = info)

theorem IsBehind.refl (info : Snapshot S) : info.IsBehind info := ⟨UInt32.le_refl _, fun _ => rfl⟩

/-- The snapshot after a member has taken a slot, under the new key. -/
def seated (slot : UInt32) (key : EncryptionKey S) (info : Snapshot S) : Snapshot S :=
  { info with slots := info.slots.occupy slot, memberCount := info.memberCount + 1, key }

theorem IsBehind.seated {known info : Snapshot S} (h : known.IsBehind info) {slot : UInt32}
    {key : EncryptionKey S} (hcount : info.memberCount.toNat + 1 < UInt32.size) :
    known.IsBehind (info.seated slot key) := by
  have hle := UInt32.le_iff_toNat_le.1 h.1
  have hnext : (info.seated slot key).memberCount.toNat = info.memberCount.toNat + 1 := by
    show (info.memberCount.toNat + 1) % UInt32.size = _
    exact Nat.mod_eq_of_lt hcount
  refine ⟨UInt32.le_iff_toNat_le.2 (by omega), fun heq => ?_⟩
  have := congrArg UInt32.toNat heq
  omega

end Snapshot

/-- An honest proof, made with a published key, for a free slot of the group. -/
structure Contribution.Suits (p : Parameters S) (directory : Directory S) (t : SizeTier S)
    (reserved : S.G1) (info : Snapshot S) (made : Contribution S) : Prop where
  free : info.isOccupied made.proof.slot = false
  tier : made.proof.tier = info.tier
  size : p.tier info.tier = .ok t
  honest : made.IsMade p t reserved
  published : directory.get? made.proof.keyId = some made.key

namespace Contribution.Suits

variable {p : Parameters S} {directory directory' : Directory S} {t : SizeTier S} {reserved : S.G1}
  {made : Contribution S} {g : ManagedGroup S} {id : GroupId}

theorem mono {info : Snapshot S} (h : made.Suits p directory t reserved info)
    (hd : directory'.Extends directory) : made.Suits p directory' t reserved info :=
  { h with published := hd _ _ h.published }

theorem tier_eq {info : Snapshot S} (h : made.Suits p directory t reserved info) :
    p.tier made.proof.tier = .ok t := by
  rw [h.tier, h.size]

theorem scale_eq (h : made.Suits p directory t reserved g.info) (hg : g.IsConsistent p id) :
    g.scale = t.scale :=
  hg.scale_eq h.size

theorem count_lt (h : made.Suits p directory t reserved g.info) {secrets : SlotSecrets S}
    (hp : p.IsSetup secrets) (hg : g.IsConsistent p id) :
    g.info.memberCount.toNat + 1 < UInt32.size :=
  hg.count_lt hp.hasNumberedSlots ((h.scale_eq hg).symm ▸ h.honest.fits.slot_lt) h.free

end Contribution.Suits

namespace Member

variable {ctx : Context S} {m m' : Member S ρ} {k : Nat}
  {groups : Std.ExtTreeMap GroupId (ManagedGroup S)}

/-- The place that a joined member has taken: its group and its slot. -/
def place? (m : Member S ρ) : Option (GroupId × UInt32) :=
  if m.phase = .joined then m.engine.membership.map fun s => (s.group, s.slot) else none

/-- What the member knows of the groups that the coordinator holds. It misses no slots. It knows of
no group with a number from `k` on. What it knows of a group is not ahead of the coordinator, and it
knows its own group just as the coordinator does. -/
structure Tracks (k : Nat) (groups : Std.ExtTreeMap GroupId (ManagedGroup S)) (m : Member S ρ) :
    Prop where
  gaps : m.gaps = ∅
  numbered : ∀ (id : GroupId) (known : Snapshot S), m.groups[id]? = some known → id.seq.toNat < k
  behind : ∀ (id : GroupId) (known : Snapshot S) (g : ManagedGroup S), m.groups[id]? = some known →
    groups[id]? = some g → known.IsBehind g.info
  own : ∀ (id : GroupId) (g : ManagedGroup S), m.joinedGroup? = some id → groups[id]? = some g →
    m.groups[id]? = some g.info

/-- The member knows all groups as the coordinator does, and waits for no acknowledgement. -/
structure IsUpToDate (groups : Std.ExtTreeMap GroupId (ManagedGroup S)) (m : Member S ρ) :
    Prop where
  phase : m.phase ≠ .joining
  known : ∀ (id : GroupId) (g : ManagedGroup S), groups[id]? = some g →
    m.groups[id]? = some g.info

theorem Tracks.of_same (h : m.Tracks k groups) (hgroups : m'.groups = m.groups)
    (hgaps : m'.gaps = m.gaps) (hown : ∀ id, m'.joinedGroup? = some id → m.joinedGroup? = some id) :
    m'.Tracks k groups := by
  obtain ⟨gaps, numbered, behind, own⟩ := h
  exact ⟨by rwa [hgaps], by rwa [hgroups], by rwa [hgroups], fun id g hid hg => by
    rw [hgroups]
    exact own id g (hown id hid) hg⟩

/-- No member has a place that is free in a group held. -/
theorem Tracks.place?_ne (h : m.Tracks k groups) (hc : m.IsConsistent ctx) {id : GroupId}
    {g : ManagedGroup S} (hheld : groups[id]? = some g) {slot : UInt32}
    (hfree : g.info.isOccupied slot = false) : m.place? ≠ some (id, slot) := by
  intro hplace
  unfold place? at hplace
  split at hplace
  · next hphase =>
    obtain ⟨s, hs, heq⟩ := Option.map_eq_some_iff.1 hplace
    obtain ⟨rfl, rfl⟩ := Prod.mk.inj heq
    have hid : m.joinedGroup? = some s.group := joinedGroup?_eq_some.2 ⟨hphase, s, hs, rfl⟩
    obtain ⟨s', known, hs', -, hknown, -, hocc⟩ := hc.getElem?_own hid
    obtain rfl : s = s' := Option.some.inj (hs.symm.trans hs')
    obtain rfl : known = g.info := Option.some.inj (hknown.symm.trans (h.own _ g hid hheld))
    rw [hfree] at hocc
    simp at hocc
  · simp at hplace

/-! ## Heartbeats -/

/-- **The groups of a new round.** A member that has not heard of them yet tracks them all the same:
a new group has a number that it does not know. -/
theorem Tracks.begins {c c' : Coordinator S ρ} {now : Timestamp} (h : m.Tracks k c.groups)
    (hc : m.IsConsistent ctx) (hb : Coordinator.Begins ctx now c c')
    (hnext : c.nextGroupSeq.toNat = k) {k' : Nat} (hk : k ≤ k') : m.Tracks k' c'.groups := by
  -- A group that the member knows of was there before.
  have hold : ∀ (id : GroupId) (known : Snapshot S) (g : ManagedGroup S),
      m.groups[id]? = some known → c'.groups[id]? = some g → c.groups[id]? = some g := by
    intro id known g hknown hg
    rcases hb.groups with ⟨hgroups, -, -⟩ | ⟨new, hseq, -, hgroups, -, -⟩
    · rw [hgroups] at hg
      exact Coordinator.of_getElem?_live hg
    · rw [hgroups] at hg
      rcases getElem?_insert_cases hg with ⟨rfl, -⟩ | ⟨-, hg⟩
      · have hlt := h.numbered _ known hknown
        rw [hseq, hnext] at hlt
        exact absurd hlt (Nat.lt_irrefl k)
      · exact Coordinator.of_getElem?_live hg
  refine ⟨h.gaps, fun id known hknown => Nat.lt_of_lt_of_le (h.numbered id known hknown) hk,
    fun id known g hknown hg => h.behind id known g hknown (hold id known g hknown hg),
    fun id g hid hg => ?_⟩
  obtain ⟨-, known, -, -, hknown, -⟩ := hc.getElem?_own hid
  exact h.own id g hid (hold id known g hknown hg)

/-- A snapshot that is ahead of what is known is known from then on. -/
theorem merge_of_behind {joined : Option GroupId} {info : Snapshot S}
    (hbehind : ∀ known, m.groups[info.id]? = some known → known.IsBehind info)
    (hown : joined = some info.id → m.groups[info.id]? = some info) :
    ∃ groups, merge joined m info = { m with groups } ∧ groups[info.id]? = some info ∧
      ∀ id, info.id ≠ id → groups[id]? = m.groups[id]? := by
  have htaken : ∃ groups, { m with groups := m.groups.insert info.id info } = { m with groups } ∧
      groups[info.id]? = some info ∧ ∀ id, info.id ≠ id → groups[id]? = m.groups[id]? :=
    ⟨_, rfl, Std.ExtTreeMap.getElem?_insert_self, fun id hne => getElem?_insert_of_ne hne⟩
  unfold merge
  cases hknown : m.groups[info.id]? with
  | none => exact htaken
  | some known =>
    obtain ⟨hle, heq⟩ := hbehind known hknown
    simp only
    split
    · next hge =>
      obtain rfl := heq (UInt32.le_antisymm hle hge)
      exact ⟨m.groups, rfl, hknown, fun _ _ => rfl⟩
    · next hlt =>
      split
      · next hjoined =>
        obtain rfl := Option.some.inj (hknown.symm.trans (hown hjoined))
        exact absurd (UInt32.le_refl _) hlt
      · exact htaken

theorem merge_all_of_behind (m : Member S ρ) (joined : Option GroupId) (infos : List (Snapshot S))
    (hnames : ∀ info ∈ infos, ∀ info' ∈ infos, info.id = info'.id → info = info')
    (hbehind : ∀ info ∈ infos, ∀ known, m.groups[info.id]? = some known → known.IsBehind info)
    (hown : ∀ info ∈ infos, joined = some info.id → m.groups[info.id]? = some info) :
    ∃ groups, infos.foldl (merge joined) m = { m with groups } ∧
      (∀ info ∈ infos, groups[info.id]? = some info) ∧
      ∀ id, (∀ info ∈ infos, info.id ≠ id) → groups[id]? = m.groups[id]? := by
  induction infos generalizing m with
  | nil => exact ⟨m.groups, rfl, by simp, fun _ _ => rfl⟩
  | cons info infos ih =>
    obtain ⟨first, hfirst, htold, hrest⟩ :=
      merge_of_behind (hbehind info List.mem_cons_self) (hown info List.mem_cons_self)
    -- Of a snapshot yet to come the member knows what it did, unless it is the one just told.
    have hcases : ∀ info' ∈ infos, (info' = info ∧ first[info'.id]? = some info') ∨
        first[info'.id]? = m.groups[info'.id]? := by
      intro info' hinfo'
      by_cases hid : info.id = info'.id
      · obtain rfl := hnames info List.mem_cons_self info' (List.mem_cons_of_mem _ hinfo') hid
        exact .inl ⟨rfl, htold⟩
      · exact .inr (hrest _ hid)
    obtain ⟨groups, hgroups, htold', hrest'⟩ := ih { m with groups := first }
      (fun a ha b hb => hnames a (List.mem_cons_of_mem _ ha) b (List.mem_cons_of_mem _ hb))
      (fun info' hinfo' known hknown => by
        rcases hcases info' hinfo' with ⟨-, hsame⟩ | hsame
        · obtain rfl := Option.some.inj (hsame.symm.trans hknown)
          exact .refl _
        · exact hbehind info' (List.mem_cons_of_mem _ hinfo') known (hsame.symm.trans hknown))
      (fun info' hinfo' hjoined => by
        rcases hcases info' hinfo' with ⟨-, hsame⟩ | hsame
        · exact hsame
        · exact hsame.trans (hown info' (List.mem_cons_of_mem _ hinfo') hjoined))
    refine ⟨groups, by rw [List.foldl_cons, hfirst, hgroups], fun info' hinfo' => ?_,
      fun id hid => ?_⟩
    · rcases List.mem_cons.1 hinfo' with rfl | hinfo'
      · by_cases hagain : ∃ other ∈ infos, other.id = info'.id
        · obtain ⟨other, hother, hid⟩ := hagain
          obtain rfl := hnames other (List.mem_cons_of_mem _ hother) info' List.mem_cons_self hid
          exact htold' other hother
        · rw [hrest' _ fun other hother hid => hagain ⟨other, hother, hid⟩]
          exact htold
      · exact htold' info' hinfo'
    · rw [hrest' id fun other hother => hid other (List.mem_cons_of_mem _ hother)]
      exact hrest id (hid info List.mem_cons_self)

theorem gaps_dropExpired (now : Timestamp) (hgaps : m.gaps = ∅) :
    (m.giveUpJoin.dropExpired now).gaps = ∅ := by
  have hgive : m.giveUpJoin.gaps = ∅ := by
    unfold giveUpJoin
    split <;> exact hgaps
  unfold dropExpired
  simp only
  split
  · split
    · exact hgive
    · rfl
  · exact hgive

/-- **A heartbeat brings a member up to date**, and does not give it a place. -/
theorem Tracks.heartbeat (h : m.Tracks k groups) (hc : m.IsConsistent ctx) (now : Timestamp)
    {hb : Heartbeat S} (hnamed : ∀ (id : GroupId) (g : ManagedGroup S), groups[id]? = some g →
      g.info.id = id ∧ id.seq.toNat < k)
    (htold : ∀ info, info ∈ hb.groups ↔
      ∃ (id : GroupId) (g : ManagedGroup S), groups[id]? = some g ∧ g.info = info)
    (hm' : (m.handleHeartbeat now hb).2 = m') :
    m'.Tracks k groups ∧ m'.IsUpToDate groups ∧
      ∀ place, m'.place? = some place → m.place? = some place := by
  obtain ⟨hmembership, hphase, hkept, hown⟩ := dropExpired_giveUpJoin now m
  have hgaps := gaps_dropExpired now h.gaps
  obtain ⟨hgive, hidle⟩ := hc.giveUpJoin
  obtain ⟨-, hidle⟩ := hgive.dropExpired hidle now
  obtain ⟨session, rfl⟩ : ∃ session, m' = { hb.groups.foldl
      (merge (m.giveUpJoin.dropExpired now).joinedGroup?) (m.giveUpJoin.dropExpired now) with
        session } := ⟨_, hm'.symm⟩
  clear hm'
  generalize m.giveUpJoin.dropExpired now = m₁ at *
  -- What is left of the groups is tracked, the own one included.
  have hown₁ : ∀ (id : GroupId) (g : ManagedGroup S), m₁.joinedGroup? = some id →
      groups[id]? = some g → m₁.groups[id]? = some g.info := by
    intro id g hid hg
    obtain ⟨hjoined₁, s, hs, hgroup⟩ := joinedGroup?_eq_some.1 hid
    obtain ⟨known, hknown⟩ := hown id hid
    have hjoined : m.joinedGroup? = some id := by
      rcases hphase with hunset | ⟨-, hjoined⟩
      · simp [hunset] at hjoined₁
      · exact joinedGroup?_eq_some.2 ⟨hjoined, s, hmembership ▸ hs, hgroup⟩
    rw [hknown, ← h.own id g hjoined hg, (hkept id known hknown).1]
  have hname : ∀ info ∈ hb.groups, ∃ g : ManagedGroup S, groups[info.id]? = some g ∧
      g.info = info := by
    intro info hinfo
    obtain ⟨id, g, hg, rfl⟩ := (htold info).1 hinfo
    exact ⟨g, (hnamed id g hg).1.symm ▸ hg, rfl⟩
  obtain ⟨known, hmerged, hknown, hrest⟩ := merge_all_of_behind m₁ m₁.joinedGroup? hb.groups
    (fun info hinfo info' hinfo' hid => by
      obtain ⟨g, hg, rfl⟩ := hname info hinfo
      obtain ⟨g', hg', rfl⟩ := hname info' hinfo'
      rw [hid, hg', Option.some.injEq] at hg
      rw [hg])
    (fun info hinfo old hold => by
      obtain ⟨g, hg, rfl⟩ := hname info hinfo
      exact h.behind _ old g (hkept _ old hold).1 hg)
    (fun info hinfo hjoined => by
      obtain ⟨g, hg, rfl⟩ := hname info hinfo
      exact hown₁ _ g hjoined hg)
  -- A group is known as it is held, or as before if it is not held.
  have hheld : ∀ (id : GroupId) (g : ManagedGroup S), groups[id]? = some g →
      known[id]? = some g.info := by
    intro id g hg
    have hinfo := hknown g.info ((htold _).2 ⟨id, g, hg, rfl⟩)
    rwa [(hnamed id g hg).1] at hinfo
  rw [hmerged]
  refine ⟨⟨hgaps, fun id old hold => ?_, fun id old g hold hg => ?_,
    fun id g _ hg => hheld id g hg⟩,
    ⟨hidle, hheld⟩, fun place hplace => ?_⟩
  · cases hg : groups[id]? with
    | some g => exact (hnamed id g hg).2
    | none =>
      have hother : ∀ info ∈ hb.groups, info.id ≠ id := by
        rintro info hinfo rfl
        obtain ⟨g, hg', -⟩ := hname info hinfo
        simp [hg] at hg'
      have hold : known[id]? = some old := hold
      rw [hrest id hother] at hold
      exact h.numbered id old (hkept id old hold).1
  · obtain rfl := Option.some.inj (Eq.trans hold.symm (hheld id g hg))
    exact .refl _
  · have hplace : m₁.place? = some place := hplace
    unfold place? at hplace ⊢
    rcases hphase with hunset | ⟨hjoined₁, hjoined⟩
    · simp [hunset] at hplace
    · rw [if_pos hjoined₁, hmembership] at hplace
      rwa [if_pos hjoined]

/-! ## Assignments -/

/-- The member has sent a proof for a slot of a group, which it knows by `info`, and waits for its
acknowledgement. -/
structure Applies (p : Parameters S) (directory : Directory S) (t : SizeTier S)
    (made : Contribution S) (reserved : S.G1) (info : Snapshot S) (m : Member S ρ) : Prop where
  phase : m.phase = .joining
  known : m.groups[made.proof.group]? = some info
  suits : made.Suits p directory t reserved info
  pending : m.engine.pending = some
    ⟨made.proof.group, made.proof.slot, reserved, info.key.apply (made.change t)⟩

theorem Applies.mono {p : Parameters S} {directory directory' : Directory S} {t : SizeTier S}
    {made : Contribution S} {reserved : S.G1} {info : Snapshot S}
    (h : m.Applies p directory t made reserved info) (hd : directory'.Extends directory) :
    m.Applies p directory' t made reserved info :=
  { h with suits := h.suits.mono hd }

theorem Applies.joinedGroup?_eq_none {p : Parameters S} {directory : Directory S} {t : SizeTier S}
    {made : Contribution S} {reserved : S.G1} {info : Snapshot S}
    (h : m.Applies p directory t made reserved info) : m.joinedGroup? = none := by
  simp [joinedGroup?, h.phase]

/-- **What an assignment does, unless it fails.** It is passed over, or the member that it names
answers with a proof that it has made for the slot. -/
theorem handleNotifyPosition_ok [Generator ρ] [S.BilinearPairing] {secrets : SlotSecrets S}
    (hp : ctx.parameters.IsSetup secrets) {a : Assignment} {directory directory' : Directory S}
    (hhonest : m.engine.Honest directory) {ms : List (Message S)}
    (h : m.handleNotifyPosition ctx a directory = (.ok ms, m', directory')) :
    (ms = [] ∧ m' = m ∧ directory' = directory) ∨
      ∃ t made reserved info, m'.Applies ctx.parameters directory' t made reserved info ∧
        a = ⟨made.proof.group, made.proof.slot, m.pid⟩ ∧ ms = [.join ⟨m.pid, made.proof⟩] ∧
        m'.pid = m.pid ∧ m'.groups = m.groups ∧ m'.gaps = m.gaps := by
  have hassigned := assigned_handleNotifyPosition ctx a directory m
  rw [h] at hassigned
  cases hassigned with
  | passed => exact .inl ⟨rfl, rfl, rfl⟩
  | @proved info scale _ proof takes proves made =>
    subst proves
    obtain ⟨t, key, reserved, ht, hmade, htier, hslot, hkey, hpending⟩ :=
      Engine.prove_ok hp hhonest made
    obtain ⟨hgroup, -⟩ := Engine.prove_names made
    refine .inr ⟨t, ⟨proof, key⟩, reserved, info, ⟨rfl, hgroup ▸ takes.known,
      ⟨hslot ▸ takes.free, htier, ht, hmade, hkey⟩, ?_⟩, ?_, rfl, rfl, rfl, rfl⟩
    · rw [hgroup, hslot]
      exact hpending
    · rw [hgroup, hslot, ← takes.addressed]

/-! ## Joins -/

/-- A member that takes over how a group is held now tracks it again. -/
theorem Tracks.insert {groups' : Std.ExtTreeMap GroupId (ManagedGroup S)} (h : m.Tracks k groups)
    {id : GroupId} {known : Snapshot S} (hknown : m.groups[id]? = some known) {g' : ManagedGroup S}
    (hheld : ∀ (id' : GroupId) (g : ManagedGroup S), groups'[id']? = some g →
      id = id' ∧ g' = g ∨ id ≠ id' ∧ groups[id']? = some g)
    (hgroups : m'.groups = m.groups.insert id g'.info) (hgaps : m'.gaps = ∅)
    (hown : ∀ id', m'.joinedGroup? = some id' → id = id' ∨ m.joinedGroup? = some id') :
    m'.Tracks k groups' := by
  refine ⟨hgaps, fun id' known' hknown' => ?_, fun id' known' g hknown' hg => ?_,
    fun id' g hid hg => ?_⟩
  · rw [hgroups] at hknown'
    rcases getElem?_insert_cases hknown' with ⟨rfl, -⟩ | ⟨-, hknown'⟩
    · exact h.numbered id known hknown
    · exact h.numbered id' known' hknown'
  · rw [hgroups] at hknown'
    rcases getElem?_insert_cases hknown' with ⟨rfl, rfl⟩ | ⟨hne, hknown'⟩
    · obtain ⟨-, rfl⟩ | ⟨hne, -⟩ := hheld id g hg
      · exact .refl _
      · exact absurd rfl hne
    · obtain ⟨rfl, -⟩ | ⟨-, hg⟩ := hheld id' g hg
      · exact absurd rfl hne
      · exact h.behind id' known' g hknown' hg
  · rw [hgroups]
    obtain ⟨rfl, rfl⟩ | ⟨hne, hg⟩ := hheld id' g hg
    · exact Std.ExtTreeMap.getElem?_insert_self
    · rw [getElem?_insert_of_ne hne]
      exact h.own id' g ((hown id' hid).resolve_left hne) hg

/-- A group that has admitted a member is ahead of what members of other groups know. -/
theorem Tracks.of_other (h : m.Tracks k groups) {id : GroupId} {g g' : ManagedGroup S}
    (hheld : groups[id]? = some g) {slot : UInt32} {key : EncryptionKey S}
    (hg' : g'.info = g.info.seated slot key) (hcount : g.info.memberCount.toNat + 1 < UInt32.size)
    (hother : m.joinedGroup? ≠ some id) : m.Tracks k (groups.insert id g') := by
  refine ⟨h.gaps, h.numbered, fun id' known g₁ hknown hg₁ => ?_, fun id' g₁ hid hg₁ => ?_⟩
  · rcases getElem?_insert_cases hg₁ with ⟨rfl, rfl⟩ | ⟨-, hg₁⟩
    · rw [hg']
      exact (h.behind id known g hknown hheld).seated hcount
    · exact h.behind id' known g₁ hknown hg₁
  · rcases getElem?_insert_cases hg₁ with ⟨rfl, -⟩ | ⟨-, hg₁⟩
    · exact absurd hid hother
    · exact h.own id' g₁ hid hg₁

section Join

variable {secrets : SlotSecrets S} {directory : Directory S} {t : SizeTier S}
  {made : Contribution S} {reserved : S.G1} {g g' : ManagedGroup S} {pid : UInt32}

theorem Tracks.follows [Generator ρ] [S.BilinearPairing] (hp : ctx.parameters.IsSetup secrets)
    (h : m.Tracks k groups) (hc : m.IsConsistent ctx)
    (hsuits : made.Suits ctx.parameters directory t reserved g.info)
    (hgroup : g.IsConsistent ctx.parameters made.proof.group)
    (hheld : groups[made.proof.group]? = some g) (hpid : pid ≠ m.pid)
    (hown : m.joinedGroup? = some made.proof.group) :
    ∃ engine, Follows ctx directory ⟨pid, made.proof⟩ m g.info engine := by
  have ht := hsuits.tier_eq
  obtain ⟨s, known, hs, -, hknown, -, hocc⟩ := hc.getElem?_own hown
  obtain rfl : g.info = known := Option.some.inj ((h.own _ g hown hheld).symm.trans hknown)
  have hslot : s.slot.toNat < t.scale := by
    rw [← hsuits.scale_eq hgroup]
    exact hgroup.setBits_lt _ ((Bitmap.isOccupied_iff_mem_setBits _ _).1 hocc)
  have hne : s.slot ≠ made.proof.slot := by
    intro heq
    rw [heq, hsuits.free] at hocc
    simp at hocc
  have habsorbed := Engine.absorbed_eq_ok (hp.isShaped ht) ht hsuits.honest.fits hsuits.published
    hslot hne
  obtain ⟨engine, habsorb⟩ : ∃ engine,
      m.engine.absorb ctx.parameters directory made.proof = (.ok (), engine) := by
    rw [Engine.absorb, hs]
    simp only [habsorbed]
    exact ⟨_, rfl⟩
  exact ⟨engine, hpid, hown, hknown, hsuits.free,
    JoinProof.check_of_isMade ht hsuits.honest hsuits.published _, habsorb⟩

/-- **A join that is let in.** The members of its group follow it, and nobody else minds it. -/
theorem Tracks.join [Generator ρ] [S.BilinearPairing] (hp : ctx.parameters.IsSetup secrets)
    (h : m.Tracks k groups)
    (hc : m.IsConsistent ctx) (hsuits : made.Suits ctx.parameters directory t reserved g.info)
    (hgroup : g.IsConsistent ctx.parameters made.proof.group)
    (hheld : groups[made.proof.group]? = some g)
    (hg' : g'.info = g.info.seated made.proof.slot (g.info.key.apply (made.change t)))
    (hpid : pid ≠ m.pid) {result : Except NodeError Unit}
    (hjoin : m.handleJoin ctx directory ⟨pid, made.proof⟩ = (result, m')) :
    m'.Tracks k (groups.insert made.proof.group g') ∧ m'.phase = m.phase ∧
      m'.place? = m.place? := by
  have hcount := hsuits.count_lt hp hgroup
  have ht := hsuits.tier_eq
  rcases handleJoin_cases ctx directory ⟨pid, made.proof⟩ m with
    ⟨hno, generator, hm⟩ | ⟨known, engine, generator, result', m₁, hfollows, hfill, hm⟩
  · rw [hm] at hjoin
    obtain ⟨-, rfl⟩ := Prod.mk.inj hjoin
    -- Only members of the group follow, and this one would have followed.
    have hother : m.joinedGroup? ≠ some made.proof.group := fun hown =>
      hno ⟨g.info, h.follows hp hc hsuits hgroup hheld hpid hown⟩
    exact ⟨(h.of_other hheld hg' hcount hother).of_same rfl rfl fun _ hid => hid, rfl, rfl⟩
  · obtain ⟨hphase, s, hs, hsgroup⟩ := joinedGroup?_eq_some.1 hfollows.own
    have hknown := h.own _ g hfollows.own hheld
    obtain ⟨s₁, known₁, hs₁, -, hknown₁, hkey, -⟩ := hc.getElem?_own hfollows.own
    obtain rfl : s = s₁ := Option.some.inj (hs.symm.trans hs₁)
    obtain rfl : g.info = known₁ := Option.some.inj (hknown.symm.trans hknown₁)
    obtain ⟨s₂, change, share, hs₂, hchange, rfl⟩ := Engine.absorb_changes hfollows.absorb
    obtain rfl : s = s₂ := Option.some.inj (hs.symm.trans hs₂)
    obtain rfl : made.change t = change := by
      rw [JoinProof.keyChange_eq_ok ht hsuits.honest.fits.slot_lt hsuits.published] at hchange
      exact Except.ok.inj hchange
    rw [fillSlot_of_some (m := { m with engine := { m.engine with membership := some { s with
        key := s.key.apply (made.change t), decryptionKey := share } }, generator }) hknown _ _
      hcount] at hfill
    obtain ⟨rfl, rfl⟩ := Prod.mk.inj hfill
    rw [hm] at hjoin
    obtain ⟨-, rfl⟩ := Prod.mk.inj hjoin
    refine ⟨h.insert hknown (fun id' g₁ hg₁ => getElem?_insert_cases hg₁) ?_ ?_ ?_, rfl, ?_⟩
    · rw [hg', Snapshot.seated, hkey]
      rfl
    · rw [h.gaps]
      simp
    · intro id hid
      obtain ⟨-, s', hs', hid⟩ := joinedGroup?_eq_some.1 hid
      obtain rfl := Option.some.inj hs'
      exact .inl (hsgroup.symm.trans hid)
    · simp only [place?, hphase, if_true, hs, Option.map_some]

/-- **The acknowledgement of its join** lets a member catch up, and gives it its place. -/
theorem Tracks.joinAck {p : Parameters S} {info : Snapshot S} (h : m.Tracks k groups)
    (happlies : m.Applies p directory t made reserved info)
    (hheld : groups[made.proof.group]? = some g')
    (hg' : g'.info = info.seated made.proof.slot (info.key.apply (made.change t))) {keyId : UInt32}
    {share : S.G1}
    (hack : m.handleJoinAck ⟨made.proof.group, made.proof.slot, keyId, share, g'.info.key⟩ =
      (.ok (), m')) :
    m'.Tracks k groups ∧ m'.phase = .joined ∧
      m'.place? = some (made.proof.group, made.proof.slot) := by
  have hkey : info.key.apply (made.change t) = g'.info.key := by rw [hg', Snapshot.seated]
  rcases handleJoinAck_cases ⟨made.proof.group, made.proof.slot, keyId, share, g'.info.key⟩ m with
    ⟨hno, -⟩ | ⟨pending, -, hm⟩
  · exact absurd ⟨_, happlies.phase, happlies.pending, rfl, rfl, hkey⟩ hno
  · simp only [happlies.known, happlies.suits.free, Bool.false_eq_true, if_false] at hm
    rw [hm] at hack
    rcases fillSlot_cases (m := m.admittedBy ⟨made.proof.group, made.proof.slot, keyId, share,
        g'.info.key⟩ pending.reserved) happlies.known made.proof.slot g'.info.key with
      hover | hfilled
    · rw [hack] at hover
      simp at hover
    · rw [hfilled] at hack
      obtain ⟨-, rfl⟩ := Prod.mk.inj hack
      -- The coordinator has counted the member already, so its groups stay as they are.
      have hsame : ∀ (id : GroupId) (g : ManagedGroup S), groups[id]? = some g →
          made.proof.group = id ∧ g' = g ∨ made.proof.group ≠ id ∧ groups[id]? = some g := by
        intro id g hg
        by_cases hid : made.proof.group = id
        · subst hid
          exact .inl ⟨rfl, Option.some.inj (hheld.symm.trans hg)⟩
        · exact .inr ⟨hid, hg⟩
      refine ⟨h.insert happlies.known hsame ?_ rfl fun id hid => ?_, rfl, rfl⟩
      · rw [hg']
        rfl
      · obtain ⟨-, s, hs, hid⟩ := joinedGroup?_eq_some.1 hid
        obtain rfl := Option.some.inj hs
        exact .inl hid

end Join

end Member

end GroupKey
