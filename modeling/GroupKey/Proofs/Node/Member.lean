import GroupKey.Node.Member
import GroupKey.Proofs.Agreement.Engine

/-!
# What a step of a member comes to

A member changes its view of the groups on three occasions: a heartbeat, a join that it overhears
and the acknowledgement of its own. Its key pair changes on the last two, which an assignment
starts. What it does with session keys leaves all of this alone. Here the handlers are gone through
once, so that they need not be opened again.

* `fillSlot_of_some` — what counting a further member does.
* `handleHeartbeat_hears` — what a member knows after a heartbeat.
* `TakesUp`, `assigned_handleNotifyPosition` — what an assignment comes to.
* `handleJoin_cases` — a join is passed over, or followed.
* `handleJoinAck_cases` — an acknowledgement is passed over, or completes the join.
* `handlesKeys_handle`, `ticks_tick` — what session keys and timers come to.
* `maySend_handle` — what a member answers.
-/

namespace GroupKey

variable {S : Suite} {ρ : Type}

/-- Whether messages of a kind are about session keys. -/
def MessageKind.IsOfKeys : MessageKind → Prop
  | keyEncapNotify | keyEncap | keyUpdate | keyUpdateAck => True
  | heartbeat | heartbeatAck | notifyPosition | join | joinAck => False

/-- A message about session keys. -/
def Message.IsOfKeys (msg : Message S) : Prop := msg.kind.IsOfKeys

namespace Member

variable {m : Member S ρ}

/-! ## Slots that are filled -/

theorem fillSlot_of_some {group : GroupId} {g : Snapshot S} (h : m.groups[group]? = some g)
    (slot : UInt32) (key : EncryptionKey S) (hcount : g.memberCount.toNat + 1 < UInt32.size) :
    m.fillSlot group slot key = (.ok (), { m with groups := m.groups.insert group { g with
      slots := g.slots.occupy slot
      memberCount := g.memberCount + 1
      key } }) := by
  rw [fillSlot, h]
  simp only [Snapshot.occupy, Snapshot.countMember?, hcount, if_true]

theorem fillSlot_of_limit {group : GroupId} {g : Snapshot S} (h : m.groups[group]? = some g)
    (slot : UInt32) (key : EncryptionKey S) (hcount : ¬g.memberCount.toNat + 1 < UInt32.size) :
    m.fillSlot group slot key = (.error .memberCountOverflow,
      { m with groups := m.groups.insert group (g.occupy slot) }) := by
  rw [fillSlot, h]
  simp only [Snapshot.occupy, Snapshot.countMember?, hcount, if_false]

/-- Counting a member either overflows or gives the group its new key and takes the slot. -/
theorem fillSlot_cases {group : GroupId} {g : Snapshot S} (hg : m.groups[group]? = some g)
    (slot : UInt32) (key : EncryptionKey S) :
    (m.fillSlot group slot key).1 = .error .memberCountOverflow ∨
      m.fillSlot group slot key = (.ok (), { m with groups := m.groups.insert group { g with
        slots := g.slots.occupy slot
        memberCount := g.memberCount + 1
        key } }) := by
  by_cases hcount : g.memberCount.toNat + 1 < UInt32.size
  · exact .inr (fillSlot_of_some hg slot key hcount)
  · exact .inl (congrArg Prod.fst (fillSlot_of_limit hg slot key hcount))

theorem fillSlot_spec (group : GroupId) (slot : UInt32) (key : EncryptionKey S) :
    ∃ groups, (m.fillSlot group slot key).2 = { m with groups } := by
  unfold fillSlot
  cases m.groups[group]? with
  | none => exact ⟨m.groups, rfl⟩
  | some g =>
    simp only
    cases (g.occupy slot).countMember? with
    | none => exact ⟨_, rfl⟩
    | some g => exact ⟨_, rfl⟩

/-! ## Heartbeats -/

theorem mem_foldl_insert {slots : List UInt32} {gaps : Std.ExtTreeSet UInt32} {slot : UInt32} :
    slot ∈ slots.foldl (fun gaps slot => gaps.insert slot) gaps ↔ slot ∈ slots ∨ slot ∈ gaps := by
  induction slots generalizing gaps with
  | nil => simp
  | cons a slots ih =>
    rw [List.foldl_cons, ih, List.mem_cons]
    simp only [Std.ExtTreeSet.mem_insert, Std.LawfulEqCmp.compare_eq_iff_eq]
    constructor
    · rintro (h | rfl | h)
      · exact Or.inl (Or.inr h)
      · exact Or.inl (Or.inl rfl)
      · exact Or.inr h
    · rintro ((rfl | h) | h)
      · exact Or.inr (Or.inl rfl)
      · exact Or.inl h
      · exact Or.inr (Or.inr h)

/-- What a member knows after it took note of snapshots: it keeps what it knew or takes over a
snapshot, but keeps what it knew of its own group; what it missed there are gaps. -/
structure Merged (joined : Option GroupId) (infos : List (Snapshot S)) (m m' : Member S ρ) :
    Prop where
  rest : ∃ groups gaps, m' = { m with groups, gaps }
  known : ∀ id g, m'.groups[id]? = some g → m.groups[id]? = some g ∨
    (g ∈ infos ∧ g.id = id ∧ (joined = some id → m.groups[id]? = none))
  own : ∀ id g, joined = some id → m.groups[id]? = some g → m'.groups[id]? = some g
  gaps : ∀ slot ∈ m.gaps, slot ∈ m'.gaps
  missed : ∀ info ∈ infos, joined = some info.id → ∀ g, m.groups[info.id]? = some g →
    g.memberCount < info.memberCount →
    ∀ slot ∈ (g.slots.diff info.slots).filter info.isOccupied, slot ∈ m'.gaps

theorem merged_merge (joined : Option GroupId) (m : Member S ρ) (info : Snapshot S) :
    Merged joined [info] m (merge joined m info) := by
  -- A snapshot that is taken over is found under its name, all else is as before.
  have htaken : (joined = some info.id → m.groups[info.id]? = none) →
      Merged joined [info] m { m with groups := m.groups.insert info.id info } := by
    intro hnew
    refine ⟨⟨_, _, rfl⟩, ?_, ?_, fun _ h => h, ?_⟩
    · intro id g hg
      rcases getElem?_insert_cases hg with ⟨rfl, rfl⟩ | ⟨-, hg⟩
      · exact Or.inr ⟨List.mem_singleton_self _, rfl, hnew⟩
      · exact Or.inl hg
    · intro id g hid hg
      have hne : info.id ≠ id := by
        rintro rfl
        rw [hnew hid] at hg
        simp at hg
      exact (getElem?_insert_of_ne hne).trans hg
    · intro info' hinfo hid g hg
      obtain rfl := List.mem_singleton.1 hinfo
      rw [hnew hid] at hg
      simp at hg
  unfold merge
  split
  · next hnone => exact htaken fun _ => hnone
  · next cached hcached =>
    have hcached' : ∀ {info' g}, info' ∈ [info] → m.groups[info'.id]? = some g → g = cached :=
      fun hinfo hg => by
        obtain rfl := List.mem_singleton.1 hinfo
        exact Option.some.inj (hg.symm.trans hcached)
    split
    · next hcount =>
      refine ⟨⟨_, _, rfl⟩, fun _ _ h => Or.inl h, fun _ _ _ h => h, fun _ h => h, ?_⟩
      intro info' hinfo _ g hg hlt
      rw [hcached' hinfo hg, List.mem_singleton.1 hinfo] at hlt
      exact absurd hlt (UInt32.not_lt.2 hcount)
    · split
      · refine ⟨⟨_, _, rfl⟩, fun _ _ h => Or.inl h, fun _ _ _ h => h,
          fun _ h => mem_foldl_insert.2 (Or.inr h), ?_⟩
        intro info' hinfo _ g hg _ slot hslot
        rw [hcached' hinfo hg, List.mem_singleton.1 hinfo] at hslot
        exact mem_foldl_insert.2 (Or.inl hslot)
      · next hother => exact htaken fun hjoined => absurd hjoined hother

theorem merged_foldl (joined : Option GroupId) (infos : List (Snapshot S)) (m : Member S ρ) :
    Merged joined infos m (infos.foldl (merge joined) m) := by
  induction infos generalizing m with
  | nil =>
    exact ⟨⟨_, _, rfl⟩, fun _ _ h => Or.inl h, fun _ _ _ h => h, fun _ h => h, by simp⟩
  | cons info infos ih =>
    have hfirst := merged_merge joined m info
    have hrest := ih (merge joined m info)
    rw [List.foldl_cons]
    refine ⟨?_, ?_, fun id g hid hg => hrest.own id g hid (hfirst.own id g hid hg),
      fun slot h => hrest.gaps slot (hfirst.gaps slot h), ?_⟩
    · obtain ⟨groups, gaps, h⟩ := hfirst.rest
      obtain ⟨groups', gaps', h'⟩ := hrest.rest
      rw [h] at h'
      exact ⟨groups', gaps', by rw [h, h']⟩
    -- A group that the rest took over was not known after the first snapshot, nor before it.
    · intro id g hg
      rcases hrest.known id g hg with hg | ⟨hmem, hid, hnone⟩
      · rcases hfirst.known id g hg with hg | ⟨hmem, hid, hnone⟩
        · exact Or.inl hg
        · exact Or.inr ⟨List.mem_cons.2 (Or.inl (List.mem_singleton.1 hmem)), hid, hnone⟩
      · refine Or.inr ⟨List.mem_cons_of_mem _ hmem, hid, fun hjoined => ?_⟩
        cases hg' : m.groups[id]? with
        | none => rfl
        | some g' =>
          have := hfirst.own id g' hjoined hg'
          rw [hnone hjoined] at this
          simp at this
    · intro info' hinfo hid g hg hlt slot hslot
      rcases List.mem_cons.1 hinfo with rfl | hinfo
      · exact hrest.gaps slot
          (hfirst.missed info' (List.mem_singleton_self _) hid g hg hlt slot hslot)
      · exact hrest.missed info' hinfo hid g (hfirst.own _ g hid hg) hlt slot hslot

/-- What a member knows after a heartbeat: what it knew, save of a group that it left, or what it
was told of a group other than its own. Its own group it knows. If it is told of more members of it
than it knows of, it notes the slots it missed. -/
structure Hears (hb : Heartbeat S) (m m' : Member S ρ) : Prop where
  membership : m'.engine.membership = m.engine.membership
  phase : m'.phase = .unset ∨ m'.phase = .joined ∧ m.phase = .joined
  known : ∀ id g, m'.groups[id]? = some g →
    (m.groups[id]? = some g ∧ (m.joinedGroup? = some id → m'.joinedGroup? = some id)) ∨
    (g ∈ hb.groups ∧ g.id = id ∧ m'.joinedGroup? ≠ some id)
  missed : ∀ id, m'.joinedGroup? = some id → ∃ g, m'.groups[id]? = some g ∧
    ∀ info ∈ hb.groups, info.id = id → g.memberCount < info.memberCount →
      ∀ slot ∈ (g.slots.diff info.slots).filter info.isOccupied, slot ∈ m'.gaps

theorem joinedGroup?_eq_some {id : GroupId} :
    m.joinedGroup? = some id ↔
      m.phase = .joined ∧ ∃ s, m.engine.membership = some s ∧ s.group = id := by
  unfold joinedGroup?
  by_cases h : m.phase = .joined
  · rw [if_pos h, Option.map_eq_some_iff]
    exact ⟨fun hs => ⟨h, hs⟩, fun hs => hs.2⟩
  · rw [if_neg h]
    exact ⟨fun hs => by simp at hs, fun hs => absurd hs.1 h⟩

theorem groups_filter {now : Timestamp} {id : GroupId} {g : Snapshot S}
    (h : (m.groups.filter fun _ g => !g.isExpired now)[id]? = some g) : m.groups[id]? = some g := by
  rw [Std.ExtTreeMap.getElem?_filter', Option.filter_eq_some_iff] at h
  exact h.1

/-- What is left when a new round starts. -/
theorem dropExpired_giveUpJoin (now : Timestamp) (m : Member S ρ) :
    let m' := m.giveUpJoin.dropExpired now
    m'.engine.membership = m.engine.membership ∧
      (m'.phase = .unset ∨ m'.phase = .joined ∧ m.phase = .joined) ∧
      (∀ (id : GroupId) (g : Snapshot S), m'.groups[id]? = some g → m.groups[id]? = some g ∧
        (m.joinedGroup? = some id → m'.joinedGroup? = some id)) ∧
      ∀ id, m'.joinedGroup? = some id → ∃ g, m'.groups[id]? = some g := by
  have hgive : m.giveUpJoin.engine.membership = m.engine.membership ∧
      (m.giveUpJoin.phase = .unset ∨ m.giveUpJoin.phase = .joined ∧ m.phase = .joined) ∧
      m.giveUpJoin.groups = m.groups ∧ m.giveUpJoin.joinedGroup? = m.joinedGroup? := by
    unfold giveUpJoin
    split
    · next hjoining =>
      refine ⟨rfl, Or.inl rfl, rfl, ?_⟩
      simp [joinedGroup?, hjoining]
    · next hjoining =>
      refine ⟨rfl, ?_, rfl, rfl⟩
      cases hphase : m.phase with
      | unset => exact Or.inl rfl
      | joining => exact absurd hphase hjoining
      | joined => exact Or.inr ⟨rfl, rfl⟩
  obtain ⟨hmembership, hphase, hgroups, hjoined⟩ := hgive
  have hknown : ∀ (id : GroupId) (g : Snapshot S),
      (m.giveUpJoin.groups.filter fun _ g => !g.isExpired now)[id]? = some g →
      m.groups[id]? = some g := fun id g hg => hgroups ▸ groups_filter hg
  unfold dropExpired
  simp only
  split
  · next group hgroup =>
    split
    · next hmem =>
      refine ⟨hmembership, hphase, fun id g hg => ⟨hknown id g hg, ?_⟩, ?_⟩
      · intro hid
        rw [← hjoined] at hid
        exact hid
      · intro id hid
        obtain rfl := Option.some.inj (hgroup.symm.trans hid)
        exact ⟨_, Std.ExtTreeMap.getElem?_eq_some_getElem hmem⟩
    · next hmem =>
      refine ⟨hmembership, Or.inl rfl, fun id g hg => ⟨hknown id g hg, ?_⟩,
        fun id hid => by simp [joinedGroup?] at hid⟩
      intro hid
      -- The group that was left is not among those kept.
      rw [← hjoined] at hid
      obtain rfl : group = id := Option.some.inj (hgroup.symm.trans hid)
      rw [Std.ExtTreeMap.getElem?_eq_none hmem] at hg
      simp at hg
  · next hnone =>
    refine ⟨hmembership, hphase, fun id g hg => ⟨hknown id g hg, ?_⟩, ?_⟩
    · intro hid
      rw [← hjoined] at hid
      exact hid
    · intro id hid
      rw [hnone] at hid
      simp at hid

/-- **What a member knows after a heartbeat.** -/
theorem handleHeartbeat_hears (now : Timestamp) (hb : Heartbeat S) (m : Member S ρ) :
    Hears hb m (m.handleHeartbeat now hb).2 := by
  obtain ⟨hmembership, hphase, hgroups, hown⟩ := dropExpired_giveUpJoin now m
  have hmerged := merged_foldl (m.giveUpJoin.dropExpired now).joinedGroup? hb.groups
    (m.giveUpJoin.dropExpired now)
  show Hears hb m { hb.groups.foldl (merge (m.giveUpJoin.dropExpired now).joinedGroup?)
    (m.giveUpJoin.dropExpired now) with session := _ }
  -- Only what the merge keeps and adds matters from here on.
  generalize hb.groups.foldl (merge (m.giveUpJoin.dropExpired now).joinedGroup?)
    (m.giveUpJoin.dropExpired now) = m' at hmerged ⊢
  generalize m.giveUpJoin.dropExpired now = m₁ at *
  obtain ⟨groups, gaps, hrest⟩ := hmerged.rest
  have hjoined : Member.joinedGroup? { m' with session := (m'.session.observe hb.accepted).2 } =
      m₁.joinedGroup? := by
    rw [hrest]
    rfl
  refine ⟨?_, ?_, ?_, ?_⟩
  · rw [hrest]
    exact hmembership
  · rw [hrest]
    exact hphase
  · intro id g hg
    rw [hjoined]
    rcases hmerged.known id g hg with hg | ⟨hmem, hgid, hnone⟩
    · exact Or.inl (hgroups id g hg)
    · refine Or.inr ⟨hmem, hgid, fun hid => ?_⟩
      obtain ⟨g', hg'⟩ := hown id hid
      rw [hnone hid] at hg'
      simp at hg'
  · intro id hid
    rw [hjoined] at hid
    obtain ⟨g, hg⟩ := hown id hid
    refine ⟨g, hmerged.own id g hid hg, fun info hinfo heq hlt => ?_⟩
    exact hmerged.missed info hinfo (heq ▸ hid) g (heq ▸ hg) hlt

/-- **What a heartbeat leaves alone**: the member keeps its number and its own key. -/
theorem handleHeartbeat_rest (now : Timestamp) (hb : Heartbeat S) (m : Member S ρ) :
    ∃ engine phase groups gaps, (m.handleHeartbeat now hb).2 = { m with
        engine, phase, groups, gaps
        session := (m.session.observe hb.accepted).2 } ∧ engine.key = m.engine.key := by
  obtain ⟨engine, phase, groups, gaps, hstart, hkey⟩ : ∃ engine phase groups gaps,
      m.giveUpJoin.dropExpired now = { m with engine, phase, groups, gaps } ∧
        engine.key = m.engine.key := by
    unfold giveUpJoin dropExpired
    split <;> simp only <;> split <;> try exact ⟨_, _, _, _, rfl, rfl⟩
    all_goals split <;> exact ⟨_, _, _, _, rfl, rfl⟩
  obtain ⟨groups', gaps', hmerged⟩ :=
    (merged_foldl (m.giveUpJoin.dropExpired now).joinedGroup? hb.groups
      (m.giveUpJoin.dropExpired now)).rest
  refine ⟨engine, phase, groups', gaps', ?_, hkey⟩
  simp only [handleHeartbeat, hmerged]
  rw [hstart]

/-! ## Acknowledgements -/

/-- An acknowledgement that completes a pending join: it is for the slot that the member waits for,
with the key that it expects. -/
structure Completes (ack : JoinAck S) (m : Member S ρ) (pending : PendingJoin S) : Prop where
  joining : m.phase = .joining
  awaited : m.engine.pending = some pending
  group : pending.group = ack.group
  slot : pending.slot = ack.slot
  key : pending.key = ack.key

instance (ack : JoinAck S) (m : Member S ρ) : Decidable (∃ pending, Completes ack m pending) :=
  match hp : m.engine.pending with
  | none => isFalse fun ⟨_, h⟩ => by
    rw [h.awaited] at hp
    simp at hp
  | some pending =>
    decidable_of_iff (m.phase = .joining ∧ pending.group = ack.group ∧ pending.slot = ack.slot ∧
        pending.key = ack.key)
      ⟨fun h => ⟨pending, h.1, hp, h.2.1, h.2.2.1, h.2.2.2⟩, fun ⟨pending', h⟩ => by
        obtain rfl : pending = pending' := Option.some.inj (hp.symm.trans h.awaited)
        exact ⟨h.joining, h.group, h.slot, h.key⟩⟩

/-- The member with the key pair that an acknowledgement brings, and no gaps. -/
def admittedBy (ack : JoinAck S) (reserved : S.G1) (m : Member S ρ) : Member S ρ :=
  { m with
    engine := { m.engine with
      pending := none
      membership := some ⟨ack.group, ack.slot, ack.key, ack.share + reserved⟩ }
    phase := .joined
    gaps := ∅ }

/-- **What an acknowledgement does.** It is passed over, or completes the pending join: then the
member has its key pair, and its slot is counted unless it was counted before. -/
theorem handleJoinAck_cases (ack : JoinAck S) (m : Member S ρ) :
    ((¬∃ pending, Completes ack m pending) ∧ m.handleJoinAck ack = (.ok (), m)) ∨
      ∃ pending, Completes ack m pending ∧
        let joined := m.admittedBy ack pending.reserved
        m.handleJoinAck ack =
          match m.groups[ack.group]? with
          | none => (.ok (), joined)
          | some g =>
            if g.isOccupied ack.slot then
              (.ok (),
                { joined with groups := m.groups.insert ack.group { g with key := ack.key } })
            else joined.fillSlot ack.group ack.slot ack.key := by
  unfold handleJoinAck
  by_cases hphase : m.phase = .joining
  · rw [if_neg (Decidable.not_not.2 hphase)]
    unfold Engine.derive
    cases hp : m.engine.pending with
    | none => exact Or.inl ⟨fun ⟨_, h⟩ => by simp [h.awaited] at hp, rfl⟩
    | some pending =>
      have hsame : ∀ {pending'}, Completes ack m pending' → pending' = pending := fun h =>
        Option.some.inj (h.awaited.symm.trans hp)
      simp only
      by_cases hslot : pending.group ≠ ack.group ∨ pending.slot ≠ ack.slot
      · rw [if_pos hslot]
        refine Or.inl ⟨fun ⟨_, h⟩ => ?_, rfl⟩
        rw [← hsame h] at hslot
        exact hslot.elim (fun hne => hne h.group) (fun hne => hne h.slot)
      · rw [if_neg hslot]
        by_cases hkey : pending.key ≠ ack.key
        · rw [if_pos hkey]
          exact Or.inl ⟨fun ⟨_, h⟩ => hkey (hsame h ▸ h.key), rfl⟩
        · rw [if_neg hkey]
          rw [not_or, Decidable.not_not, Decidable.not_not] at hslot
          rw [Decidable.not_not] at hkey
          refine Or.inr ⟨pending, ⟨hphase, hp, hslot.1, hslot.2, hkey⟩, ?_⟩
          rw [hkey]
          rfl
  · rw [if_pos hphase]
    exact Or.inl ⟨fun ⟨_, h⟩ => hphase h.joining, rfl⟩

/-- **What an acknowledgement leaves alone**: the member keeps its number and its own key. -/
theorem handleJoinAck_rest (ack : JoinAck S) (m : Member S ρ) :
    ∃ engine phase groups gaps, (m.handleJoinAck ack).2 = { m with engine, phase, groups, gaps } ∧
      engine.key = m.engine.key := by
  rcases handleJoinAck_cases ack m with ⟨-, h⟩ | ⟨pending, -, h⟩
  · exact ⟨m.engine, m.phase, m.groups, m.gaps, by rw [h], rfl⟩
  · rw [h]
    split
    · exact ⟨_, _, _, _, rfl, rfl⟩
    · split
      · exact ⟨_, _, _, _, rfl, rfl⟩
      · obtain ⟨groups, hfill⟩ := fillSlot_spec (m := m.admittedBy ack pending.reserved) ack.group
          ack.slot ack.key
        rw [hfill]
        exact ⟨_, _, _, _, rfl, rfl⟩

/-! ## Members that stay where they are -/

/-- The member stays where it is: only its session keys have changed. -/
structure KeepsPlace (m m' : Member S ρ) : Prop where
  pid : m'.pid = m.pid
  phase : m'.phase = m.phase
  engine : m'.engine = m.engine
  groups : m'.groups = m.groups
  gaps : m'.gaps = m.gaps

theorem KeepsPlace.refl (m : Member S ρ) : m.KeepsPlace m := ⟨rfl, rfl, rfl, rfl, rfl⟩

theorem KeepsPlace.joinedGroup?_eq {m' : Member S ρ} (h : m.KeepsPlace m') :
    m'.joinedGroup? = m.joinedGroup? := by
  rw [joinedGroup?, joinedGroup?, h.phase, h.engine]

/-! ## Assignments -/

/-- An assignment that a member takes up: it is in no group yet, and is handed a slot that it takes
for a free one of a group that it knows. -/
structure TakesUp (ctx : Context S) (a : Assignment) (m : Member S ρ) (g : Snapshot S)
    (scale : Nat) : Prop where
  addressed : a.pid = m.pid
  unset : m.phase = .unset
  known : m.groups[a.group]? = some g
  tier : ctx.parameters.scale g.tier = .ok scale
  fits : a.slot.toNat < scale
  free : g.isOccupied a.slot = false

theorem TakesUp.joinedGroup?_eq_none {ctx : Context S} {a : Assignment} {g : Snapshot S}
    {scale : Nat} (h : TakesUp ctx a m g scale) : m.joinedGroup? = none := by
  simp [joinedGroup?, h.unset]

variable [Generator ρ]

/-- What an assignment comes to. One that is taken up may cost the member a key, also if no proof
can be made. -/
inductive Assigned (ctx : Context S) (directory : Directory S) (a : Assignment) (m : Member S ρ) :
    Except NodeError (List (Message S)) × Member S ρ × Directory S → Prop
  | passed (refused : ¬∃ g scale, TakesUp ctx a m g scale) :
    Assigned ctx directory a m (.ok [], m, directory)
  | unscaled {g : Snapshot S} {err : AgreementError} (known : m.groups[a.group]? = some g)
      (tier : ctx.parameters.scale g.tier = .error err) :
    Assigned ctx directory a m (.error (.agreement err), m, directory)
  | unproved {g : Snapshot S} {scale : Nat} {out : Engine.Outcome S ρ (JoinProof S)}
      {err : AgreementError} (takes : TakesUp ctx a m g scale)
      (proves : m.engine.prove ctx.parameters a.group g.key g.tier a.slot
        ⟨directory, m.generator⟩ = out)
      (failed : out.result = .error err) :
    Assigned ctx directory a m (.error (.agreement err),
      { m with engine := out.engine, generator := out.resources.generator },
      out.resources.directory)
  | proved {g : Snapshot S} {scale : Nat} {out : Engine.Outcome S ρ (JoinProof S)}
      {proof : JoinProof S} (takes : TakesUp ctx a m g scale)
      (proves : m.engine.prove ctx.parameters a.group g.key g.tier a.slot
        ⟨directory, m.generator⟩ = out)
      (made : out.result = .ok proof) :
    Assigned ctx directory a m (.ok [.join ⟨m.pid, proof⟩],
      { m with engine := out.engine, generator := out.resources.generator, phase := .joining },
      out.resources.directory)

/-- **What an assignment comes to.** -/
theorem assigned_handleNotifyPosition (ctx : Context S) (a : Assignment) (directory : Directory S)
    (m : Member S ρ) : Assigned ctx directory a m (m.handleNotifyPosition ctx a directory) := by
  -- The guards of the handler are the conditions of `TakesUp`, in this order.
  unfold handleNotifyPosition
  by_cases hother : a.pid ≠ m.pid ∨ m.phase ≠ .unset
  · rw [if_pos hother]
    exact .passed fun ⟨_, _, htakes⟩ =>
      hother.elim (fun hpid => hpid htakes.addressed) (fun hphase => hphase htakes.unset)
  rw [if_neg hother]
  rw [not_or, Decidable.not_not, Decidable.not_not] at hother
  cases hknown : m.groups[a.group]? with
  | none => exact .passed fun ⟨_, _, htakes⟩ => by simp [htakes.known] at hknown
  | some g =>
    simp only
    cases htier : ctx.parameters.scale g.tier with
    | error err => exact .unscaled hknown htier
    | ok scale =>
      simp only
      by_cases hunfit : scale ≤ a.slot.toNat ∨ g.isOccupied a.slot = true
      · rw [if_pos hunfit]
        refine .passed fun ⟨g', scale', htakes⟩ => ?_
        obtain rfl := Option.some.inj (hknown.symm.trans htakes.known)
        obtain rfl := Except.ok.inj (htier.symm.trans htakes.tier)
        rcases hunfit with hlarge | hocc
        · exact Nat.not_lt.2 hlarge htakes.fits
        · simp [htakes.free] at hocc
      · rw [if_neg hunfit]
        rw [not_or, Nat.not_le, Bool.not_eq_true] at hunfit
        have htakes : TakesUp ctx a m g scale :=
          ⟨hother.1, hother.2, hknown, htier, hunfit.1, hunfit.2⟩
        cases hresult : (m.engine.prove ctx.parameters a.group g.key g.tier a.slot
            ⟨directory, m.generator⟩).result with
        | error err => exact .unproved htakes rfl hresult
        | ok proof => exact .proved htakes rfl hresult

theorem extends_handleNotifyPosition (ctx : Context S) (a : Assignment) (directory : Directory S)
    (m : Member S ρ) : (m.handleNotifyPosition ctx a directory).2.2.Extends directory := by
  have hassigned := assigned_handleNotifyPosition ctx a directory m
  generalize m.handleNotifyPosition ctx a directory = r at hassigned ⊢
  cases hassigned with
  | passed | unscaled => exact Directory.Extends.refl _
  | unproved _ proves | proved _ proves => exact proves ▸ Engine.extends_prove _ _ _ _ _ _ _

/-! ## Joins -/

/-- A join that a member follows: it is for a slot of the member's own group that is free as far as
it knows, its proof holds and can be folded into the key pair. -/
structure Follows (ctx : Context S) (directory : Directory S) (join : Join S) (m : Member S ρ)
    (g : Snapshot S) (engine : Engine S) : Prop where
  other : join.pid ≠ m.pid
  own : m.joinedGroup? = some join.proof.group
  known : m.groups[join.proof.group]? = some g
  free : g.isOccupied join.proof.slot = false
  valid : (join.proof.check ctx.parameters directory m.generator).1 = true
  absorb : m.engine.absorb ctx.parameters directory join.proof = (.ok (), engine)

instance (ctx : Context S) (directory : Directory S) (join : Join S) (m : Member S ρ) :
    Decidable (∃ g engine, Follows ctx directory join m g engine) :=
  match hg : m.groups[join.proof.group]?,
    he : m.engine.absorb ctx.parameters directory join.proof with
  | none, _ => isFalse fun ⟨g, _, h⟩ => by
    rw [h.known] at hg
    simp at hg
  | some _, (.error _, _) => isFalse fun ⟨_, engine, h⟩ => by
    rw [h.absorb] at he
    simp at he
  | some g, (.ok (), engine) =>
    decidable_of_iff (join.pid ≠ m.pid ∧ m.joinedGroup? = some join.proof.group ∧
        g.isOccupied join.proof.slot = false ∧
        (join.proof.check ctx.parameters directory m.generator).1 = true)
      ⟨fun h => ⟨g, engine, h.1, h.2.1, hg, h.2.2.1, h.2.2.2, he⟩, fun ⟨g', _, h⟩ => by
        obtain rfl : g = g' := Option.some.inj (hg.symm.trans h.known)
        exact ⟨h.other, h.own, h.free, h.valid⟩⟩

/-- **What overhearing a join does.** It is passed over, or followed: then its slot is counted,
under the new key of the group, and is no longer a gap. -/
theorem handleJoin_cases (ctx : Context S) (directory : Directory S) (join : Join S)
    (m : Member S ρ) :
    ((¬∃ g engine, Follows ctx directory join m g engine) ∧
      ∃ generator, m.handleJoin ctx directory join = (.ok (), { m with generator })) ∨
      ∃ g engine generator result m', Follows ctx directory join m g engine ∧
        fillSlot join.proof.group join.proof.slot ((engine.membership.map (·.key)).getD g.key)
          { m with engine, generator } = (result, m') ∧
        m.handleJoin ctx directory join = (result,
          match result with
          | .ok () => { m' with gaps := m'.gaps.erase join.proof.slot }
          | .error _ => m') := by
  -- Each guard, in the order of the handler, is one of the conditions of `Follows`.
  unfold handleJoin
  simp only
  split
  · next hown =>
    refine Or.inl ⟨fun ⟨_, _, h⟩ => ?_, m.generator, rfl⟩
    exact hown.elim (fun hpid => h.other hpid) (fun hgroup => hgroup h.own)
  · next hown =>
    rw [not_or, Decidable.not_not] at hown
    split
    · next hg =>
      exact Or.inl ⟨fun ⟨_, _, h⟩ => by simp [h.known] at hg, m.generator, rfl⟩
    · next g hg =>
      have hknown : ∀ {g' engine}, Follows ctx directory join m g' engine → g' = g := fun h =>
        Option.some.inj (h.known.symm.trans hg)
      split
      · next hocc =>
        refine Or.inl ⟨fun ⟨_, _, h⟩ => ?_, m.generator, rfl⟩
        have hfree := h.free
        rw [hknown h, hocc] at hfree
        simp at hfree
      · next hfree =>
        split
        · next hvalid => exact Or.inl ⟨fun ⟨_, _, h⟩ => hvalid h.valid, _, rfl⟩
        · next hvalid =>
          split
          · next habsorb =>
            exact Or.inl ⟨fun ⟨_, _, h⟩ => by simp [h.absorb] at habsorb, _, rfl⟩
          · next engine habsorb =>
            rw [Bool.not_eq_true] at hfree
            have hfollows : Follows ctx directory join m g engine :=
              ⟨hown.1, hown.2, hg, hfree, Decidable.not_not.1 hvalid, habsorb⟩
            split
            · next hfill => exact Or.inr ⟨g, engine, _, _, _, hfollows, hfill, rfl⟩
            · next hfill => exact Or.inr ⟨g, engine, _, _, _, hfollows, hfill, rfl⟩

/-- **What overhearing a join leaves alone**: the member keeps its number and its own key. -/
theorem handleJoin_rest (ctx : Context S) (directory : Directory S) (join : Join S)
    (m : Member S ρ) :
    ∃ engine groups gaps generator, (m.handleJoin ctx directory join).2 =
      { m with engine, groups, gaps, generator } ∧ engine.key = m.engine.key := by
  rcases handleJoin_cases ctx directory join m with
    ⟨-, generator, h⟩ | ⟨g, engine, generator, result, m', hfollows, hfill, h⟩
  · exact ⟨m.engine, m.groups, m.gaps, generator, by rw [h], rfl⟩
  · obtain ⟨groups, hgroups⟩ := fillSlot_spec (m := { m with engine, generator }) join.proof.group
      join.proof.slot ((engine.membership.map (·.key)).getD g.key)
    have hkey := m.engine.key_absorb ctx.parameters directory join.proof
    rw [hfollows.absorb] at hkey
    rw [hfill] at hgroups
    obtain rfl : m' = _ := hgroups
    rw [h]
    cases result <;> exact ⟨_, _, _, _, rfl, hkey⟩

/-! ## Session keys -/

theorem keepsPlace_distribute {ctx : Context S} {now : Timestamp} {version : UInt32}
    {keyLength : Nat} {d : Distribution S} {m' : Member S ρ}
    (h : m.distribute ctx now version keyLength = (d, m')) : m.KeepsPlace m' := by
  obtain rfl : _ = m' := congrArg Prod.snd h
  exact ⟨rfl, rfl, rfl, rfl, rfl⟩

/-- What a message about session keys comes to. -/
inductive HandlesKeys (ctx : Context S) (now : Timestamp) (m : Member S ρ) :
    Message S → List (Message S) → Member S ρ → Prop
  | passed (msg : Message S) : HandlesKeys ctx now m msg [] m
  | drawn {request : DispatchRequest} {d : Distribution S} {m' : Member S ρ}
      (addressed : request.pid = m.pid) (joined : m.phase = .joined)
      (draws : m.distribute ctx now (nextVersion (max request.version m.session.highestVersion))
        request.keyLength.toNat = (d, m')) :
    HandlesKeys ctx now m (.keyEncapNotify request) [.keyEncap d] m'
  | decrypted {msg : Message S} {d : Distribution S} {key : Bytes}
      (carried : msg = .keyEncap d ∨ msg = .keyUpdate d)
      (decrypts : m.sessionKey? ctx d = some key) :
    HandlesKeys ctx now m msg []
      { m with session := (m.session.offer S.hash d.fingerprint key).2 }
  | confirmed (ack : UpdateAck) :
    HandlesKeys ctx now m (.keyUpdateAck ack) []
      { m with session := (m.session.observe ack.fingerprint).2 }

/-- **What a message about session keys comes to.** It is never a failure, and nothing is
published. -/
theorem handlesKeys_handle {msg : Message S} (hmsg : msg.IsOfKeys) (ctx : Context S)
    (now : Timestamp) (directory : Directory S) (m : Member S ρ) :
    ∃ ms m', m.handle ctx now msg directory = (.ok ms, m', directory) ∧
      HandlesKeys ctx now m msg ms m' := by
  cases msg with
  | keyEncapNotify request =>
    refine ⟨_, _, rfl, ?_⟩
    unfold handleKeyEncapNotify
    split
    · exact .passed _
    · next haddressed =>
      rw [not_or, Decidable.not_not, Decidable.not_not] at haddressed
      exact .drawn haddressed.1 haddressed.2 rfl
  | keyEncap d =>
    refine ⟨_, _, rfl, ?_⟩
    unfold decapsulate
    split
    · next key hkey => exact .decrypted (.inl rfl) hkey
    · exact .passed _
  | keyUpdate d =>
    refine ⟨_, _, rfl, ?_⟩
    unfold decapsulate
    split
    · next key hkey => exact .decrypted (.inr rfl) hkey
    · exact .passed _
  | keyUpdateAck ack => exact ⟨_, _, rfl, .confirmed ack⟩
  | heartbeat _ => exact absurd hmsg id
  | heartbeatAck _ => exact absurd hmsg id
  | notifyPosition _ => exact absurd hmsg id
  | join _ => exact absurd hmsg id
  | joinAck _ => exact absurd hmsg id

/-- **What a member does with session keys** leaves its place alone. -/
theorem keepsPlace_handle {ctx : Context S} {msg : Message S} (hmsg : msg.IsOfKeys)
    (now : Timestamp) (directory : Directory S) :
    m.KeepsPlace (m.handle ctx now msg directory).2.1 := by
  obtain ⟨ms, m', hhandle, hkeys⟩ := handlesKeys_handle hmsg ctx now directory m
  rw [hhandle]
  cases hkeys with
  | passed => exact .refl m
  | drawn _ _ draws => exact keepsPlace_distribute draws
  | decrypted | confirmed => exact ⟨rfl, rfl, rfl, rfl, rfl⟩

theorem isOfKeys_handle {ctx : Context S} {msg : Message S} (hmsg : msg.IsOfKeys)
    (now : Timestamp) (directory : Directory S) {ms : List (Message S)}
    (h : (m.handle ctx now msg directory).1 = .ok ms) : ∀ x ∈ ms, x.IsOfKeys := by
  obtain ⟨ms', m', hhandle, hkeys⟩ := handlesKeys_handle hmsg ctx now directory m
  rw [hhandle] at h
  obtain rfl := Except.ok.inj h
  cases hkeys with
  | drawn => exact fun x hx => List.mem_singleton.1 hx ▸ trivial
  | passed | decrypted | confirmed => simp

/-- What a timer comes to: a key may be proposed. -/
inductive Ticks (ctx : Context S) (now : Timestamp) (m : Member S ρ) :
    Timer → List (Message S) × Member S ρ → Prop
  | passed (timer : Timer) : Ticks ctx now m timer ([], m)
  | drawn {d : Distribution S} {m' : Member S ρ} (joined : m.phase = .joined)
      (draws : m.distribute ctx now (nextVersion m.session.highestVersion)
        ctx.config.sessionKeyLength.toNat = (d, m')) :
    Ticks ctx now m .keyUpdate ([.keyUpdate d], m')

theorem ticks_tick (ctx : Context S) (now : Timestamp) (timer : Timer) (m : Member S ρ) :
    Ticks ctx now m timer (m.tick ctx now timer) := by
  cases timer with
  | keyUpdate =>
    show Ticks ctx now m .keyUpdate (m.launchKeyUpdate ctx now)
    unfold launchKeyUpdate
    split
    · exact .passed _
    · next hphase => exact .drawn (Decidable.not_not.1 hphase) rfl
  | heartbeat | keyEncapNotify => exact .passed _

/-- A member proposes session keys of its own accord, and does nothing else. -/
theorem keepsPlace_tick (ctx : Context S) (now : Timestamp) (timer : Timer) (m : Member S ρ) :
    m.KeepsPlace (m.tick ctx now timer).2 ∧ ∀ x ∈ (m.tick ctx now timer).1, x.IsOfKeys := by
  have hticks := ticks_tick ctx now timer m
  generalize m.tick ctx now timer = r at hticks ⊢
  cases hticks with
  | passed => exact ⟨.refl m, by simp⟩
  | drawn _ draws =>
    exact ⟨keepsPlace_distribute draws, fun x hx => List.mem_singleton.1 hx ▸ trivial⟩

/-! ## What members send -/

/-- What a member may send: joins for groups that it knows, of the tier by which it knows them, and
messages that tell of neither groups nor accepted keys. -/
def MaySend (m : Member S ρ) : Message S → Prop
  | .join join => ∃ g, m.groups[join.proof.group]? = some g ∧ join.proof.tier = g.tier
  | .heartbeatAck _ | .keyEncap _ | .keyUpdate _ => True
  | .heartbeat _ | .notifyPosition _ | .joinAck _ | .keyEncapNotify _ | .keyUpdateAck _ => False

/-- **What a member answers.** -/
theorem maySend_handle (ctx : Context S) (now : Timestamp) (msg : Message S)
    (directory : Directory S) {ms : List (Message S)}
    (h : (m.handle ctx now msg directory).1 = .ok ms) : ∀ x ∈ ms, m.MaySend x := by
  have hsilent : ∀ r : Except NodeError Unit, (r.map fun _ => ([] : List (Message S))) = .ok ms →
      ∀ x ∈ ms, m.MaySend x := by
    intro r hr x hx
    cases r with
    | error e => simp [Except.map] at hr
    | ok u =>
      obtain rfl := Except.ok.inj hr
      simp at hx
  have hkeys (hmsg : msg.IsOfKeys) : ∀ x ∈ ms, m.MaySend x := by
    obtain ⟨ms', m', hhandle, hkeys⟩ := handlesKeys_handle hmsg ctx now directory m
    rw [hhandle] at h
    obtain rfl := Except.ok.inj h
    cases hkeys with
    | drawn => exact fun x hx => List.mem_singleton.1 hx ▸ trivial
    | passed | decrypted | confirmed => simp
  cases msg with
  | heartbeat hb =>
    obtain rfl := Except.ok.inj h
    exact fun x hx => List.mem_singleton.1 hx ▸ trivial
  | heartbeatAck ack =>
    obtain rfl := Except.ok.inj h
    simp
  | notifyPosition a =>
    change (m.handleNotifyPosition ctx a directory).1 = .ok ms at h
    have hassigned := assigned_handleNotifyPosition ctx a directory m
    generalize m.handleNotifyPosition ctx a directory = r at hassigned h
    cases hassigned with
    | passed =>
      obtain rfl := Except.ok.inj h
      simp
    | unscaled | unproved => simp at h
    | @proved g _ out proof takes proves made =>
      subst proves
      obtain rfl := Except.ok.inj h
      obtain ⟨hgroup, htier, -⟩ := Engine.prove_names made
      intro x hx
      obtain rfl := List.mem_singleton.1 hx
      exact ⟨g, hgroup ▸ takes.known, htier⟩
  | join join => exact hsilent _ h
  | joinAck ack => exact hsilent _ h
  | keyEncapNotify | keyEncap | keyUpdate | keyUpdateAck => exact hkeys trivial

theorem maySend_tick (ctx : Context S) (now : Timestamp) (timer : Timer) (m : Member S ρ) :
    ∀ x ∈ (m.tick ctx now timer).1, m.MaySend x := by
  have hticks := ticks_tick ctx now timer m
  generalize m.tick ctx now timer = r at hticks ⊢
  cases hticks with
  | passed => simp
  | drawn => exact fun x hx => List.mem_singleton.1 hx ▸ trivial

end Member

end GroupKey
