import GroupKey.Proofs.Group.Consistency
import GroupKey.Proofs.Node.CoordinatorState
import GroupKey.Proofs.Node.Member
import GroupKey.Proofs.Wire.WellFormed

/-!
# The state of a member holds together

A member keeps its place in a group in four places: its phase, its engine, the groups that it knows
and the slots that it missed. Heartbeats, assignments, joins and acknowledgements change them apart
from each other, in any order and with any contents. Still they agree, because a pending join does
not outlive the round in which the group is known, the own group is never replaced by what a
heartbeat tells, and a slot that is missed is one that is not known to be taken.

* `Member.IsConsistent` — what holds of the state at any time.
* `Member.IsConsistent.handle` — each of the nine messages keeps it.
* `Member.places_agree_of_run` — it holds after any steps of a new member, unless a count overflows.
-/

namespace GroupKey

variable {S : Suite} {ρ : Type}

theorem Snapshot.FitsTier.length_le {p : Parameters S} (hp : p.HasNumberedSlots) {g : Snapshot S}
    (h : g.FitsTier p) : g.slots.bytes.length * 8 ≤ UInt32.size := by
  obtain ⟨scale, hs, hlength⟩ := h.length_slots
  have hsize := hp _ _ hs
  have hvalue : UInt32.size = 4294967296 := rfl
  rw [hlength, Bitmap.byteCount]
  omega

namespace Member

/-! ## The invariant -/

/-- The places in which a member keeps its state agree. -/
structure IsConsistent (ctx : Context S) (m : Member S ρ) : Prop where
  /-- A join is pending just while the member waits for its acknowledgement. -/
  pending : m.engine.pending.isSome = true ↔ m.phase = .joining
  /-- The group that is to be joined is known, and has the slot. -/
  awaited : ∀ pending, m.engine.pending = some pending → ∃ g scale,
    m.groups[pending.group]? = some g ∧ ctx.parameters.scale g.tier = .ok scale ∧
    pending.slot.toNat < scale
  /-- A joined member has a key pair, and knows its group by that key and its slot as taken. -/
  joined : m.phase = .joined → ∃ s g, m.engine.membership = some s ∧
    m.groups[s.group]? = some g ∧ g.key = s.key ∧ g.isOccupied s.slot = true
  /-- Only a joined member misses slots. -/
  gaps_eq : m.phase ≠ .joined → m.gaps = ∅
  /-- A slot that is missed is not known to be taken. -/
  gaps_free : ∀ id g, m.joinedGroup? = some id → m.groups[id]? = some g →
    ∀ slot ∈ m.gaps, g.isOccupied slot = false
  /-- Groups are known by their names, and fit their tiers. -/
  groups : ∀ (id : GroupId) (g : Snapshot S), m.groups[id]? = some g →
    g.id = id ∧ g.FitsTier ctx.parameters

variable {ctx : Context S} {m m' : Member S ρ}

theorem IsConsistent.of_keepsPlace (h : m.IsConsistent ctx) (hkeeps : m.KeepsPlace m') :
    m'.IsConsistent ctx := by
  have hjoined := hkeeps.joinedGroup?_eq
  obtain ⟨-, hphase, hengine, hgroups, hgaps⟩ := hkeeps
  obtain ⟨pending, awaited, joined, gaps_eq, gaps_free, groups⟩ := h
  exact ⟨by rwa [hengine, hphase], by rwa [hengine, hgroups], by rwa [hphase, hengine, hgroups],
    by rwa [hphase, hgaps], by rwa [hjoined, hgroups, hgaps], by rwa [hgroups]⟩

/-- Apart from rounds that just began, a group is known to a member that joined it. -/
theorem IsConsistent.getElem?_own (h : m.IsConsistent ctx) {id : GroupId}
    (hid : m.joinedGroup? = some id) : ∃ s g, m.engine.membership = some s ∧ s.group = id ∧
      m.groups[id]? = some g ∧ g.key = s.key ∧ g.isOccupied s.slot = true := by
  obtain ⟨hphase, s, hs, hgroup⟩ := joinedGroup?_eq_some.1 hid
  obtain ⟨s', g, hs', hg, hkey, hocc⟩ := h.joined hphase
  obtain rfl : s = s' := Option.some.inj (hs.symm.trans hs')
  exact ⟨s, g, hs, hgroup, hgroup ▸ hg, hkey, hocc⟩

/-! ## Heartbeats -/

theorem IsConsistent.giveUpJoin (h : m.IsConsistent ctx) :
    m.giveUpJoin.IsConsistent ctx ∧ m.giveUpJoin.phase ≠ .joining := by
  unfold Member.giveUpJoin
  split
  · next hphase =>
    have hgaps : m.gaps = ∅ := h.gaps_eq (by rw [hphase]; simp)
    refine ⟨⟨by simp [Engine.abandon], by simp [Engine.abandon], by simp, fun _ => hgaps, ?_,
      h.groups⟩, by simp⟩
    intro id g hid
    simp [joinedGroup?] at hid
  · next hphase => exact ⟨h, hphase⟩

theorem IsConsistent.dropExpired (h : m.IsConsistent ctx) (hphase : m.phase ≠ .joining)
    (now : Timestamp) :
    (m.dropExpired now).IsConsistent ctx ∧ (m.dropExpired now).phase ≠ .joining := by
  have hnone : m.engine.pending = none := by
    have hpending := mt h.pending.1 hphase
    simpa using hpending
  have hgroups : ∀ (id : GroupId) (g : Snapshot S),
      (m.groups.filter fun _ g => !g.isExpired now)[id]? = some g →
      g.id = id ∧ g.FitsTier ctx.parameters := fun id g hg => h.groups id g (groups_filter hg)
  unfold Member.dropExpired
  simp only
  split
  · next id hid =>
    obtain ⟨s, g, hs, hgroup, hg, hkey, hocc⟩ := h.getElem?_own hid
    split
    · next hmem =>
      -- The own group is still there, as it was known.
      have hkept : (m.groups.filter fun _ g => !g.isExpired now)[id]? = some g := by
        obtain ⟨g', hg'⟩ : ∃ g', (m.groups.filter fun _ g => !g.isExpired now)[id]? = some g' :=
          ⟨_, Std.ExtTreeMap.getElem?_eq_some_getElem hmem⟩
        rw [hg', ← hg, groups_filter hg']
      refine ⟨⟨h.pending, by simp [hnone], fun _ => ⟨s, g, hs, hgroup ▸ hkept, hkey, hocc⟩,
        h.gaps_eq, fun id' g' hid' hg' => ?_, hgroups⟩, hphase⟩
      exact h.gaps_free id' g' hid' (groups_filter hg')
    · refine ⟨⟨by simp [hnone], by simp [hnone], by simp, fun _ => rfl, ?_, hgroups⟩, by simp⟩
      intro id' g' hid'
      simp [joinedGroup?] at hid'
  · next hunjoined =>
    have hphase' : m.phase ≠ .joined := by
      intro hjoined
      obtain ⟨s, g, hs, -⟩ := h.joined hjoined
      exact Option.some_ne_none s.group ((joinedGroup?_eq_some.2 ⟨hjoined, s, hs, rfl⟩).symm.trans
        hunjoined)
    refine ⟨⟨h.pending, by simp [hnone], fun hjoined => absurd hjoined hphase', h.gaps_eq, ?_,
      hgroups⟩, hphase⟩
    intro id' g' hid'
    exact absurd (hid'.symm.trans hunjoined) (Option.some_ne_none id')

theorem IsConsistent.insert (h : m.IsConsistent ctx) (hphase : m.phase ≠ .joining)
    {info : Snapshot S} (hinfo : info.FitsTier ctx.parameters)
    (hother : m.joinedGroup? ≠ some info.id) :
    IsConsistent ctx { m with groups := m.groups.insert info.id info } := by
  have hnone : m.engine.pending = none := by
    have hpending := mt h.pending.1 hphase
    simpa using hpending
  refine ⟨h.pending, by simp [hnone], fun hjoined => ?_, h.gaps_eq, fun id g hid hg => ?_,
    fun id g hg => ?_⟩
  · obtain ⟨s, g, hs, hg, hkey, hocc⟩ := h.joined hjoined
    have hne : info.id ≠ s.group := fun heq =>
      hother (joinedGroup?_eq_some.2 ⟨hjoined, s, hs, heq.symm⟩)
    exact ⟨s, g, hs, (getElem?_insert_of_ne hne).trans hg, hkey, hocc⟩
  · have hne : info.id ≠ id := fun heq => hother (heq ▸ hid)
    rw [getElem?_insert_of_ne hne] at hg
    exact h.gaps_free id g hid hg
  · rcases getElem?_insert_cases hg with ⟨rfl, rfl⟩ | ⟨-, hg⟩
    · exact ⟨rfl, hinfo⟩
    · exact h.groups id g hg

theorem IsConsistent.merge (hp : ctx.parameters.HasNumberedSlots) (h : m.IsConsistent ctx)
    (hphase : m.phase ≠ .joining) {info : Snapshot S} (hinfo : info.FitsTier ctx.parameters) :
    (merge m.joinedGroup? m info).IsConsistent ctx := by
  unfold Member.merge
  split
  · next hnew =>
    refine h.insert hphase hinfo fun hown => ?_
    obtain ⟨s, g, -, -, hg, -⟩ := h.getElem?_own hown
    rw [hnew] at hg
    simp at hg
  · next cached hcached =>
    split
    · exact h
    · split
      · next hown =>
        have hjoined := (joinedGroup?_eq_some.1 hown).1
        refine ⟨h.pending, h.awaited, h.joined, fun hne => absurd hjoined hne,
          fun id g hid hg slot hslot => ?_, h.groups⟩
        have hid' : m.joinedGroup? = some id := hid
        obtain rfl : info.id = id := Option.some.inj (hown.symm.trans hid')
        obtain rfl : cached = g := Option.some.inj (hcached.symm.trans hg)
        rcases mem_foldl_insert.1 hslot with hmissed | hslot
        · obtain ⟨hdiff, htaken⟩ := List.mem_filter.1 hmissed
          have hfits := (h.groups _ _ hcached).2
          have hne := Bitmap.ne_of_mem_diff (hfits.length_le hp) hdiff
          rw [show info.slots.isOccupied slot = true from htaken] at hne
          exact Bool.eq_false_iff.2 hne
        · exact h.gaps_free _ _ hown hcached slot hslot
      · next hother => exact h.insert hphase hinfo hother

theorem joinedGroup?_merge (joined : Option GroupId) (info : Snapshot S) :
    (merge joined m info).joinedGroup? = m.joinedGroup? ∧
      (merge joined m info).phase = m.phase := by
  obtain ⟨groups, gaps, h⟩ := (merged_merge joined m info).rest
  rw [h]
  exact ⟨rfl, rfl⟩

theorem IsConsistent.merge_all (hp : ctx.parameters.HasNumberedSlots) (h : m.IsConsistent ctx)
    (hphase : m.phase ≠ .joining) {infos : List (Snapshot S)}
    (hinfos : ∀ info ∈ infos, info.FitsTier ctx.parameters) :
    (infos.foldl (Member.merge m.joinedGroup?) m).IsConsistent ctx := by
  induction infos generalizing m with
  | nil => exact h
  | cons info infos ih =>
    obtain ⟨hjoined, hsame⟩ := joinedGroup?_merge (m := m) m.joinedGroup? info
    have hfirst := h.merge hp hphase (hinfos info List.mem_cons_self)
    have hrest := ih hfirst (hsame ▸ hphase) fun info hinfo =>
      hinfos info (List.mem_cons_of_mem _ hinfo)
    rwa [hjoined] at hrest

theorem IsConsistent.heartbeat (hp : ctx.parameters.HasNumberedSlots) (h : m.IsConsistent ctx)
    (now : Timestamp) {hb : Heartbeat S}
    (hinfos : ∀ info ∈ hb.groups, info.FitsTier ctx.parameters) :
    (m.handleHeartbeat now hb).2.IsConsistent ctx := by
  obtain ⟨hgive, hidle⟩ := h.giveUpJoin
  obtain ⟨hdrop, hphase⟩ := hgive.dropExpired hidle now
  exact (hdrop.merge_all hp hphase hinfos).of_keepsPlace ⟨rfl, rfl, rfl, rfl, rfl⟩

/-! ## Acknowledgements -/

theorem IsConsistent.joinAck (h : m.IsConsistent ctx) {ack : JoinAck S}
    (hok : (m.handleJoinAck ack).1 ≠ .error .memberCountOverflow) :
    (m.handleJoinAck ack).2.IsConsistent ctx := by
  rcases handleJoinAck_cases ack m with ⟨-, hpassed⟩ | ⟨pending, hc, hack⟩
  · rw [hpassed]
    exact h
  · obtain ⟨g, scale, hg, hscale, hslot⟩ := h.awaited pending hc.awaited
    rw [hc.group] at hg
    rw [hc.slot] at hslot
    obtain ⟨hid, hfits⟩ := h.groups _ _ hg
    obtain ⟨scale', hscale', hlength⟩ := hfits.length_slots
    obtain rfl : scale = scale' := Except.ok.inj (hscale.symm.trans hscale')
    have hreach : g.slots.Reaches ack.slot := Bitmap.reaches_of_lt hlength hslot
    -- With the group under its new key and the slot taken, the new place is consistent.
    have hplace : ∀ g' : Snapshot S, g'.key = ack.key → g'.isOccupied ack.slot = true →
        g'.id = ack.group → g'.FitsTier ctx.parameters →
        IsConsistent ctx { m.admittedBy ack pending.reserved with
          groups := m.groups.insert ack.group g' } := by
      intro g' hkey hocc hid' hfits'
      refine ⟨by simp [admittedBy], by simp [admittedBy], fun _ => ?_,
        fun hne => absurd rfl hne, fun id g₁ hid hg₁ slot hslot => ?_, fun id g₁ hg₁ => ?_⟩
      · exact ⟨_, g', rfl, Std.ExtTreeMap.getElem?_insert_self, hkey, hocc⟩
      · simp [admittedBy] at hslot
      · rcases getElem?_insert_cases hg₁ with ⟨rfl, rfl⟩ | ⟨-, hg₁⟩
        · exact ⟨hid', hfits'⟩
        · exact h.groups id g₁ hg₁
    rw [hack, hg] at hok ⊢
    simp only at hok ⊢
    split
    · next hocc => exact hplace _ rfl hocc hid ⟨hfits.tier, hfits.length_slots⟩
    · next hfree =>
      rw [if_neg hfree] at hok
      rcases fillSlot_cases (m := m.admittedBy ack pending.reserved) hg ack.slot ack.key with
        hover | hfilled
      · exact absurd hover hok
      · rw [hfilled]
        refine hplace _ rfl ?_ hid ⟨hfits.tier, scale, hscale, ?_⟩
        · exact (Bitmap.isOccupied_occupy _ _ _).2 (.inl ⟨rfl, hreach⟩)
        · rw [Bitmap.length_occupy, hlength]

/-! ## Assignments -/

variable [Generator ρ]

/-- An assignment is passed over or fails, or makes the member wait for a slot that its group has.
-/
theorem handleNotifyPosition_state (ctx : Context S) (a : Assignment) (directory : Directory S)
    (m : Member S ρ) :
    ∃ engine generator phase,
      (m.handleNotifyPosition ctx a directory).2.1 = { m with engine, generator, phase } ∧
      engine.membership = m.engine.membership ∧
      (phase = m.phase ∧ engine.pending = m.engine.pending ∨
        m.phase = .unset ∧ phase = .joining ∧ ∃ g scale pending, m.groups[a.group]? = some g ∧
          ctx.parameters.scale g.tier = .ok scale ∧ engine.pending = some pending ∧
          pending.group = a.group ∧ pending.slot.toNat < scale) := by
  have hassigned := assigned_handleNotifyPosition ctx a directory m
  generalize m.handleNotifyPosition ctx a directory = r at hassigned ⊢
  cases hassigned with
  | passed | unscaled => exact ⟨m.engine, m.generator, m.phase, rfl, rfl, .inl ⟨rfl, rfl⟩⟩
  | unproved _ proves failed =>
    subst proves
    exact ⟨_, _, m.phase, rfl, Engine.membership_prove .., .inl ⟨rfl,
      Engine.pending_prove_of_error failed⟩⟩
  | @proved g scale _ _ takes proves made =>
    subst proves
    obtain ⟨-, -, pending, hpending, hgroup, hslot⟩ := Engine.prove_names made
    exact ⟨_, _, .joining, rfl, Engine.membership_prove .., .inr ⟨takes.unset, rfl, g, scale,
      pending, takes.known, takes.tier, hpending, hgroup, hslot ▸ takes.fits⟩⟩

theorem IsConsistent.notifyPosition (h : m.IsConsistent ctx) (a : Assignment)
    (directory : Directory S) : (m.handleNotifyPosition ctx a directory).2.1.IsConsistent ctx := by
  obtain ⟨engine, generator, phase, hm, hmembership, ⟨rfl, hpending⟩ |
    ⟨hunset, rfl, g, scale, pending, hg, hscale, hpending, hgroup, hslot⟩⟩ :=
      handleNotifyPosition_state ctx a directory m
  · rw [hm]
    have hjoined : joinedGroup? { m with engine, generator } = m.joinedGroup? := by
      simp only [joinedGroup?, hmembership]
    obtain ⟨pending, awaited, joined, gaps_eq, gaps_free, groups⟩ := h
    exact ⟨by rwa [hpending], by rwa [hpending], by rwa [hmembership], gaps_eq,
      by rwa [hjoined], groups⟩
  · rw [hm]
    have hgaps : m.gaps = ∅ := h.gaps_eq (by rw [hunset]; simp)
    refine ⟨by simp [hpending], fun pending' hpending' => ?_, by simp, fun _ => hgaps, ?_, h.groups⟩
    · obtain rfl := Option.some.inj (hpending.symm.trans hpending')
      exact ⟨g, scale, hgroup ▸ hg, hscale, hslot⟩
    · intro id g hid
      simp [joinedGroup?] at hid

/-! ## Joins -/

theorem IsConsistent.join (h : m.IsConsistent ctx) {directory : Directory S} {join : Join S}
    (hok : (m.handleJoin ctx directory join).1 ≠ .error .memberCountOverflow) :
    (m.handleJoin ctx directory join).2.IsConsistent ctx := by
  rcases handleJoin_cases ctx directory join m with
    ⟨-, generator, hpassed⟩ | ⟨g, engine, generator, result, m₁, hf, hfill, hjoin⟩
  · rw [hpassed]
    exact h.of_keepsPlace ⟨rfl, rfl, rfl, rfl, rfl⟩
  · obtain ⟨s, g', hs, hgroup, hg', hkey, hocc⟩ := h.getElem?_own hf.own
    obtain rfl : g = g' := Option.some.inj (hf.known.symm.trans hg')
    obtain ⟨s', change, share, hs', hchange, rfl⟩ := Engine.absorb_changes hf.absorb
    obtain rfl : s = s' := Option.some.inj (hs.symm.trans hs')
    obtain ⟨hphase, -⟩ := joinedGroup?_eq_some.1 hf.own
    have hnone : m.engine.pending = none := by
      have hpending := mt h.pending.1 (by rw [hphase]; simp)
      simpa using hpending
    -- The key pair changes before the slot is counted, so a count that overflows is seen too late.
    rcases fillSlot_cases (m := { m with
        engine := { m.engine with membership := some { s with
          key := s.key.apply change, decryptionKey := share } }
        generator }) hf.known join.proof.slot (s.key.apply change) with hover | hfilled
    · rw [hjoin] at hok
      have hresult : result = .error .memberCountOverflow := by
        rw [← hover]
        exact (congrArg Prod.fst hfill).symm
      exact absurd hresult hok
    · have hfill' := hfill.symm.trans hfilled
      obtain ⟨rfl, rfl⟩ := Prod.mk.inj hfill'
      rw [hjoin]
      have hown : joinedGroup? { m with
          engine := { m.engine with membership := some { s with
            key := s.key.apply change, decryptionKey := share } } } = some join.proof.group :=
        joinedGroup?_eq_some.2 ⟨hphase, _, rfl, hgroup⟩
      refine ⟨by simp [hnone, hphase], by simp [hnone], fun _ => ?_,
        fun hne => absurd hphase hne, fun id g₁ hid hg₁ slot hslot => ?_, fun id g₁ hg₁ => ?_⟩
      · refine ⟨_, { g with
            slots := g.slots.occupy join.proof.slot
            memberCount := g.memberCount + 1
            key := s.key.apply change }, rfl, ?_, rfl, ?_⟩
        · rw [show s.group = join.proof.group from hgroup]
          exact Std.ExtTreeMap.getElem?_insert_self
        · exact (Bitmap.isOccupied_occupy _ _ _).2 (.inr hocc)
      · obtain rfl : join.proof.group = id := Option.some.inj (hown.symm.trans hid)
        rw [Std.ExtTreeMap.getElem?_insert_self, Option.some.injEq] at hg₁
        subst hg₁
        obtain ⟨hne, hslot⟩ := Std.ExtTreeSet.mem_erase.1 hslot
        have hfree := h.gaps_free _ _ hf.own hf.known slot hslot
        refine Bool.eq_false_iff.2 fun htaken => ?_
        rcases (Bitmap.isOccupied_occupy _ _ _).1 htaken with ⟨heq, -⟩ | htaken
        · exact hne (Std.LawfulEqCmp.compare_eq_iff_eq.2 heq)
        · rw [Snapshot.isOccupied, htaken] at hfree
          simp at hfree
      · rcases getElem?_insert_cases hg₁ with ⟨rfl, rfl⟩ | ⟨-, hg₁⟩
        · obtain ⟨hid, htier, scale, hscale, hlength⟩ := h.groups _ _ hf.known
          refine ⟨hid, htier, scale, hscale, ?_⟩
          rw [Bitmap.length_occupy, hlength]
        · exact h.groups id g₁ hg₁

/-! ## Steps -/

theorem IsConsistent.handle (hp : ctx.parameters.HasNumberedSlots) (h : m.IsConsistent ctx)
    (now : Timestamp) (directory : Directory S) {msg : Message S}
    (hmsg : ∀ hb, msg = .heartbeat hb → ∀ info ∈ hb.groups, info.FitsTier ctx.parameters)
    (hok : (m.handle ctx now msg directory).1 ≠ .error .memberCountOverflow) :
    (m.handle ctx now msg directory).2.1.IsConsistent ctx := by
  -- A failure to count is handed on.
  have hcount : ∀ r : Except NodeError Unit,
      (r.map fun _ => ([] : List (Message S))) ≠ .error .memberCountOverflow →
      r ≠ .error .memberCountOverflow := by
    rintro r hr rfl
    exact hr rfl
  cases msg with
  | heartbeat hb => exact h.heartbeat hp now (hmsg hb rfl)
  | notifyPosition a => exact h.notifyPosition a directory
  | join join => exact h.join (hcount _ hok)
  | joinAck ack => exact h.joinAck (hcount _ hok)
  | heartbeatAck ack => exact h
  | keyEncapNotify | keyEncap | keyUpdate | keyUpdateAck =>
    exact h.of_keepsPlace (keepsPlace_handle (by trivial) now directory)

theorem IsConsistent.receive (hp : ctx.parameters.HasNumberedSlots) (h : m.IsConsistent ctx)
    (now : Timestamp) (frame : Bytes) (directory : Directory S)
    (hok : (m.receive ctx now frame directory).1 ≠ .error .memberCountOverflow) :
    (m.receive ctx now frame directory).2.1.IsConsistent ctx := by
  simp only [Member.receive, Context.decode?] at hok ⊢
  cases hm : Message.decode ctx.parameters frame with
  | error err => exact h
  | ok msg =>
    simp only [hm] at hok ⊢
    refine h.handle hp now directory (fun hb hmsg => ?_) hok
    subst hmsg
    exact Message.fitsTier_of_decode hm

theorem IsConsistent.tick (h : m.IsConsistent ctx) (now : Timestamp) (timer : Timer) :
    (m.tick ctx now timer).2.IsConsistent ctx :=
  h.of_keepsPlace (m.keepsPlace_tick ctx now timer).1

/-- The reaction of a member, with its answer. -/
def react (ctx : Context S) (e : Coordinator.Stimulus S) (m : Member S ρ) :
    Except NodeError (List (Message S)) × Member S ρ :=
  match e.input with
  | .frame bytes =>
    let (answer, m, _) := m.receive ctx e.now bytes e.directory
    (answer, m)
  | .timer timer =>
    let (ms, m) := m.tick ctx e.now timer
    (.ok ms, m)

/-- **Every step keeps the state consistent**, unless a count overflows. -/
theorem IsConsistent.react (hp : ctx.parameters.HasNumberedSlots) (h : m.IsConsistent ctx)
    {e : Coordinator.Stimulus S} (hok : (m.react ctx e).1 ≠ .error .memberCountOverflow) :
    (m.react ctx e).2.IsConsistent ctx := by
  unfold Member.react at hok ⊢
  cases hin : e.input with
  | timer timer => exact h.tick e.now timer
  | frame bytes =>
    simp only [hin] at hok
    exact h.receive hp e.now bytes e.directory hok

/-! ## Runs -/

/-- The state after a run. -/
def run (ctx : Context S) (m : Member S ρ) (events : List (Coordinator.Stimulus S)) : Member S ρ :=
  events.foldl (fun m e => (m.react ctx e).2) m

/-- No step of the run makes a count overflow. -/
def Survives (ctx : Context S) : Member S ρ → List (Coordinator.Stimulus S) → Prop
  | _, [] => True
  | m, e :: events => (m.react ctx e).1 ≠ .error .memberCountOverflow ∧
      Survives ctx (m.react ctx e).2 events

theorem IsConsistent.run (hp : ctx.parameters.HasNumberedSlots) (h : m.IsConsistent ctx)
    {events : List (Coordinator.Stimulus S)} (hok : m.Survives ctx events) :
    (m.run ctx events).IsConsistent ctx := by
  induction events generalizing m with
  | nil => exact h
  | cons e events ih => exact ih (h.react hp hok.1) hok.2

/-- A new node knows no group, and all that its engine has is a key that was drawn for it. -/
theorem new_eq_ok {pid : UInt32} {generator : ρ} {directory directory' : Directory S}
    (h : Member.new pid generator directory = (.ok m, directory')) :
    ∃ key res, NodeKey.Drawn ⟨directory, generator⟩ (.ok key, res) ∧ directory' = res.directory ∧
      m = ⟨pid, .unset, { Engine.empty with key := some key }, ∅, ∅, .empty, res.generator⟩ := by
  have hdrawn := NodeKey.drawn_fresh (S := S) ⟨directory, generator⟩
  unfold Member.new at h
  simp only [Engine.keyGen] at h
  rcases hf : NodeKey.fresh (S := S) ⟨directory, generator⟩ with ⟨_ | key, res⟩
  · simp [hf] at h
  · rw [hf] at h hdrawn
    obtain ⟨hm, rfl⟩ := Prod.mk.inj h
    exact ⟨key, res, hdrawn, rfl, (Except.ok.inj hm).symm⟩

theorem isConsistent_new {pid : UInt32} {generator : ρ} {directory directory' : Directory S}
    (h : Member.new pid generator directory = (.ok m, directory')) : m.IsConsistent ctx := by
  obtain ⟨key, res, -, -, rfl⟩ := new_eq_ok h
  exact ⟨by simp [Engine.empty], by simp [Engine.empty], by simp, fun _ => rfl, by simp, by simp⟩

/-- **The state of a member at any time.** Let a new member take any steps: frames of any bytes,
timers, and any directory and clock at each, but none that makes a count overflow. Then it has a
join pending just while it is joining, for a group that it knows. If it is joined, it has a key pair
for a group that it knows by the same key, with its own slot taken. It misses no slots unless it is
joined, and none that it knows to be taken. -/
theorem places_agree_of_run (hp : ctx.parameters.HasNumberedSlots) {pid : UInt32} {generator : ρ}
    {directory directory' : Directory S}
    (hnew : Member.new pid generator directory = (.ok m, directory'))
    (events : List (Coordinator.Stimulus S)) (hok : m.Survives ctx events) :
    (m.run ctx events).IsConsistent ctx :=
  (isConsistent_new hnew).run hp hok

/-! ### A run with one join -/

instance decidableSurvives (ctx : Context S) :
    (m : Member S ρ) → (events : List (Coordinator.Stimulus S)) → Decidable (m.Survives ctx events)
  | _, [] => isTrue trivial
  | m, e :: events =>
    have := decidableSurvives ctx (m.react ctx e).2 events
    have : Decidable ((m.react ctx e).1 = .error .memberCountOverflow) :=
      match (m.react ctx e).1 with
      | .ok _ => isFalse (by simp)
      | .error err => decidable_of_iff (err = .memberCountOverflow) (by simp)
    inferInstanceAs (Decidable (_ ∧ _))

/-- A new member. -/
def sampleMember : Member .sample Counter :=
  ((Member.new 1 (Counter.mk 100) .empty).1.toOption).get (by decide +kernel)

/-- It hears of the first group, is handed its first slot and gets a share for it. -/
def sampleAdmission? : Option (List (Coordinator.Stimulus .sample)) := do
  let directory := (Member.new (S := .sample) 1 (Counter.mk 100) .empty).2
  let told ←
    (Coordinator.sampleNew.react sampleContext ⟨directory, ⟨1000⟩, .timer .heartbeat⟩).1.toOption
  let heartbeat ← told.head?
  let assignment : Message .sample := .notifyPosition ⟨Coordinator.sampleGroup, 0, 1⟩
  let opening : List (Coordinator.Stimulus .sample) :=
    [⟨directory, ⟨1000⟩, .frame heartbeat.encode⟩, ⟨directory, ⟨2000⟩, .frame assignment.encode⟩]
  let pending ← (sampleMember.run sampleContext opening).engine.pending
  let ack : Message .sample :=
    .joinAck ⟨Coordinator.sampleGroup, 0, 7, Suite.sample.base1, pending.key⟩
  return opening ++ [⟨directory, ⟨3000⟩, .frame ack.encode⟩]

/-- In this run the member is joined, and knows its slot as taken. -/
theorem places_agree_of_run_one_join :
    ∃ events s g, sampleAdmission? = some events ∧
      (sampleMember.run sampleContext events).phase = .joined ∧
      (sampleMember.run sampleContext events).engine.membership = some s ∧
      (sampleMember.run sampleContext events).groups[s.group]? = some g ∧ g.key = s.key ∧
      g.isOccupied s.slot = true := by
  have hrun : (sampleAdmission?.any fun events =>
      decide (sampleMember.Survives sampleContext events) &&
        decide ((sampleMember.run sampleContext events).phase = .joined)) = true := by
    decide +kernel
  obtain ⟨events, hevents, hrun⟩ := (Option.any_eq_true _ _).1 hrun
  simp only [Bool.and_eq_true, decide_eq_true_eq] at hrun
  have hnew : Member.new 1 (Counter.mk 100) .empty =
      (.ok sampleMember, (Member.new (S := .sample) 1 (Counter.mk 100) .empty).2) :=
    Prod.ext (eq_ok_of_toOption (by decide +kernel)) rfl
  have hp : sampleContext.parameters.HasNumberedSlots :=
    (Parameters.isSetup_of_setup setup_sample).hasNumberedSlots
  obtain ⟨s, g, hs, hg, hkey, hocc⟩ := (places_agree_of_run hp hnew events hrun.1).joined hrun.2
  exact ⟨events, s, g, hevents, hrun.2, hs, hg, hkey, hocc⟩

end Member

end GroupKey
