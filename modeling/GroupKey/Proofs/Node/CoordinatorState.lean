import GroupKey.Proofs.Group.Consistency
import GroupKey.Proofs.Node.Coordinator
import GroupKey.Proofs.Node.Ledger
import GroupKey.Proofs.Session.Liveness

/-!
# The state of a coordinator holds together

The coordinator keeps the same facts in several places: a phase and an assignment, a group and the
name it is held under, a count and a bitmap, a record of a member and the slot it took. Frames may
say anything, the clock may jump and a group may expire under a join that is awaited. None of this
drives the places apart.

* `Coordinator.IsConsistent` — what holds of the state at any time.
* `Numbered` — joined members hold their slots, while no number was given to a second group.
* `Keeps` — a step that leaves the state alone but may forget members.
* `Alters`, `alters_react` — every other step is a heartbeat, hands out a slot, or lets a join in.
* `IsConsistent.run`, `Numbered.run` — the state after any steps.
* `state_of_run` — both, for all runs of a new coordinator.

Numbers of groups have sixteen bits. After 65536 groups one may be founded under a name that was
given before, and a record may speak of the earlier one. That is why the last property is one of
runs that found no more groups.
-/

namespace GroupKey

/-! ## Records of members -/

namespace Liveness

/-- No member counts as joined that did not before, and its slot is the same. -/
def KeepsJoined (l l' : Liveness) : Prop :=
  ∀ pid record', l'.get? pid = some record' → record'.joined = true →
    ∃ record, l.get? pid = some record ∧ record.joined = true ∧ record.slot = record'.slot

theorem KeepsJoined.refl (l : Liveness) : l.KeepsJoined l :=
  fun _ record h hj => ⟨record, h, hj, rfl⟩

theorem KeepsJoined.trans {l l' l'' : Liveness} (h : l.KeepsJoined l') (h' : l'.KeepsJoined l'') :
    l.KeepsJoined l'' := by
  intro pid record'' hr hj
  obtain ⟨record', hr', hj', hs'⟩ := h' pid record'' hr hj
  obtain ⟨record, hr, hj, hs⟩ := h pid record' hr' hj'
  exact ⟨record, hr, hj, hs.trans hs'⟩

theorem KeepsJoined.of_sub {l l' : Liveness}
    (h : ∀ pid record, l'.get? pid = some record → l.get? pid = some record) : l.KeepsJoined l' :=
  fun pid record hr hj => ⟨record, h pid record hr, hj, rfl⟩

theorem keepsJoined_touch (l : Liveness) (pid : UInt32) (now : Timestamp) (phase : Phase) :
    l.KeepsJoined (l.touch pid now phase) := by
  intro q record' hr hj
  rw [get?_touch] at hr
  by_cases h : pid = q
  · rw [if_pos h] at hr
    obtain rfl := Option.some.inj hr
    subst h
    cases hg : l.get? pid with
    | none => simp [hg] at hj
    | some record =>
      simp only [hg, Option.getD_some] at hj
      exact ⟨record, rfl, hj, by simp⟩
  · rw [if_neg h] at hr
    exact ⟨record', hr, hj, rfl⟩

/-- A slot that is handed out is not yet a joined member's. -/
theorem keepsJoined_assign (l : Liveness) (pid : UInt32) (slot : Option (GroupId × UInt32)) :
    l.KeepsJoined (l.assign pid slot false) := by
  intro q record' hr hj
  rw [get?_assign] at hr
  by_cases h : pid = q
  · rw [if_pos h] at hr
    obtain ⟨record, -, rfl⟩ := Option.map_eq_some_iff.1 hr
    simp at hj
  · rw [if_neg h] at hr
    exact ⟨record', hr, hj, rfl⟩

theorem keepsJoined_remove (l : Liveness) (pid : UInt32) : l.KeepsJoined (l.remove pid) := by
  refine .of_sub fun q record hr => ?_
  rw [get?_remove] at hr
  split at hr
  · simp at hr
  · exact hr

theorem keepsJoined_evictStale (l : Liveness) (now : Timestamp) (timeout : Duration) :
    l.KeepsJoined (l.evictStale now timeout).2 := by
  refine .of_sub fun q record hr => ?_
  rw [get?, evictStale, getElem?_foldl_erase] at hr
  split at hr
  · simp at hr
  · exact hr

end Liveness

variable {S : Suite} {ρ : Type}

namespace Coordinator

/-! ## The invariant -/

/-- The places in which a coordinator keeps its state agree. -/
structure IsConsistent (ctx : Context S) (c : Coordinator S ρ) : Prop where
  awaited : c.phase = .handlingJoin ↔ c.assignment.isSome = true
  assigned : ∀ a, c.assignment = some a → c.assignedThisRound = true ∧
    ∃ g, c.groups[a.group]? = some g ∧ a.slot.toNat < g.scale ∧ g.info.isOccupied a.slot = false
  group : ∀ (id : GroupId) (g : ManagedGroup S), c.groups[id]? = some g →
    g.IsConsistent ctx.parameters id
  current : ∀ id, c.current = some id → ∃ g, c.groups[id]? = some g
  joined : ∀ pid record, c.liveness.get? pid = some record → record.joined = true →
    record.slot.isSome = true
  tier : ∃ scale, ctx.parameters.scale c.tier = .ok scale

/-- A joined member whose group is held has its slot there. The numbers given to groups so far are
those below `n`. -/
structure Numbered (n : Nat) (c : Coordinator S ρ) : Prop where
  next : c.nextGroupSeq.toNat = n % UInt16.size
  held : ∀ (id : GroupId) (g : ManagedGroup S), c.groups[id]? = some g → id.seq.toNat < n
  holds : ∀ pid record id slot, c.liveness.get? pid = some record → record.joined = true →
    record.slot = some (id, slot) → id.seq.toNat < n ∧
      ∀ g : ManagedGroup S, c.groups[id]? = some g → g.info.isOccupied slot = true

/-- The state stays as it is, but for members that may be forgotten. -/
structure Keeps (c c' : Coordinator S ρ) : Prop where
  phase : c'.phase = c.phase
  assignment : c'.assignment = c.assignment
  assignedThisRound : c'.assignedThisRound = c.assignedThisRound
  tier : c'.tier = c.tier
  groups : c'.groups = c.groups
  current : c'.current = c.current
  nextGroupSeq : c'.nextGroupSeq = c.nextGroupSeq
  joined : c.liveness.KeepsJoined c'.liveness

variable {ctx : Context S} {c c' : Coordinator S ρ} {n : Nat}

theorem Keeps.refl (c : Coordinator S ρ) : Keeps c c := ⟨rfl, rfl, rfl, rfl, rfl, rfl, rfl, .refl _⟩

theorem IsConsistent.of_keeps (h : c.IsConsistent ctx) (hk : Keeps c c') : c'.IsConsistent ctx where
  awaited := by rw [hk.phase, hk.assignment, h.awaited]
  assigned := by
    rw [hk.assignment, hk.assignedThisRound, hk.groups]
    exact h.assigned
  group := by
    rw [hk.groups]
    exact h.group
  current := by
    rw [hk.current, hk.groups]
    exact h.current
  joined pid record hr hj := by
    obtain ⟨record', hr', hj', hs⟩ := hk.joined pid record hr hj
    rw [← hs]
    exact h.joined pid record' hr' hj'
  tier := by
    rw [hk.tier]
    exact h.tier

theorem Numbered.of_keeps (h : c.Numbered n) (hk : Keeps c c') : c'.Numbered n where
  next := by rw [hk.nextGroupSeq, h.next]
  held := by
    rw [hk.groups]
    exact h.held
  holds pid record id slot hr hj hslot := by
    obtain ⟨record', hr', hj', hs⟩ := hk.joined pid record hr hj
    rw [hk.groups]
    exact h.holds pid record' id slot hr' hj' (hs.trans hslot)

theorem state_new {pid : UInt32} {secrets : SlotSecrets S} {generator : ρ}
    (h : Coordinator.new ctx pid secrets generator = .ok c) :
    c.IsConsistent ctx ∧ c.Numbered 0 := by
  obtain ⟨tier, htier, rfl⟩ := eq_of_new h
  have hscale : ∃ scale, ctx.parameters.scale tier = .ok scale := by
    unfold Parameters.tierForSize? at htier
    split at htier
    · next i hi =>
      split at htier
      · next hlt =>
        obtain rfl := Option.some.inj htier
        obtain ⟨hlen, -⟩ := List.findIdx?_eq_some_iff_getElem.1 hi
        refine ⟨_, Parameters.scale_eq_ok.2 ⟨ctx.parameters.tiers[i], ?_, rfl⟩⟩
        rw [Parameters.tier, UInt16.toNat_ofNat_of_lt' hlt, List.getElem?_eq_getElem hlen]
      · simp at htier
    · simp at htier
  refine ⟨⟨by simp, by simp, by simp, by simp, ?_, hscale⟩, ⟨rfl, by simp, ?_⟩⟩
  · intro pid record hr
    simp [Liveness.empty, Liveness.get?] at hr
  · intro pid record id slot hr
    simp [Liveness.empty, Liveness.get?] at hr

theorem keeps_note (now : Timestamp) (ack : HeartbeatAck) (c : Coordinator S ρ) :
    Keeps c (c.note now ack) := by
  refine ⟨rfl, rfl, rfl, rfl, rfl, rfl, rfl, ?_⟩
  have htouch := c.liveness.keepsJoined_touch ack.pid now ack.phase
  unfold note
  by_cases hunset : ack.phase = .unset
  · simp only [if_pos hunset]
    exact htouch.trans (Liveness.keepsJoined_assign _ _ _)
  · simp only [if_neg hunset]
    exact htouch

theorem keeps_forgetStale (ctx : Context S) (now : Timestamp) (c : Coordinator S ρ) :
    Keeps c (c.forgetStale ctx now) :=
  ⟨rfl, rfl, rfl, rfl, rfl, rfl, rfl, c.liveness.keepsJoined_evictStale now _⟩

/-! ## Heartbeats -/

/-- A round begins: no join is awaited, expired groups are gone, and there is a group to place
members in, which may be a new one. -/
structure Begins (ctx : Context S) (now : Timestamp) (c c' : Coordinator S ρ) : Prop where
  phase : c'.phase = .idle
  assignment : c'.assignment = none
  tier : c'.tier = c.tier
  joined : c.liveness.KeepsJoined c'.liveness
  groups :
    (c'.groups = c.live now ∧ c'.nextGroupSeq = c.nextGroupSeq ∧
      ∃ id g, c'.current = some id ∧ (c.live now)[id]? = some g) ∨
    ∃ g : ManagedGroup S, g.info.id.seq = c.nextGroupSeq ∧
      g.IsConsistent ctx.parameters g.info.id ∧ c'.groups = (c.live now).insert g.info.id g ∧
      c'.current = some g.info.id ∧ c'.nextGroupSeq = c.nextGroupSeq + 1

theorem Ticks.begins {now : Timestamp}
    {r : Except NodeError (List (Message S)) × Coordinator S ρ}
    (h : Ticks ctx now c .heartbeat r) (hp : ctx.parameters.HasNumberedSlots)
    (htier : ∃ scale, ctx.parameters.scale c.tier = .ok scale) : Begins ctx now c r.2 := by
  have hforget : c.liveness.KeepsJoined (c.rest now).liveness := by
    unfold rest abandonAssignment
    cases c.assignment with
    | none => exact .refl _
    | some stuck => exact c.liveness.keepsJoined_remove stuck.pid
  obtain ⟨scale, hscale⟩ := htier
  obtain ⟨new, hboot, hid, hnew⟩ := ManagedGroup.isConsistent_bootstrap hp hscale c.nextGroupSeq
    (now + ctx.config.groupLifetime)
  cases h with
  | stalled filled fails => simp [hboot] at fails
  | @continued g current room =>
    obtain ⟨id, hcurrent, hheld⟩ := Option.bind_eq_some_iff.1 current
    exact ⟨rfl, rfl, rfl, hforget, .inl ⟨rfl, rfl, id, g, hcurrent, hheld⟩⟩
  | founded filled founds =>
    obtain rfl := Except.ok.inj (hboot.symm.trans founds)
    refine ⟨rfl, rfl, rfl, hforget, .inr ⟨new, ?_, hnew, rfl, rfl, rfl⟩⟩
    rw [hid]
    rfl

theorem IsConsistent.begins {now : Timestamp} (h : c.IsConsistent ctx)
    (hb : Begins ctx now c c') : c'.IsConsistent ctx where
  awaited := by simp [hb.phase, hb.assignment]
  assigned := by simp [hb.assignment]
  group id g hg := by
    rcases hb.groups with ⟨hgroups, -, -⟩ | ⟨new, -, hnew, hgroups, -, -⟩
    · rw [hgroups] at hg
      exact h.group id g (of_getElem?_live hg)
    · rw [hgroups] at hg
      rcases getElem?_insert_cases hg with ⟨rfl, rfl⟩ | ⟨-, hg⟩
      · exact hnew
      · exact h.group id g (of_getElem?_live hg)
  current id hid := by
    rcases hb.groups with ⟨hgroups, -, id', g, hcur, hg⟩ | ⟨new, -, -, hgroups, hcur, -⟩
    · obtain rfl := Option.some.inj (hid.symm.trans hcur)
      exact ⟨g, by rw [hgroups, hg]⟩
    · obtain rfl := Option.some.inj (hid.symm.trans hcur)
      exact ⟨new, by rw [hgroups, Std.ExtTreeMap.getElem?_insert_self]⟩
  joined pid record hr hj := by
    obtain ⟨record', hr', hj', hs⟩ := hb.joined pid record hr hj
    rw [← hs]
    exact h.joined pid record' hr' hj'
  tier := by
    rw [hb.tier]
    exact h.tier

/-- How many groups a step founds. -/
def founds (c c' : Coordinator S ρ) : Nat := if (founded? c c').isSome then 1 else 0

theorem founds_le_one (c c' : Coordinator S ρ) : founds c c' ≤ 1 := by
  unfold founds
  split <;> decide

theorem founds_of_same (h : c'.nextGroupSeq = c.nextGroupSeq) : founds c c' = 0 := by
  rw [founds, Watched.founded?_of_same h]
  rfl

/-- The number of a new group was not given before. -/
theorem Numbered.begins {now : Timestamp} (h : c.Numbered n) (hb : Begins ctx now c c')
    (hn : n + founds c c' ≤ UInt16.size) : c'.Numbered (n + founds c c') := by
  have hkept : ∀ (id : GroupId) (g : ManagedGroup S), (c.live now)[id]? = some g →
      c.groups[id]? = some g := fun _ _ => of_getElem?_live
  rcases hb.groups with ⟨hgroups, hseq, -⟩ | ⟨new, hnumber, -, hgroups, hcur, hseq⟩
  · rw [founds_of_same hseq]
    refine ⟨by rw [hseq, h.next, Nat.add_zero], fun id g hg => ?_,
      fun pid record id slot hr hj hs => ?_⟩
    · rw [hgroups] at hg
      exact h.held id g (hkept id g hg)
    · obtain ⟨record', hr', hj', hs'⟩ := hb.joined pid record hr hj
      obtain ⟨hlt, hocc⟩ := h.holds pid record' id slot hr' hj' (hs'.trans hs)
      refine ⟨hlt, fun g hg => ?_⟩
      rw [hgroups] at hg
      exact hocc g (hkept id g hg)
  -- The numbers given so far are below `n`, which is the one that the new group gets.
  · have hfounds : founds c c' = 1 := by
      rw [founds, Watched.founded?_of_succ hseq, hcur]
      rfl
    rw [hfounds] at hn ⊢
    have hnext : new.info.id.seq.toNat = n := by
      rw [hnumber, h.next, Nat.mod_eq_of_lt hn]
    refine ⟨?_, fun id g hg => ?_, fun pid record id slot hr hj hs => ?_⟩
    · rw [hseq, UInt16.toNat_add, h.next]
      show (n % UInt16.size + 1) % UInt16.size = _
      rw [Nat.mod_add_mod]
    · rw [hgroups] at hg
      rcases getElem?_insert_cases hg with ⟨rfl, -⟩ | ⟨-, hg⟩
      · omega
      · exact Nat.lt_succ_of_lt (h.held id g (hkept id g hg))
    · obtain ⟨record', hr', hj', hs'⟩ := hb.joined pid record hr hj
      obtain ⟨hlt, hocc⟩ := h.holds pid record' id slot hr' hj' (hs'.trans hs)
      refine ⟨Nat.lt_succ_of_lt hlt, fun g hg => ?_⟩
      rw [hgroups] at hg
      rcases getElem?_insert_cases hg with ⟨rfl, -⟩ | ⟨-, hg⟩
      · omega
      · exact hocc g (hkept id g hg)

/-! ## Assignments -/

theorem IsConsistent.handOut (hp : ctx.parameters.HasNumberedSlots) (h : c.IsConsistent ctx)
    {now : Timestamp} {seq : UInt32} {a : Assignment}
    (hslot : c.slotFor? now seq = some (a.group, a.slot)) : (c.handOut a).IsConsistent ctx := by
  obtain ⟨g, hcur, hid, hhead⟩ := offers_of_slotFor? hslot a.pid
  obtain ⟨id, -, hheld⟩ := Option.bind_eq_some_iff.1 hcur
  have hg := h.group id g hheld
  obtain ⟨hbelow, hfree⟩ :=
    ((g.lists_freeSlots (hp _ _ hg.scale)).mem_iff _).1 (List.mem_of_mem_head? hhead)
  refine ⟨by simp [Coordinator.handOut], ?_, h.group, h.current, ?_, h.tier⟩
  · intro a' ha
    obtain rfl := Option.some.inj ha
    refine ⟨rfl, g, ?_, hbelow, hfree⟩
    show c.groups[a.group]? = some g
    rw [show a.group = id from hid.trans hg.id, hheld]
  · intro pid record hr hj
    obtain ⟨record', hr', hj', hs⟩ := c.liveness.keepsJoined_assign a.pid _ pid record hr hj
    rw [← hs]
    exact h.joined pid record' hr' hj'

theorem Numbered.handOut (h : c.Numbered n) (a : Assignment) : (c.handOut a).Numbered n where
  next := h.next
  held := h.held
  holds pid record id slot hr hj hs := by
    obtain ⟨record', hr', hj', hs'⟩ := c.liveness.keepsJoined_assign a.pid _ pid record hr hj
    exact h.holds pid record' id slot hr' hj' (hs'.trans hs)

/-! ## Joins -/

theorem IsConsistent.group_insert (h : c.IsConsistent ctx) {id : GroupId} {g : ManagedGroup S}
    (hg : g.IsConsistent ctx.parameters id) (id' : GroupId) (g' : ManagedGroup S)
    (hg' : (c.groups.insert id g)[id']? = some g') : g'.IsConsistent ctx.parameters id' := by
  rcases getElem?_insert_cases hg' with ⟨rfl, rfl⟩ | ⟨-, hg'⟩
  · exact hg
  · exact h.group id' g' hg'

theorem IsConsistent.current_insert (h : c.IsConsistent ctx) (id : GroupId) (g : ManagedGroup S)
    (id' : GroupId) (hid' : c.current = some id') :
    ∃ g', (c.groups.insert id g)[id']? = some g' := by
  by_cases heq : id = id'
  · subst heq
    exact ⟨g, Std.ExtTreeMap.getElem?_insert_self⟩
  · rw [getElem?_insert_of_ne heq]
    exact h.current id' hid'

theorem Numbered.held_insert (h : c.Numbered n) {id : GroupId} (hid : id.seq.toNat < n)
    (g : ManagedGroup S) (id' : GroupId) (g' : ManagedGroup S)
    (hg' : (c.groups.insert id g)[id']? = some g') : id'.seq.toNat < n := by
  rcases getElem?_insert_cases hg' with ⟨rfl, -⟩ | ⟨-, hg'⟩
  · exact hid
  · exact h.held id' g' hg'

/-- A member that was seated before keeps its slot when a group is replaced by one in which all
slots stay occupied. -/
theorem Numbered.holds_insert (h : c.Numbered n) {id : GroupId} {g g' : ManagedGroup S}
    (hg : c.groups[id]? = some g)
    (hkept : ∀ slot, g.info.isOccupied slot = true → g'.info.isOccupied slot = true)
    {pid : UInt32} {record : MemberRecord} {id' : GroupId} {slot : UInt32}
    (hr : c.liveness.get? pid = some record) (hj : record.joined = true)
    (hs : record.slot = some (id', slot)) : id'.seq.toNat < n ∧
      ∀ g'', (c.groups.insert id g')[id']? = some g'' → g''.info.isOccupied slot = true := by
  obtain ⟨hlt, hocc⟩ := h.holds pid record id' slot hr hj hs
  refine ⟨hlt, fun g'' hg'' => ?_⟩
  rcases getElem?_insert_cases hg'' with ⟨rfl, rfl⟩ | ⟨-, hg''⟩
  · exact hkept slot (hocc g hg)
  · exact hocc g'' hg''

variable [Generator ρ] {directory : Directory S} {join : Join S} {g g' : ManagedGroup S}

theorem IsConsistent.seat_of_admits (hp : ctx.parameters.HasNumberedSlots) (h : c.IsConsistent ctx)
    (hg : Admits ctx directory join c g) :
    let r := g.seat ctx.parameters directory join.proof
    r.2.IsConsistent ctx.parameters join.proof.group ∧ r.2.scale = g.scale ∧
      (∀ slot, g.info.isOccupied slot = true → r.2.info.isOccupied slot = true) ∧
      ((∃ e, r.1 = .error e) ∧ r.2.info.isOccupied join.proof.slot = false ∨
        (∃ share, r.1 = .ok share) ∧ r.2.info.isOccupied join.proof.slot = true) := by
  have hgroup := h.group _ g hg.held
  obtain ⟨t, ht, hscale⟩ := Parameters.scale_eq_ok.1 (hg.tier ▸ hgroup.scale)
  obtain ⟨key, hfits, -⟩ := JoinProof.fits_of_tier ht hg.valid
  exact hgroup.seat hp (hscale ▸ hfits.slot_lt) hg.free

/-- A join that fails late leaves its mark on its group only. -/
theorem IsConsistent.unseated (hp : ctx.parameters.HasNumberedSlots) (h : c.IsConsistent ctx)
    (hg : Admits ctx directory join c g) {err : NodeError}
    (hseat : g.seat ctx.parameters directory join.proof = (.error err, g')) :
    ((c.draw ctx directory join).regroup join g').IsConsistent ctx := by
  obtain ⟨hgroup, hscale, -, houtcome⟩ := h.seat_of_admits hp hg
  rw [hseat] at hgroup hscale houtcome
  obtain ⟨-, hfree⟩ | ⟨⟨share, hshare⟩, -⟩ := houtcome
  swap
  · simp at hshare
  refine ⟨h.awaited, fun a ha => ?_, h.group_insert hgroup, h.current_insert _ g', h.joined, h.tier⟩
  -- The slot that is assigned is that of the join.
  obtain ⟨hround, g₀, hheld, hslot, -⟩ := h.assigned a ha
  obtain rfl := Option.some.inj (ha.symm.trans hg.assigned)
  obtain rfl := Option.some.inj (hheld.symm.trans hg.held)
  exact ⟨hround, g', Std.ExtTreeMap.getElem?_insert_self, hscale ▸ hslot, hfree⟩

theorem Numbered.unseated (hp : ctx.parameters.HasNumberedSlots) (hc : c.IsConsistent ctx)
    (h : c.Numbered n) (hg : Admits ctx directory join c g) {err : NodeError}
    (hseat : g.seat ctx.parameters directory join.proof = (.error err, g')) :
    ((c.draw ctx directory join).regroup join g').Numbered n := by
  obtain ⟨-, -, hkept, -⟩ := hc.seat_of_admits hp hg
  rw [hseat] at hkept
  have hlt := h.held _ g hg.held
  exact ⟨h.next, h.held_insert hlt g', fun pid record id slot hr hj hs =>
    h.holds_insert hg.held hkept hr hj hs⟩

theorem IsConsistent.welcome (hp : ctx.parameters.HasNumberedSlots) (h : c.IsConsistent ctx)
    (hg : Admits ctx directory join c g) {share : S.G1}
    (hseat : g.seat ctx.parameters directory join.proof = (.ok share, g')) (now : Timestamp) :
    ((c.draw ctx directory join).welcome now join g').IsConsistent ctx := by
  obtain ⟨hgroup, -⟩ := h.seat_of_admits hp hg
  rw [hseat] at hgroup
  refine ⟨by simp [Coordinator.welcome], by simp [Coordinator.welcome], h.group_insert hgroup,
    h.current_insert _ g', fun pid record hrecord hj => ?_, h.tier⟩
  simp only [Coordinator.welcome, Coordinator.draw, Liveness.get?_assign] at hrecord
  split at hrecord
  · obtain ⟨record', -, rfl⟩ := Option.map_eq_some_iff.1 hrecord
    rfl
  · obtain ⟨record', hr', hj', hs⟩ :=
      c.liveness.keepsJoined_touch join.pid now .joining pid record hrecord hj
    rw [← hs]
    exact h.joined pid record' hr' hj'

theorem Numbered.welcome (hp : ctx.parameters.HasNumberedSlots) (hc : c.IsConsistent ctx)
    (h : c.Numbered n) (hg : Admits ctx directory join c g) {share : S.G1}
    (hseat : g.seat ctx.parameters directory join.proof = (.ok share, g')) (now : Timestamp) :
    ((c.draw ctx directory join).welcome now join g').Numbered n := by
  obtain ⟨-, -, hkept, houtcome⟩ := hc.seat_of_admits hp hg
  rw [hseat] at hkept houtcome
  have hlt := h.held _ g hg.held
  refine ⟨h.next, h.held_insert hlt g', fun pid record id slot hrecord hj hs => ?_⟩
  simp only [Coordinator.welcome, Coordinator.draw, Liveness.get?_assign] at hrecord
  split at hrecord
  · -- The record of the member that has joined speaks of the slot that it took.
    obtain ⟨record', -, rfl⟩ := Option.map_eq_some_iff.1 hrecord
    obtain ⟨rfl, rfl⟩ := Prod.mk.inj (Option.some.inj hs)
    refine ⟨hlt, fun g'' hg'' => ?_⟩
    obtain rfl : g' = g'' :=
      Option.some.inj (Std.ExtTreeMap.getElem?_insert_self.symm.trans hg'')
    obtain ⟨⟨e, he⟩, -⟩ | ⟨-, hocc⟩ := houtcome
    · simp at he
    · exact hocc
  · obtain ⟨record', hr', hj', hs'⟩ :=
      c.liveness.keepsJoined_touch join.pid now .joining pid record hrecord hj
    exact h.holds_insert hg.held hkept hr' hj' (hs'.trans hs)

/-! ## Steps -/

/-- What a step does to the state. -/
inductive Alters (ctx : Context S) (e : Stimulus S) (c : Coordinator S ρ) :
    Except NodeError (List (Message S)) × Coordinator S ρ → Prop
  | keeps {r : Except NodeError (List (Message S)) × Coordinator S ρ} (keeps : Keeps c r.2) :
      Alters ctx e c r
  | heartbeat {r : Except NodeError (List (Message S)) × Coordinator S ρ}
      (fired : e.input = .timer .heartbeat) (ticks : Ticks ctx e.now c .heartbeat r) :
      Alters ctx e c r
  /-- A member is heard, and handed a slot. -/
  | assigns {ack : HeartbeatAck} {a : Assignment}
      (free : (c.note e.now ack).slotFor? e.now ack.seq = some (a.group, a.slot)) :
      Alters ctx e c (.ok [.notifyPosition a], (c.note e.now ack).handOut a)
  | unseated {join : Join S} {g g' : ManagedGroup S} {err : NodeError}
      (admits : Admits ctx e.directory join c g)
      (seat : g.seat ctx.parameters e.directory join.proof = (.error err, g')) :
      Alters ctx e c (.error err, (c.draw ctx e.directory join).regroup join g')
  | seated {join : Join S} {g g' : ManagedGroup S} {share : S.G1} {ack : JoinAck S}
      (admits : Admits ctx e.directory join c g)
      (seat : g.seat ctx.parameters e.directory join.proof = (.ok share, g')) :
      Alters ctx e c (.ok [.joinAck ack], (c.draw ctx e.directory join).welcome e.now join g')

variable {e : Stimulus S} {r : Except NodeError (List (Message S)) × Coordinator S ρ}

theorem Reacts.alters (h : Reacts ctx e c r) : Alters ctx e c r := by
  cases h with
  | unread => exact .keeps (.refl c)
  | handled arrived h =>
    cases h with
    | noted => exact .keeps (keeps_note e.now _ c)
    | placed unset free => exact .assigns free
    | dropped | early | lost => exact .keeps (.refl c)
    | refuted | answered | proposed => exact .keeps ⟨rfl, rfl, rfl, rfl, rfl, rfl, rfl, .refl _⟩
    | unseated admits seat => exact .unseated admits seat
    | seated admits seat => exact .seated admits seat
  | @ticked timer r fired h =>
    cases timer with
    | heartbeat => exact .heartbeat fired h
    | keyEncapNotify =>
      -- Whoever is asked, the state that is compared is the one without the stale members.
      have hjoined := (keeps_forgetStale ctx e.now c).joined
      cases h <;> exact .keeps ⟨rfl, rfl, rfl, rfl, rfl, rfl, rfl, hjoined⟩
    | keyUpdate =>
      cases h
      exact .keeps (.refl c)

/-- **Every step keeps the state, is a heartbeat, hands out a slot or lets a join in.** -/
theorem alters_react (ctx : Context S) (e : Stimulus S) (c : Coordinator S ρ) :
    Alters ctx e c (c.react ctx e) :=
  (reacts_react ctx e c).alters

theorem Alters.current_of_frame (h : Alters ctx e c r) (hframe : e.input ≠ .timer .heartbeat) :
    r.2.nextGroupSeq = c.nextGroupSeq ∧ r.2.current = c.current := by
  cases h with
  | keeps keeps => exact ⟨keeps.nextGroupSeq, keeps.current⟩
  | heartbeat fired => exact absurd fired hframe
  | assigns | unseated | seated => exact ⟨rfl, rfl⟩

/-- **Every step keeps the state consistent.** -/
theorem IsConsistent.alters (h : c.IsConsistent ctx) (hp : ctx.parameters.HasNumberedSlots)
    (halters : Alters ctx e c r) : r.2.IsConsistent ctx := by
  cases halters with
  | keeps keeps => exact h.of_keeps keeps
  | heartbeat fired ticks => exact h.begins (ticks.begins hp h.tier)
  | assigns free => exact (h.of_keeps (keeps_note e.now _ c)).handOut hp free
  | unseated admits seat => exact h.unseated hp admits seat
  | seated admits seat => exact h.welcome hp admits seat e.now

/-- **Joined members hold their slots after every step**, unless it gives a number again. -/
theorem Numbered.alters (h : c.Numbered n) (hp : ctx.parameters.HasNumberedSlots)
    (hc : c.IsConsistent ctx) (halters : Alters ctx e c r)
    (hn : e.input = .timer .heartbeat → n + founds c r.2 ≤ UInt16.size) :
    r.2.Numbered (n + founds c r.2) := by
  have hsame (hnext : r.2.nextGroupSeq = c.nextGroupSeq) (hr : r.2.Numbered n) :
      r.2.Numbered (n + founds c r.2) := by
    rw [founds_of_same hnext]
    exact hr
  cases halters with
  | keeps keeps => exact hsame keeps.nextGroupSeq (h.of_keeps keeps)
  | heartbeat fired ticks => exact h.begins (ticks.begins hp hc.tier) (hn fired)
  | assigns free => exact hsame rfl ((h.of_keeps (keeps_note e.now _ c)).handOut _)
  | unseated admits seat => exact hsame rfl (h.unseated hp hc admits seat)
  | seated admits seat => exact hsame rfl (h.welcome hp hc admits seat e.now)

theorem IsConsistent.react (hp : ctx.parameters.HasNumberedSlots) (h : c.IsConsistent ctx)
    (e : Stimulus S) : (c.react ctx e).2.IsConsistent ctx :=
  h.alters hp (alters_react ctx e c)

theorem IsConsistent.of_react (hp : ctx.parameters.HasNumberedSlots) (h : c.IsConsistent ctx)
    {e : Stimulus S} {answer : Except NodeError (List (Message S))}
    (hreact : c.react ctx e = (answer, c')) : c'.IsConsistent ctx := by
  have hreacts := h.react hp e
  rwa [hreact] at hreacts

theorem Numbered.react (hp : ctx.parameters.HasNumberedSlots) (hc : c.IsConsistent ctx)
    (h : c.Numbered n) (e : Stimulus S)
    (hn : n + founds c (c.react ctx e).2 ≤ UInt16.size) :
    (c.react ctx e).2.Numbered (n + founds c (c.react ctx e).2) :=
  h.alters hp hc (alters_react ctx e c) fun _ => hn

/-! ## Runs -/

/-- The state after a run. -/
def run (ctx : Context S) (c : Coordinator S ρ) (events : List (Stimulus S)) : Coordinator S ρ :=
  events.foldl (fun c e => (c.react ctx e).2) c

/-- How many groups a run founds. -/
def foundings (ctx : Context S) : Coordinator S ρ → List (Stimulus S) → Nat
  | _, [] => 0
  | c, e :: events =>
    founds c (c.react ctx e).2 + foundings ctx (c.react ctx e).2 events

theorem IsConsistent.run (hp : ctx.parameters.HasNumberedSlots) (h : c.IsConsistent ctx)
    (events : List (Stimulus S)) : (c.run ctx events).IsConsistent ctx := by
  induction events generalizing c with
  | nil => exact h
  | cons e events ih => exact ih (h.react hp e)

theorem Numbered.run (hp : ctx.parameters.HasNumberedSlots) (hc : c.IsConsistent ctx)
    (h : c.Numbered n) (events : List (Stimulus S))
    (hn : n + c.foundings ctx events ≤ UInt16.size) :
    (c.run ctx events).Numbered (n + c.foundings ctx events) := by
  induction events generalizing c n with
  | nil => exact h
  | cons e events ih =>
    rw [foundings, ← Nat.add_assoc] at hn ⊢
    exact ih (hc.react hp e) (h.react hp hc e (by omega)) hn

/-- **The state of a coordinator at any time.** Let a new coordinator take any steps: frames of any
bytes, timers, and any directory and clock at each. Then its state is consistent; its groups are
full exactly when they have no free slot; and if it founded no more than 65536 groups, then every
member that counts as joined has its slot occupied in its group, if that is still held. -/
theorem state_of_run (hp : ctx.parameters.HasNumberedSlots) {pid : UInt32}
    {secrets : SlotSecrets S} {generator : ρ}
    (hnew : Coordinator.new ctx pid secrets generator = .ok c) (events : List (Stimulus S)) :
    let s := c.run ctx events
    s.IsConsistent ctx ∧
      (∀ (id : GroupId) (g : ManagedGroup S), s.groups[id]? = some g →
        (g.isFull = true ↔ g.freeSlots = [])) ∧
      (c.foundings ctx events ≤ 65536 →
        ∀ pid record id slot, s.liveness.get? pid = some record → record.joined = true →
          record.slot = some (id, slot) →
          ∀ g : ManagedGroup S, s.groups[id]? = some g → g.info.isOccupied slot = true) := by
  intro s
  obtain ⟨hc, hn⟩ := state_new hnew
  have hs : s.IsConsistent ctx := hc.run hp events
  refine ⟨hs, fun id g hg => (hs.group id g hg).isFull_iff hp, fun hfew => ?_⟩
  intro pid record id slot hr hj hslot g hg
  have hnumbered : s.Numbered (0 + c.foundings ctx events) :=
    hn.run hp hc events (by rw [Nat.zero_add]; exact hfew)
  exact (hnumbered.holds pid record id slot hr hj hslot).2 g hg

/-- In the run with one join, the member that joined holds its slot. -/
theorem state_of_run_one_join :
    ∃ events record g, sampleJoin? = some events ∧
      (sampleNew.run sampleContext events).IsConsistent sampleContext ∧
      (sampleNew.run sampleContext events).liveness.get? 1 = some record ∧
      record.slot = some (sampleGroup, 0) ∧
      (sampleNew.run sampleContext events).groups[sampleGroup]? = some g ∧
      (g.isFull = true ↔ g.freeSlots = []) ∧ g.info.isOccupied 0 = true := by
  have hrun : (sampleJoin?.any fun events =>
      let s := sampleNew.run sampleContext events
      decide (sampleNew.foundings sampleContext events ≤ 65536) &&
        s.groups[sampleGroup]?.isSome &&
        (s.liveness.get? 1).any fun record =>
          record.joined && decide (record.slot = some (sampleGroup, 0))) = true := by
    decide +kernel
  obtain ⟨events, hevents, hrun⟩ := (Option.any_eq_true _ _).1 hrun
  simp only [Bool.and_eq_true, decide_eq_true_eq] at hrun
  obtain ⟨⟨hfew, hheld⟩, hrecord⟩ := hrun
  obtain ⟨record, hrecord, hjoined⟩ := (Option.any_eq_true _ _).1 hrecord
  simp only [Bool.and_eq_true, decide_eq_true_eq] at hjoined
  obtain ⟨g, hg⟩ := Option.isSome_iff_exists.1 hheld
  have hnew : Coordinator.new sampleContext 0 sampleSetup.2 (Counter.mk 5) = .ok sampleNew :=
    eq_ok_of_toOption (by decide +kernel)
  have hp : sampleContext.parameters.HasNumberedSlots :=
    (Parameters.isSetup_of_setup setup_sample).hasNumberedSlots
  obtain ⟨hstate, hfull, hslots⟩ := state_of_run hp hnew events
  exact ⟨events, record, g, hevents, hstate, hrecord, hjoined.2, hg, hfull _ g hg,
    hslots hfew 1 record _ _ hrecord hjoined.1 hjoined.2 g hg⟩

end Coordinator

end GroupKey
