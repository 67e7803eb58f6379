import GroupKey.Proofs.Node.Naming
import GroupKey.Proofs.Node.Progress

/-!
# When the names of groups run out

Under a clock that does not go back a name comes again if, and only if, a group is founded 65536
groups after another one with the same expiry. Short of that all groups have different names, and no
slot is granted twice. With it a live group is lost. This takes groups that are founded faster than
their expiries move on: all in one microsecond, or all expiring at the last time there is, because
their lifetime reaches beyond it.

* `laps` — rounds in each of which a group of one slot is founded and filled.
* `laps_fill` — the names that they give and the slots that they grant.
* `names_and_slots` — names and grants in any run.
* `name_given_again` — rounds in which the first name is given again.
-/

namespace GroupKey

variable {S : Suite} {ρ τ : Type}

namespace Coordinator

variable {ctx : Context S} {secrets : SlotSecrets S} {c : Coordinator S ρ} {e : Stimulus S}
  {now : Timestamp} {res : Resources S τ}

/-! ## Groups without room -/

theorem Filled.rest (h : c.Filled) (now : Timestamp) : (c.rest now).Filled := by
  intro g hg
  obtain ⟨id, hid, hheld⟩ := Option.bind_eq_some_iff.1 hg
  exact h g (Option.bind_eq_some_iff.2 ⟨id, hid, of_getElem?_live hheld⟩)

theorem filled_of_numbered (h : c.Numbered 0) : c.Filled := fun g hg => by
  obtain ⟨id, -, hg⟩ := Option.bind_eq_some_iff.1 hg
  exact absurd (h.held id g hg) (Nat.not_lt_zero _)

theorem heartbeat_founds (hp : ctx.parameters.IsSetup secrets)
    (htier : ∃ scale, ctx.parameters.scale c.tier = .ok scale) (hfilled : c.Filled)
    (now : Timestamp) :
    ∃ hb c' g, c.heartbeat ctx now = (.ok [.heartbeat hb], c') ∧ RoundOpen now hb g c' ∧
      hb.seq = c.nextHeartbeatSeq ∧ founded? c c' = some g.info.id ∧
      g.info.id = .new c.nextGroupSeq c.tier (now + ctx.config.groupLifetime) ∧
      c'.nextGroupSeq = c.nextGroupSeq + 1 := by
  obtain ⟨hb, c', g, hbeat, hopen⟩ := heartbeat_opens hp htier now
  have hticks := ticks_heartbeat ctx now c
  rw [hbeat] at hticks
  cases hticks with
  | continued current room =>
    have hfull := hfilled.rest now _ current
    simp [room] at hfull
  | @founded g' filled founds =>
    obtain rfl : g' = g := by
      have hcurrent : ((c.rest now).withGroup g').currentGroup? = some g := hopen.current
      simpa [currentGroup?, withGroup] using hcurrent
    exact ⟨_, _, g', hbeat, hopen, rfl, Watched.founded?_withGroup c now g',
      ManagedGroup.id_bootstrap founds, rfl⟩

/-! ## Rounds with a join -/

variable [Generator ρ] [Generator τ]

/-- The heartbeat of a round. The directory has the key that a member draws and publishes. -/
def lapBeat (res : Resources S τ) (now : Timestamp) : Stimulus S :=
  ⟨(Engine.empty.unusedKey res).2.directory, now, .timer .heartbeat⟩

/-- The answer of this member, which is unset, to the heartbeat `seq`. -/
def lapAnswer (res : Resources S τ) (now : Timestamp) (seq : UInt32) : Stimulus S :=
  ⟨(Engine.empty.unusedKey res).2.directory, now,
    .frame (Message.encode (S := S) (.heartbeatAck ⟨.unset, 1, seq⟩))⟩

/-- Its join. -/
def lapJoin (res : Resources S τ) (now : Timestamp) (proof : JoinProof S) : Stimulus S :=
  ⟨(Engine.empty.unusedKey res).2.directory, now, .frame (Message.encode (.join ⟨1, proof⟩))⟩

/-- A round with a join: the member answers the heartbeat, and proves its join for the first slot of
the group that is being filled. It keeps nothing for the next round but its key. -/
def lap (ctx : Context S) (res : Resources S τ) (now : Timestamp) (c : Coordinator S ρ) :
    List (Stimulus S) :=
  lapBeat res now :: match (c.react ctx (lapBeat res now)).2.currentGroup? with
    | none => []
    | some g =>
      match (Engine.empty.prove ctx.parameters g.info.id g.info.key g.info.tier 0 res).result with
      | .error _ => []
      | .ok proof => [lapAnswer res now c.nextHeartbeatSeq, lapJoin res now proof]

/-- Such rounds, one every second. -/
def laps (ctx : Context S) (res : Resources S τ) (c : Coordinator S ρ) : Nat → List (Stimulus S)
  | 0 => []
  | n + 1 => laps ctx res c n ++ lap ctx res (.ofMillis (1000 * n)) (c.run ctx (laps ctx res c n))

theorem ofMillis_le {j k : Nat} (h : j ≤ k) :
    Timestamp.ofMillis (1000 * j) ≤ .ofMillis (1000 * k) := by
  rw [Timestamp.ofMillis, Timestamp.ofMillis, Timestamp.le_iff, Timestamp.toNat_ofNat,
    Timestamp.toNat_ofNat]
  omega

theorem now_of_mem_lap (h : e ∈ lap ctx res now c) : e.now = now := by
  unfold lap at h
  split at h
  · simpa [lapBeat] using congrArg Stimulus.now (List.mem_singleton.1 h)
  · split at h <;> simp only [List.mem_cons, List.not_mem_nil, or_false] at h
    · exact h ▸ rfl
    · rcases h with rfl | rfl | rfl <;> rfl

theorem now_of_mem_laps {n : Nat} (h : e ∈ laps ctx res c n) :
    ∃ k < n, e.now = .ofMillis (1000 * k) := by
  induction n with
  | zero => exact absurd h List.not_mem_nil
  | succ n ih =>
    rcases List.mem_append.1 h with h | h
    · obtain ⟨k, hk, hnow⟩ := ih h
      exact ⟨k, hk.trans n.lt_succ_self, hnow⟩
    · exact ⟨n, n.lt_succ_self, now_of_mem_lap h⟩

theorem pairwise_laps (ctx : Context S) (res : Resources S τ) (c : Coordinator S ρ) (n : Nat) :
    (laps ctx res c n).Pairwise fun a b => a.now ≤ b.now := by
  induction n with
  | zero => exact .nil
  | succ n ih =>
    refine List.pairwise_append.2 ⟨ih, List.pairwise_of_forall_mem_list fun a ha b hb => ?_,
      fun a ha b hb => ?_⟩
    · rw [now_of_mem_lap ha, now_of_mem_lap hb]
      exact Timestamp.le_refl _
    · obtain ⟨k, hk, hnow⟩ := now_of_mem_laps ha
      rw [hnow, now_of_mem_lap hb]
      exact ofMillis_le hk.le

theorem current_of_react {bytes : Bytes} (hframe : e.input = .frame bytes)
    {answer : Except NodeError (List (Message S))} {c' : Coordinator S ρ}
    (hreact : c.react ctx e = (answer, c')) :
    c'.nextGroupSeq = c.nextGroupSeq ∧ c'.current = c.current := by
  have halters := alters_react ctx e c
  rw [hreact] at halters
  exact halters.current_of_frame (by simp [hframe])

theorem RoundOpen.fills [S.BilinearPairing] [S.FaithfulPoints] (hp : ctx.parameters.IsSetup secrets)
    (hc : c.IsConsistent ctx) {hb : Heartbeat S} {g : ManagedGroup S} (h : RoundOpen now hb g c)
    (hone : ctx.parameters.scale g.info.tier = .ok 1) {key : NodeKey S}
    (hkey : (Engine.empty.unusedKey res).1 = .ok key) :
    ∃ proof c₁ c₂ ack,
      (Engine.empty.prove ctx.parameters g.info.id g.info.key g.info.tier 0 res).result =
        .ok proof ∧
      c.react ctx (lapAnswer res now hb.seq) = (.ok [.notifyPosition ⟨g.info.id, 0, 1⟩], c₁) ∧
      c₁.react ctx (lapJoin res now proof) = (.ok [.joinAck ack], c₂) ∧
      ack.group = g.info.id ∧ ack.slot = 0 ∧ c₂.Filled := by
  obtain ⟨id, hid, hheld⟩ := Option.bind_eq_some_iff.1 h.current
  have hgroup := hc.group _ g hheld
  obtain rfl := hgroup.id
  have hscale : g.scale = 1 := Except.ok.inj (hgroup.scale.symm.trans hone)
  obtain ⟨slot, hslot, hnext⟩ := exists_isNextSlot hgroup hp.hasNumberedSlots h.room
  obtain rfl : slot = 0 := UInt32.toNat_inj.1 (Nat.lt_one_iff.1 (hscale ▸ hnext.lt))
  obtain ⟨proof, hok⟩ := Engine.exists_prove hone (show (0 : UInt32).toNat < 1 from Nat.zero_lt_one)
    hkey g.info.id g.info.key
  have hengine : Engine.empty.Honest res.directory := (Engine.Reachable.empty _).honest
    (p := ctx.parameters)
  obtain ⟨t, _, _, ht, hmade, htier, -⟩ := Engine.prove_ok hp hengine hok
  obtain ⟨hproof, -, -⟩ := Engine.prove_names hok
  have hone' : t.scale = 1 := Except.ok.inj ((Parameters.scale_of_tier ht).symm.trans hone)
  obtain ⟨c₁, hreact₁, hassigned, hgroups⟩ := react_of_open (e := lapAnswer res now hb.seq) h hslot
    (carries_encode ⟨trivial, by simp [Message.payload, UInt32.size]⟩ rfl) h.live
  have hc₁ := hc.of_react hp.hasNumberedSlots hreact₁
  have hext : (lapJoin res now proof).directory.Extends (Engine.empty.prove ctx.parameters g.info.id
      g.info.key g.info.tier 0 res).resources.directory := Engine.directory_prove hok ▸ .refl _
  obtain ⟨ack, g', c₂, hack, hackGroup, hackSlot, hheld', hwelcome⟩ := handleJoin_of_proves hp hc₁
    hassigned (hgroups ▸ hheld) hnext.free hengine hok hext now
  have hreact₂ : c₁.react ctx (lapJoin res now proof) = (.ok [.joinAck ack], c₂) :=
    (react_of_carries (carries_join (htier.symm ▸ hone) (hone' ▸ hmade.fits)
      (hproof.symm ▸ hgroup.tag) (by decide) rfl)).trans hack
  have hc₂ := hc₁.of_react hp.hasNumberedSlots hreact₂
  refine ⟨proof, c₁, c₂, ack, hok, hreact₁, hreact₂, hackGroup, hackSlot, fun g₂ hg₂ => ?_⟩
  -- The group that is being filled is still the same, and its only slot is taken.
  have hcurrent : c₂.current = some g.info.id :=
    ((current_of_react rfl hreact₂).2.trans (current_of_react rfl hreact₁).2).trans hid
  rw [currentGroup?, hcurrent] at hg₂
  obtain rfl : g' = g₂ := Option.some.inj (hheld'.symm.trans hg₂)
  have hgroup' := hc₂.group _ g' hheld'
  have hscale' : g'.scale = 1 := by
    have hs := hgroup'.scale
    rw [← hgroup'.tier, hgroup'.id, hgroup.tier, hone] at hs
    exact (Except.ok.inj hs).symm
  rw [ManagedGroup.isFull, hscale', hwelcome.memberCount]
  exact decide_eq_true (Nat.le_add_left 1 _)

/-- **In a round with a join a group of one slot is founded and filled**, if none has room. -/
theorem lap_fills [S.BilinearPairing] [S.FaithfulPoints] (hp : ctx.parameters.IsSetup secrets)
    (hc : c.IsConsistent ctx) (hone : ctx.parameters.scale c.tier = .ok 1) (hfilled : c.Filled)
    {key : NodeKey S} (hkey : (Engine.empty.unusedKey res).1 = .ok key)
    (now : Timestamp) :
    let id : GroupId := .new c.nextGroupSeq c.tier (now + ctx.config.groupLifetime)
    names ctx c (lap ctx res now c) = [id] ∧ grants ctx c (lap ctx res now c) = [(id, 0)] ∧
      (c.run ctx (lap ctx res now c)).nextGroupSeq = c.nextGroupSeq + 1 ∧
      (c.run ctx (lap ctx res now c)).Filled := by
  obtain ⟨hb, c₁, g, hbeat, hopen, hseq, hfounded, hid, hnext⟩ :=
    heartbeat_founds hp hc.tier hfilled now
  have hreact : c.react ctx (lapBeat res now) = (.ok [.heartbeat hb], c₁) := hbeat
  have hc₁ := hc.of_react hp.hasNumberedSlots hreact
  have hone' : ctx.parameters.scale g.info.tier = .ok 1 := by
    obtain ⟨_, -, hheld⟩ := Option.bind_eq_some_iff.1 hopen.current
    rwa [← (hc₁.group _ g hheld).tier, hid]
  obtain ⟨proof, c₂, c₃, ack, hok, hreact₁, hreact₂, hgroup, hslot, hfills⟩ :=
    hopen.fills hp hc₁ hone' hkey
  have hlap : lap ctx res now c =
      [lapBeat res now, lapAnswer res now hb.seq, lapJoin res now proof] := by
    simp only [lap, hreact, hopen.current, hok, hseq]
  have hsame₁ := (current_of_react rfl hreact₁).1
  have hsame₂ := (current_of_react rfl hreact₂).1
  rw [hlap, ← hid]
  simp only [names, grants, run, List.foldl_cons, List.foldl_nil, hreact, hreact₁, hreact₂]
  refine ⟨?_, ?_, (hsame₂.trans hsame₁).trans hnext, hfills⟩
  · rw [hfounded, Watched.founded?_of_same hsame₁, Watched.founded?_of_same hsame₂]
    rfl
  · rw [← hgroup, ← hslot]
    rfl

/-- The name of the group that is founded in round `k`. -/
def lapName (ctx : Context S) (tier : UInt16) (k : Nat) : GroupId :=
  .new (.ofNat k) tier (Timestamp.ofMillis (1000 * k) + ctx.config.groupLifetime)

/-- **In such rounds one group of one slot is founded after the other**, and its slot is granted. -/
theorem laps_fill [S.BilinearPairing] [S.FaithfulPoints] (hp : ctx.parameters.IsSetup secrets)
    (hc : c.IsConsistent ctx) (hnumbered : c.Numbered 0)
    (hone : ctx.parameters.scale c.tier = .ok 1) {key : NodeKey S}
    (hkey : (Engine.empty.unusedKey res).1 = .ok key) (n : Nat) :
    names ctx c (laps ctx res c n) = (List.range n).map (lapName ctx c.tier) ∧
      grants ctx c (laps ctx res c n) =
        (List.range n).map (fun k => (lapName ctx c.tier k, 0)) ∧
      (c.run ctx (laps ctx res c n)).nextGroupSeq = .ofNat n ∧
      (c.run ctx (laps ctx res c n)).Filled := by
  induction n with
  | zero => exact ⟨rfl, rfl, UInt16.toNat_inj.1 hnumbered.next, filled_of_numbered hnumbered⟩
  | succ n ih =>
    obtain ⟨hnames, hgrants, hnext, hfilled⟩ := ih
    have hrun := hc.run hp.hasNumberedSlots (laps ctx res c n)
    have htier := tier_run ctx c (laps ctx res c n)
    obtain ⟨hnames', hgrants', hnext', hfilled'⟩ := lap_fills hp hrun (htier.symm ▸ hone) hfilled
      hkey (.ofMillis (1000 * n))
    rw [htier, hnext] at hnames' hgrants'
    rw [laps, names_append, grants_append, run_append, List.range_succ, List.map_append,
      List.map_append, hnames, hgrants, hnames', hgrants']
    refine ⟨rfl, rfl, ?_, hfilled'⟩
    rw [hnext', hnext, UInt16.ofNat_add]
    rfl

/-- A round whose group has the name of one before grants the slot of that one again. -/
theorem not_nodup_laps [S.BilinearPairing] [S.FaithfulPoints] (hp : ctx.parameters.IsSetup secrets)
    (hc : c.IsConsistent ctx) (hnumbered : c.Numbered 0)
    (hone : ctx.parameters.scale c.tier = .ok 1) {key : NodeKey S}
    (hkey : (Engine.empty.unusedKey res).1 = .ok key) {j k : Nat} (hlt : j < k)
    (hsame : lapName ctx c.tier k = lapName ctx c.tier j) :
    ¬ (grants ctx c (laps ctx res c (k + 1))).Nodup := by
  rw [(laps_fill hp hc hnumbered hone hkey (k + 1)).2.1]
  intro hnodup
  have hinj := List.inj_on_of_nodup_map hnodup (List.mem_range.2 k.lt_succ_self)
    (List.mem_range.2 (hlt.trans k.lt_succ_self)) (congrArg (·, 0) hsame)
  exact hlt.ne' hinj

/-- If this is the one 65536 rounds before, it is live when its name is given again. -/
theorem replaces_laps [S.BilinearPairing] [S.FaithfulPoints] (hp : ctx.parameters.IsSetup secrets)
    (hc : c.IsConsistent ctx) (hnumbered : c.Numbered 0)
    (hone : ctx.parameters.scale c.tier = .ok 1) {key : NodeKey S}
    (hkey : (Engine.empty.unusedKey res).1 = .ok key) {k : Nat} (hle : 65536 ≤ k)
    (hsame : lapName ctx c.tier k = lapName ctx c.tier (k - 65536)) :
    let s := c.run ctx (laps ctx res c k)
    let beat := lapBeat res (.ofMillis (1000 * k))
    ∃ id g, founded? s (s.react ctx beat).2 = some id ∧ (s.live beat.now)[id]? = some g := by
  intro s beat
  obtain ⟨hnames, -, hnext, hfilled⟩ := laps_fill hp hc hnumbered hone hkey k
  have hs : s.IsConsistent ctx := hc.run hp.hasNumberedSlots _
  have htier : s.tier = c.tier := tier_run ctx c _
  obtain ⟨hb, s', g, hbeat, -, -, hfounded, hid, -⟩ := heartbeat_founds hp hs.tier hfilled beat.now
  have hreact : (s.react ctx beat).2 = s' := congrArg Prod.snd hbeat
  have hnamed : Named ctx beat.now (names ctx c (laps ctx res c k)) s := by
    refine (named_of_numbered hnumbered .zero).run hp.hasNumberedSlots hc
      (pairwise_laps ctx res c k) (fun e _ => e.now.zero_le) (fun e he => ?_) beat.now.zero_le
    obtain ⟨j, hj, hnow⟩ := now_of_mem_laps he
    exact hnow ▸ ofMillis_le hj.le
  have hname : g.info.id = lapName ctx c.tier k := by
    rw [hid, hnext, htier]
    rfl
  obtain ⟨g', hg'⟩ := (hnamed.live_iff hs hid).2 (by
    rw [hnames, List.length_map, List.length_range, List.getElem?_map,
      List.getElem?_range (by omega), hname, hsame]
    exact ⟨hle, rfl⟩)
  exact ⟨g.info.id, g', hreact ▸ hfounded, hg'⟩

/-! ## Names and slots in any run -/

/-- **Names and slots.** Let a new coordinator take any steps: frames of any bytes, timers, any
directory at each, and a clock that does not go back. A heartbeat leaves every group that is not
expired as it is, unless it founds one of this name. This happens to a group that is not expired
exactly if it was founded 65536 groups before, under the same expiry. If it does not happen, all
groups founded have different names, and no slot is granted twice. -/
theorem names_and_slots (hp : ctx.parameters.HasNumberedSlots) {pid : UInt32}
    {secrets : SlotSecrets S} {generator : ρ}
    (hnew : Coordinator.new ctx pid secrets generator = .ok c) {events : List (Stimulus S)}
    (hclock : events.Pairwise fun a b => a.now ≤ b.now) :
    (∀ before beat after, events = before ++ beat :: after → beat.input = .timer .heartbeat →
      let s := c.run ctx before
      let s' := (s.react ctx beat).2
      let ids := names ctx c before
      (∀ id, founded? s s' ≠ some id → s'.groups[id]? = (s.live beat.now)[id]?) ∧
        ∀ id, founded? s s' = some id → ((∃ g, (s.live beat.now)[id]? = some g) ↔
          65536 ≤ ids.length ∧ ids[ids.length - 65536]? = some id)) ∧
    ((∀ (k : Nat) (id : GroupId), (names ctx c events)[k]? = some id →
        (names ctx c events)[k + 65536]? ≠ some id) →
      (names ctx c events).Nodup ∧ (grants ctx c events).Nodup) := by
  obtain ⟨hc, hnumbered⟩ := state_new hnew
  refine ⟨?_, fun hfar => ?_⟩
  · rintro before beat after rfl hbeat
    intro s s' ids
    obtain ⟨hbefore, -, hle⟩ := List.pairwise_append.1 hclock
    have hs : s.IsConsistent ctx := hc.run hp before
    have hnamed : Named ctx beat.now ids s :=
      (named_of_numbered hnumbered .zero).run hp hc hbefore (fun e _ => e.now.zero_le)
        (fun e he => hle e he beat List.mem_cons_self) beat.now.zero_le
    have hticks : Ticks ctx beat.now s .heartbeat (s.react ctx beat) := ticks_react hbeat
    obtain ⟨hkept, hname⟩ := hticks.groups
    exact ⟨hkept, fun id hid => hnamed.live_iff hs (hname id hid)⟩
  -- At the end of time every group is expired, so the last clock of the run does not matter.
  · have hnamed : Named ctx (.ofNat Timestamp.lastMicros) (names ctx c events) (c.run ctx events) :=
      (named_of_numbered hnumbered .zero).run hp hc hclock (fun e _ => e.now.zero_le)
        (fun e _ => e.now.le_last) (Timestamp.zero_le _)
    have hnodup := hnamed.nodup hfar
    exact ⟨hnodup, ((granted_of_numbered hnumbered).run hp hc hnodup).distinct⟩

/-- In the run with one join, after which the group expires and a second one is founded. -/
theorem names_and_slots_one_join :
    ∃ join, sampleJoin? = some join ∧
      let events := join ++ [⟨.empty, ⟨60001001⟩, .timer .heartbeat⟩]
      (names sampleContext sampleNew events).length = 2 ∧
      (names sampleContext sampleNew events).Nodup ∧
      grants sampleContext sampleNew events = [(sampleGroup, 0)] ∧
      (grants sampleContext sampleNew events).Nodup := by
  have hrun : (sampleJoin?.any fun join =>
      let events : List (Stimulus .sample) := join ++ [⟨.empty, ⟨60001001⟩, .timer .heartbeat⟩]
      decide ((names sampleContext sampleNew events).length = 2) &&
        decide (grants sampleContext sampleNew events = [(sampleGroup, 0)]) &&
        decide (events.Pairwise fun a b => a.now ≤ b.now)) = true := by
    decide +kernel
  obtain ⟨join, hjoin, hrun⟩ := (Option.any_eq_true _ _).1 hrun
  simp only [Bool.and_eq_true, decide_eq_true_eq] at hrun
  obtain ⟨⟨htwo, hone⟩, hclock⟩ := hrun
  have hnew : Coordinator.new sampleContext 0 sampleSetup.2 (Counter.mk 5) = .ok sampleNew :=
    eq_ok_of_toOption (by decide +kernel)
  have hp : sampleContext.parameters.HasNumberedSlots :=
    (Parameters.isSetup_of_setup setup_sample).hasNumberedSlots
  obtain ⟨hnames, hgrants⟩ := (names_and_slots hp hnew hclock).2 fun k id _ => by
    rw [List.getElem?_eq_none (by omega)]
    exact (Option.some_ne_none id).symm
  exact ⟨join, hjoin, htwo, hnames, hone, hgrants⟩

/-- Parameters for groups of one, and their unpublished entries. -/
def soloSetup : Parameters .sample × SlotSecrets .sample :=
  ((Parameters.setup 80 1 1 (Counter.mk 1)).1.toOption).get (by decide +kernel)

theorem setup_solo : Parameters.setup 80 1 1 (Counter.mk 1) =
    (.ok (soloSetup.1, soloSetup.2),
      (Parameters.setup (S := .sample) 80 1 1 (Counter.mk 1)).2) :=
  Prod.ext (eq_ok_of_toOption (by decide +kernel)) rfl

/-- Tunables for groups of one that last as long as tunables can say. -/
def soloContext : Context .sample :=
  ⟨soloSetup.1,
    { Config.standard with
      maxGroupSize := 1, sizeStep := 1, groupSize := 1
      groupLifetimeMillis := .ofNat (UInt64.size - 1) }⟩

/-- A new coordinator for such groups. -/
def soloNew : Coordinator .sample Counter :=
  ((Coordinator.new soloContext 0 soloSetup.2 (Counter.mk 5)).toOption).get (by decide +kernel)

/-- What the member works with: an empty directory, and a generator for its key. -/
def soloResources : Resources .sample Counter := ⟨.empty, Counter.mk 9⟩

/-- **A live group is replaced and its slot is granted again**, in 65537 rounds in which the clock
moves on: the last founds a group under the name of the first, which has not expired. -/
theorem name_given_again :
    let before := laps soloContext soloResources soloNew 65536
    let beat : Stimulus .sample := lapBeat soloResources (.ofMillis (1000 * 65536))
    let s := soloNew.run soloContext before
    Coordinator.new soloContext 0 soloSetup.2 (Counter.mk 5) = .ok soloNew ∧
      (laps soloContext soloResources soloNew 65537).Pairwise (fun a b => a.now ≤ b.now) ∧
      (∃ id g, founded? s (s.react soloContext beat).2 = some id ∧
        (s.live beat.now)[id]? = some g) ∧
      ¬ (grants soloContext soloNew (laps soloContext soloResources soloNew 65537)).Nodup := by
  intro before beat s
  have hnew : Coordinator.new soloContext 0 soloSetup.2 (Counter.mk 5) = .ok soloNew :=
    eq_ok_of_toOption (by decide +kernel)
  have hp := Parameters.isSetup_of_setup setup_solo
  have hone : soloSetup.1.scale soloNew.tier = .ok 1 :=
    (eq_ok_of_toOption (by decide +kernel)).trans (congrArg Except.ok (by decide +kernel))
  have hkey := eq_ok_of_toOption (e := (Engine.empty.unusedKey soloResources).1) (by decide +kernel)
  have hend : lapName soloContext soloNew.tier 65536 = lapName soloContext soloNew.tier 0 := by
    have hnumber : UInt16.ofNat 65536 = .ofNat 0 := by decide
    have hexpiry : Timestamp.ofMillis (1000 * 65536) + soloContext.config.groupLifetime =
        Timestamp.ofMillis (1000 * 0) + soloContext.config.groupLifetime := by
      decide +kernel
    rw [lapName, lapName, hnumber, hexpiry]
  obtain ⟨hc, hnumbered⟩ := state_new hnew
  exact ⟨hnew, pairwise_laps _ _ _ _, replaces_laps hp hc hnumbered hone hkey (Nat.le_refl _) hend,
    not_nodup_laps hp hc hnumbered hone hkey (by decide) hend⟩

end Coordinator

end GroupKey
