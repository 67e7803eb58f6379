import GroupKey.Proofs.Node.Stages
import GroupKey.Proofs.Node.Synchrony

/-!
# Rounds without loss keep everyone in step

A heartbeat is the only check between a member and the coordinator, and it misses what only the
member has heard. If no frame is lost there is nothing to miss: a timer puts the queue into one of
the stages of a round, every broadcast leads to another, and when the queue is empty all members
track the groups of the coordinator. Heartbeats, abandoned assignments, expired groups and new ones,
and session keys in between do not change that.

* `Settles` — a timer fires, and all that follows is delivered.
* `Lossless` — a run of such rounds, between which the clock is set.
* `Aligned.tick`, `Aligned.settles` — one timer, and one round.
* `members_agree_of_lossless` — the state of all joined members after any such run.
-/

namespace GroupKey.Network

variable {S : Suite} {ρ : Type} {ctx : Context S} {n n' : Network S ρ} {k : Nat}

/-! ## Steps of the coordinator -/

/-- Session keys of the coordinator do not matter. -/
theorem Aligned.set_coordinator (h : n.Aligned ctx k) {c : Coordinator S ρ}
    (hkeeps : Coordinator.Keeps n.coordinator c) : Aligned ctx k { n with coordinator := c } where
  context := h.context
  coordinator := h.coordinator.of_keeps hkeeps
  numbered := h.numbered.of_keeps hkeeps
  member := h.member
  honest := h.honest
  pids := h.pids
  tracks place m hm := hkeeps.groups ▸ h.tracks place m hm
  places := h.places

theorem Aligned.set_heartbeat (h : n.Aligned ctx k)
    {c : Coordinator S ρ} (hbegins : Coordinator.Begins ctx n.now n.coordinator c)
    (hfew : k + Coordinator.founds n.coordinator c < UInt16.size) :
    Aligned ctx (k + Coordinator.founds n.coordinator c) { n with coordinator := c } where
  context := h.context
  coordinator := h.coordinator.begins hbegins
  numbered := h.numbered.begins hbegins (Nat.le_of_lt hfew)
  member := h.member
  honest := h.honest
  pids := h.pids
  tracks place m hm := by
    have hnext : n.coordinator.nextGroupSeq.toNat = k := by
      rw [h.numbered.next]
      exact Nat.mod_eq_of_lt (by omega)
    exact (h.tracks place m hm).begins (h.member place m hm) hbegins hnext (Nat.le_add_right _ _)
  places := h.places

theorem Stage.of_keys {ms : List (Message S)} (hms : ∀ x ∈ ms, x.IsOfKeys) (node : Nat) :
    Stage ctx n ((ms.map Message.encode).map (⟨node, ·⟩)) := by
  refine .keys fun t ht => ?_
  obtain ⟨bytes, hbytes, rfl⟩ := List.mem_map.1 ht
  obtain ⟨x, hx, rfl⟩ := List.mem_map.1 hbytes
  exact Context.tells_of_keys (hms x hx)

/-! ## Runs -/

variable [Generator ρ]

/-- A timer fires at a node, and every frame that follows is delivered to all other nodes, until
none is left. No node fails. -/
def Settles (node : Nat) (timer : Timer) (n n' : Network S ρ) : Prop :=
  ∃ limit sent, n.round (fun _ _ => false) limit node timer = ⟨.ok (), sent, n'⟩ ∧
    sent.length < limit

/-- A run in which no frame is lost, and the number of groups that it founds. Between two rounds the
clock may be set to any time. -/
inductive Lossless (n : Network S ρ) : (founded : Nat) → Network S ρ → Prop
  | start : Lossless n 0 n
  | clock {k : Nat} {n₁ : Network S ρ} (hrun : Lossless n k n₁) (now : Timestamp) :
    Lossless n k { n₁ with now }
  | round {k : Nat} {n₁ n₂ : Network S ρ} (hrun : Lossless n k n₁) {node : Nat} {timer : Timer}
    (hsettles : n₁.Settles node timer n₂) :
    Lossless n (k + Coordinator.founds n₁.coordinator n₂.coordinator) n₂

/-! ## Timers -/

theorem Aligned.tick_member (h : n.Aligned ctx k) {place : Nat} {m : Member S ρ}
    (hm : n.members[place]? = some m) (timer : Timer) :
    Aligned ctx k { n with members := n.members.set place (m.tick n.context n.now timer).2 } := by
  obtain rfl := h.context
  obtain ⟨hkeeps, -⟩ := m.keepsPlace_tick n.context n.now timer
  have hconsistent := (h.member place m hm).tick n.now timer
  generalize (m.tick n.context n.now timer).2 = m' at hkeeps hconsistent ⊢
  have hcases : ∀ (i : Nat) (m₁ : Member S ρ), (n.members.set place m')[i]? = some m₁ →
      ∃ m₀, n.members[i]? = some m₀ ∧ m₀.KeepsPlace m₁ ∧ m₁.IsConsistent n.context := by
    intro i m₁ hm₁
    by_cases hi : place = i
    · subst hi
      rw [List.getElem?_set_self (List.getElem?_eq_some_iff.1 hm).1, Option.some.injEq] at hm₁
      subst hm₁
      exact ⟨m, hm, hkeeps, hconsistent⟩
    · rw [List.getElem?_set_ne hi] at hm₁
      exact ⟨m₁, hm₁, .refl m₁, h.member i m₁ hm₁⟩
  have hsound : Sound n.context k { n with members := n.members.set place m' } := by
    refine ⟨h.context, h.coordinator, h.numbered, fun i m₁ hm₁ => ?_, fun i m₁ hm₁ => ?_, ?_⟩
    · obtain ⟨-, -, -, hconsistent⟩ := hcases i m₁ hm₁
      exact hconsistent
    · obtain ⟨m₀, hm₀, hkeeps, -⟩ := hcases i m₁ hm₁
      have hhonest := h.honest i m₀ hm₀
      rwa [← hkeeps.engine] at hhonest
    · rw [map_pid_eq List.length_set fun i m₁ hm₁ => ?_]
      · exact h.pids
      · obtain ⟨m₀, hm₀, hkeeps, -⟩ := hcases i m₁ hm₁
        exact ⟨m₀, hm₀, hkeeps.pid⟩
  refine h.of_keepsPlace hsound rfl fun i m₁ hm₁ => ?_
  obtain ⟨m₀, hm₀, hkeeps, -⟩ := hcases i m₁ hm₁
  exact ⟨m₀, hm₀, hkeeps⟩

/-- **What a timer puts into the queue** is a stage of a round. -/
theorem Aligned.tick [S.FaithfulPoints] (hp : ctx.parameters.HasNumberedSlots)
    (h : n.Aligned ctx k) {node : Nat} {timer : Timer} {bytes : List Bytes}
    (htick : n.tick node timer = (.ok bytes, n'))
    (hfew : k + Coordinator.founds n.coordinator n'.coordinator < UInt16.size) :
    n'.Aligned ctx (k + Coordinator.founds n.coordinator n'.coordinator) ∧
      Stage ctx n' (bytes.map (⟨node, ·⟩)) := by
  obtain rfl := h.context
  unfold tick at htick
  cases node with
  | zero =>
    rcases hc : n.coordinator.tick n.context n.now timer with ⟨result, c⟩
    simp only [hc] at htick
    obtain ⟨hbytes, rfl⟩ := Prod.mk.inj htick
    obtain ⟨ms, rfl, rfl⟩ := frames_eq_ok hbytes
    have hticks := Coordinator.ticks_tick n.context n.now timer n.coordinator
    rw [hc] at hticks
    cases timer with
    | heartbeat =>
      have haligned := h.set_heartbeat (hticks.begins hp h.coordinator.tier) hfew
      refine ⟨haligned, ?_⟩
      have htold : ∃ hb : Heartbeat S, ms = [.heartbeat hb] ∧ hb.groups = c.snapshots := by
        cases hticks <;> exact ⟨_, rfl, rfl⟩
      obtain ⟨hb, rfl, hgroups⟩ := htold
      refine .beat (Context.tells_encode fun msg hmsg => ?_)
      rw [← hgroups]
      refine Message.groups_of_decode (fun info hinfo => ?_) hmsg
      exact haligned.coordinator.isSized_of_mem info (hgroups ▸ hinfo)
    | keyEncapNotify =>
      obtain ⟨hkeeps, hkeys⟩ := hticks.of_keys
      rw [Coordinator.founds_of_same hkeeps.nextGroupSeq]
      exact ⟨h.set_coordinator hkeeps, .of_keys hkeys 0⟩
    | keyUpdate =>
      obtain ⟨hms, rfl⟩ := Prod.mk.inj hc
      obtain rfl := Except.ok.inj hms
      rw [Coordinator.founds_of_same rfl]
      exact ⟨h, .done⟩
  | succ place =>
    simp only at htick
    cases hm : n.members[place]? with
    | none =>
      simp only [hm] at htick
      obtain ⟨hbytes, rfl⟩ := Prod.mk.inj htick
      obtain rfl := Except.ok.inj hbytes
      rw [Coordinator.founds_of_same rfl]
      exact ⟨h, .done⟩
    | some m =>
      simp only [hm] at htick
      obtain ⟨hbytes, rfl⟩ := Prod.mk.inj htick
      obtain ⟨ms, hms, rfl⟩ := frames_eq_ok hbytes
      rw [Coordinator.founds_of_same rfl]
      obtain ⟨-, hkeys⟩ := m.keepsPlace_tick n.context n.now timer
      exact ⟨h.tick_member hm timer, .of_keys (Except.ok.inj hms ▸ hkeys) (place + 1)⟩

/-! ## Rounds -/

/-- **A round keeps the network aligned.** -/
theorem Aligned.settles [S.BilinearPairing] [S.FaithfulPoints] {secrets : SlotSecrets S}
    (hp : ctx.parameters.IsSetup secrets) (h : n.Aligned ctx k) {node : Nat} {timer : Timer}
    (hsettles : n.Settles node timer n')
    (hfew : k + Coordinator.founds n.coordinator n'.coordinator < UInt16.size) :
    n'.Aligned ctx (k + Coordinator.founds n.coordinator n'.coordinator) := by
  obtain ⟨limit, sent, hround, hlimit⟩ := hsettles
  unfold round at hround
  rcases htick : n.tick node timer with ⟨_ | bytes, n₁⟩
  · simp [htick] at hround
  · simp only [htick] at hround
    have hfounds : Coordinator.founds n.coordinator n'.coordinator =
        Coordinator.founds n.coordinator n₁.coordinator := by
      refine drain_induction (P := fun _ n₂ => Coordinator.founds n.coordinator n₂.coordinator =
        Coordinator.founds n.coordinator n₁.coordinator) ?_ hround (by simpa using hlimit) rfl
      intro t queue n₂ n₃ answer hP hheard
      rw [hheard.founds_eq, hP]
    rw [hfounds] at hfew ⊢
    have hall : n'.Aligned ctx (k + Coordinator.founds n.coordinator n₁.coordinator) ∧
        Stage ctx n' [] := by
      refine drain_induction (P := fun queue n₂ =>
        n₂.Aligned ctx (k + Coordinator.founds n.coordinator n₁.coordinator) ∧ Stage ctx n₂ queue)
        ?_ hround (by simpa using hlimit) (h.tick hp.hasNumberedSlots htick hfew)
      intro t queue n₂ n₃ answer hP hheard
      exact hP.2.heard hp hP.1 hheard
    exact hall.1

/-! ## Runs of rounds -/

/-- **Any number of rounds keep the network aligned**, while no number is given to a second group.
-/
theorem Aligned.lossless [S.BilinearPairing] [S.FaithfulPoints] {secrets : SlotSecrets S}
    (hp : ctx.parameters.IsSetup secrets) (h : n.Aligned ctx 0) (hrun : Lossless n k n')
    (hfew : k < UInt16.size) : n'.Aligned ctx k := by
  induction hrun with
  | start => exact h
  | clock hrun now ih =>
    obtain ⟨⟨context, coordinator, numbered, member, honest, pids⟩, tracks, places⟩ := ih hfew
    exact ⟨⟨context, coordinator, numbered, member, honest, pids⟩, tracks, places⟩
  | round hrun hsettles ih => exact (ih (by omega)).settles hp hsettles hfew

theorem aligned_assemble {now : Timestamp} {directory : Directory S} {coordinator : UInt32 × ρ}
    {secrets : SlotSecrets S} {members : List (UInt32 × ρ)} (hpids : (members.map (·.1)).Nodup)
    (h : assemble ctx now directory coordinator secrets members = .ok n) : n.Aligned ctx 0 := by
  have hsound := sound_assemble hpids h
  have hnew : ∀ (place : Nat) (m : Member S ρ), n.members[place]? = some m →
      m.phase = .unset ∧ m.groups = ∅ := fun place m hm => by
    obtain ⟨hphase, hgroups, -⟩ := (isNew_assemble h).members m (List.mem_of_getElem? hm)
    exact ⟨hphase, hgroups⟩
  refine ⟨hsound, fun place m hm => ?_, fun i j m m' place hm _ hplace => ?_⟩
  · obtain ⟨hphase, hgroups⟩ := hnew place m hm
    have hgaps : m.gaps = ∅ := (hsound.member place m hm).gaps_eq (by simp [hphase])
    exact ⟨hgaps, by simp [hgroups], by simp [hgroups], by simp [Member.joinedGroup?, hphase]⟩
  · simp [Member.place?, (hnew i m hm).1] at hplace

/-- **Rounds without loss keep everyone in step.** Let the parameters come from a successful setup,
let the members have distinct numbers, and let a network of new nodes run through any number of
rounds in which no frame is lost and no node fails, with the clock set to any time in between. As
long as fewer than 65536 groups are founded, a joined member misses no slots, and if the coordinator
still holds its group, then it has the encryption key of that group and knows it by the same
snapshot, with the same bitmap and the same number of members. No two joined members have the same
slot of a group. -/
theorem members_agree_of_lossless [S.BilinearPairing] [S.FaithfulPoints] {σ : Type} [Generator σ]
    {context : Context S} {level : UInt32} {maxGroupSize sizeStep : Nat} {r r' : σ}
    {secrets : SlotSecrets S} (hsetup : Parameters.setup level maxGroupSize sizeStep r =
      (.ok (context.parameters, secrets), r'))
    {now : Timestamp} {directory : Directory S} {coordinator : UInt32 × ρ}
    {members : List (UInt32 × ρ)} (hpids : (members.map (·.1)).Nodup)
    (hn : assemble context now directory coordinator secrets members = .ok n)
    (hrun : Lossless n k n') (hfew : k < 65536) :
    (∀ m ∈ n'.members, m.phase = .joined → m.gaps = ∅ ∧ ∃ s, m.engine.membership = some s ∧
      ∀ g, n'.coordinator.groups[s.group]? = some g →
        s.key = g.info.key ∧ m.groups[s.group]? = some g.info) ∧
    ∀ (i j : Nat) (m m' : Member S ρ) (s s' : Membership S), n'.members[i]? = some m →
      n'.members[j]? = some m' → m.phase = .joined → m'.phase = .joined →
      m.engine.membership = some s → m'.engine.membership = some s' →
      (s.group, s.slot) = (s'.group, s'.slot) → i = j := by
  have h := (aligned_assemble hpids hn).lossless (Parameters.isSetup_of_setup hsetup) hrun hfew
  refine ⟨fun m hm hphase => ?_, fun i j m m' s s' hm hm' hphase hphase' hs hs' hsame => ?_⟩
  · obtain ⟨place, hplace⟩ := List.mem_iff_getElem?.1 hm
    have htracks := h.tracks place m hplace
    obtain ⟨s, known, hs, hknown, hkey, -⟩ := (h.member place m hplace).joined hphase
    refine ⟨htracks.gaps, s, hs, fun g hg => ?_⟩
    have hown := htracks.own s.group g (Member.joinedGroup?_eq_some.2 ⟨hphase, s, hs, rfl⟩) hg
    obtain rfl := Option.some.inj (hknown.symm.trans hown)
    exact ⟨hkey.symm, hown⟩
  · refine h.places i j m m' (s.group, s.slot) hm hm' ?_ ?_
    · simp [Member.place?, hphase, hs]
    · simp [Member.place?, hphase', hs', hsame]

/-! ### A run with two joins -/

/-- Whether the queue ran empty, with frames to spare. -/
def Round.isSettled (limit : Nat) (r : Round S ρ) : Bool :=
  r.result.toOption.isSome && decide (r.sent.length < limit)

theorem settles_of_isSettled {limit node : Nat} {timer : Timer}
    (h : (n.round (fun _ _ => false) limit node timer).isSettled limit = true) :
    n.Settles node timer (n.round (fun _ _ => false) limit node timer).network := by
  rcases hround : n.round (fun _ _ => false) limit node timer with ⟨_ | _, sent, n₁⟩
  · simp [hround, Round.isSettled, Except.toOption] at h
  · rw [hround] at h
    exact ⟨limit, sent, hround, of_decide_eq_true h⟩

/-- The sample nodes after a heartbeat. -/
def sampleRound : Round .sample Counter := samplePair.round (fun _ _ => false) 10 0 .heartbeat

/-- The sample nodes after another heartbeat, a second later. -/
def sampleNextRound : Round .sample Counter :=
  Network.round (fun _ _ => false) 10 0 .heartbeat { sampleRound.network with now := ⟨2000000⟩ }

/-- After two rounds both members are in the same group, with its key, in different slots. -/
theorem members_agree_of_lossless_two_joins :
    let n := sampleNextRound.network
    ∃ k m m' s s' g, samplePair.Lossless k n ∧ n.members[0]? = some m ∧ n.members[1]? = some m' ∧
      m.engine.membership = some s ∧ m'.engine.membership = some s' ∧ s.group = s'.group ∧
      n.coordinator.groups[s.group]? = some g ∧ s.key = g.info.key ∧ s'.key = g.info.key ∧
      s.slot ≠ s'.slot := by
  intro n
  have hcheck : (sampleRound.isSettled 10 && sampleNextRound.isSettled 10 &&
      n.members[0]?.any fun m => n.members[1]?.any fun m' =>
        decide (m.phase = .joined) && decide (m'.phase = .joined) &&
          m.engine.membership.any fun s => m'.engine.membership.any fun s' =>
            decide (s.group = s'.group) && n.coordinator.groups[s.group]?.isSome) = true := by
    decide +kernel
  simp only [Option.any_eq_true, Bool.and_eq_true, decide_eq_true_eq] at hcheck
  obtain ⟨⟨hfirst, hnext⟩, m, hm, m', hm', ⟨hphase, hphase'⟩, s, hs, s', hs', hgroup, hheld⟩ :=
    hcheck
  obtain ⟨g, hg⟩ := Option.isSome_iff_exists.1 hheld
  have hfirst : samplePair.Settles 0 .heartbeat sampleRound.network := settles_of_isSettled hfirst
  have hnext : Settles 0 .heartbeat { sampleRound.network with now := ⟨2000000⟩ } n :=
    settles_of_isSettled hnext
  have hrun := Lossless.round (.clock (.round .start hfirst) _) hnext
  have hn : assemble sampleContext ⟨1000000⟩ .empty (0, ⟨5⟩) sampleSetup.2
      [(1, ⟨100⟩), (2, ⟨200⟩)] = .ok samplePair := eq_ok_of_toOption (by decide +kernel)
  obtain ⟨hkeys, hslots⟩ := members_agree_of_lossless setup_sample (by decide) hn hrun
    (Nat.lt_of_le_of_lt (Nat.add_le_add (Nat.add_le_add (Nat.le_refl 0)
      (Coordinator.founds_le_one _ _)) (Coordinator.founds_le_one _ _)) (by decide))
  obtain ⟨-, s₁, hs₁, hkey⟩ := hkeys m (List.mem_of_getElem? hm) hphase
  obtain ⟨-, s₂, hs₂, hkey'⟩ := hkeys m' (List.mem_of_getElem? hm') hphase'
  obtain rfl : s = s₁ := Option.some.inj (hs.symm.trans hs₁)
  obtain rfl : s' = s₂ := Option.some.inj (hs'.symm.trans hs₂)
  refine ⟨_, m, m', s, s', g, hrun, hm, hm', hs, hs', hgroup, hg, (hkey g hg).1,
    (hkey' g (hgroup ▸ hg)).1, fun hslot => ?_⟩
  have hplace := hslots 0 1 m m' s s' hm hm' hphase hphase' hs hs' (by rw [hgroup, hslot])
  simp at hplace

end GroupKey.Network
