import GroupKey.Proofs.Node.Sending

/-!
# Journals that are kept

The invariant behind the keys of coordinator and members: every entry of a journal says what the
node or the message concerned is. Each step keeps it, if no frame overtakes another. A join then
arrives at a node only once, so that neither the coordinator nor a member counts it twice.

* `Journal.Kept` — the invariant.
* `Kept.sends` — what is left to show for a step.
* `Kept.heartbeat`, `Kept.join` — the steps in which the groups of the coordinator change.
* `Kept.step`, `Kept.run` — all steps, whole runs.
-/

namespace GroupKey

variable {S : Suite} {ρ : Type}

/-! ## One step -/

theorem le_update (heard : Nat → Nat) (node : Nat) {index : Nat} (h : heard node ≤ index)
    (node' : Nat) : heard node' ≤ Function.update heard node (index + 1) node' := by
  by_cases hnode : node' = node
  · rw [hnode, Function.update_self]
    omega
  · rw [Function.update_of_ne hnode]

namespace Journal

/-- A journal after a step of the coordinator. -/
def moved (w : Journal S ρ) (c : Coordinator S ρ) (result : Except NodeError (List (Message S)))
    (ledger : GroupId → Finset Nat) (stamps : Nat → Finset Nat) : Journal S ρ :=
  ⟨⟨{ w.network with coordinator := c }, w.sent ++ Network.sent (Network.frames result)⟩, ledger,
    stamps, w.accounts⟩

variable {w : Journal S ρ}

section Steps

variable [Generator ρ]

theorem step_of_stays {a : Network.Action} (ha : w.toBroadcast.act a = (.ok [], w.network))
    (haccount : ∀ place index, a = .deliver (place + 1) index →
      w.accountAfter place index = w.accounts place)
    (hadmitted : ∀ index, a = .deliver 0 index → (w.sent[index]?).bind w.admittedTo? = none) :
    w.step a = w := by
  have hnext : w.toBroadcast.step a = w.toBroadcast := by
    rw [Broadcast.step, ha]
    simp [Network.sent]
  cases a with
  | clock now => simp only [Journal.step, hnext]
  | tick node timer =>
    simp only [Journal.step, hnext, Coordinator.Watched.founded?_of_same]
  | deliver node index =>
    cases node with
    | zero => simp only [Journal.step, hnext, hadmitted index rfl]
    | succ place =>
      simp only [Journal.step, hnext, haccount place index rfl, Function.update_eq_self]

theorem admittedTo?_of_quiet {frame : Bytes}
    (h : Coordinator.Quiet w.network.coordinator (w.network.coordinator.receive w.network.context
      w.network.directory w.network.now frame)) : w.admittedTo? frame = none := by
  unfold admittedTo?
  simp only
  split
  · next ack hack => exact absurd trivial (h.silent _ hack _ (List.mem_singleton_self _))
  · rfl

theorem step_deliver_member {place index : Nat} {frame : Bytes}
    (hframe : w.sent[index]? = some frame)
    {m : Member S ρ} (hm : w.network.members[place]? = some m) :
    let r := m.receive w.network.context w.network.now frame w.network.directory
    w.step (.deliver (place + 1) index) = ⟨⟨{ w.network with
        members := w.network.members.set place r.2.1
        directory := r.2.2 }, w.sent ++ Network.sent (Network.frames r.1)⟩, w.ledger, w.stamps,
      Function.update w.accounts place (w.accountAfter place index)⟩ := by
  simp only [Journal.step, Broadcast.step, Broadcast.act, Network.deliver, hframe, hm]

end Steps

variable [S.AbelianSources] {heard heard' : Nat → Nat}

/-- Everything in a journal is what its ledgers and accounts say, and they hold no join that could
still arrive. -/
structure Kept (heard : Nat → Nat) (w : Journal S ρ) : Prop where
  setup : ∃ secrets, w.network.context.parameters.IsSetup secrets
  books : ∀ (id : GroupId) (g : ManagedGroup S), w.network.coordinator.groups[id]? = some g →
    w.Books (w.ledger id) id g
  assigned : ∀ a, w.network.coordinator.assignment = some a →
    ∀ g, w.network.coordinator.groups[a.group]? = some g → a.slot.toNat = (w.ledger a.group).card
  ledger : ∀ id, w.Covers (w.ledger id) ∧ ∀ index ∈ w.ledger id, index < heard 0
  told : ∀ index m, w.message? index = some m → w.Told index (w.stamps index) m
  stands : ∀ (place : Nat) (m : Member S ρ), w.network.members[place]? = some m →
    w.Stands (w.accounts place) m
  account : ∀ place, w.Covers (w.accounts place) ∧
    ∀ index ∈ w.accounts place, index < heard (place + 1)
  posted : w.Posted

theorem kept_start {context : Context S} {n : Network S ρ} (hnew : n.IsNew context)
    {secrets : SlotSecrets S} (hp : context.parameters.IsSetup secrets) : (start n).Kept heard := by
  have hcovers : ∀ b : Broadcast S ρ, b.Covers ∅ := fun _ _ h => absurd h (Finset.notMem_empty _)
  have hlt : ∀ node, ∀ index ∈ (∅ : Finset Nat), index < heard node :=
    fun _ _ h => absurd h (Finset.notMem_empty _)
  refine ⟨⟨secrets, ?_⟩, ?_, ?_, fun id => ⟨hcovers _, hlt 0⟩, ?_, ?_,
    fun place => ⟨hcovers _, hlt _⟩, ?_⟩
  · rw [start, Broadcast.start, hnew.context]
    exact hp
  · intro id g hg
    simp [start, Broadcast.start, hnew.groups] at hg
  · intro a ha
    simp [start, Broadcast.start, hnew.assignment] at ha
  · intro index m hm
    simp [start, Broadcast.start, Broadcast.message?] at hm
  · intro place m hm
    obtain ⟨hunset, hempty, -⟩ := hnew.members m (List.mem_of_getElem? hm)
    refine ⟨fun id g hg => ?_, fun hphase => ?_, fun hphase => ?_⟩
    · simp [hempty] at hg
    · simp [hunset] at hphase
    · simp [hunset] at hphase
  · intro index hb hm
    simp [start, Broadcast.start, Broadcast.message?] at hm

theorem Kept.mono (h : w.Kept heard) (hle : ∀ node, heard node ≤ heard' node) : w.Kept heard' :=
  { h with
    ledger := fun id =>
      ⟨(h.ledger id).1, fun i hi => Nat.lt_of_lt_of_le ((h.ledger id).2 i hi) (hle 0)⟩
    account := fun place =>
      ⟨(h.account place).1, fun i hi => Nat.lt_of_lt_of_le ((h.account place).2 i hi) (hle _)⟩ }

/-- The journal is kept by what is true of its new entries when they are made. -/
theorem Kept.sends [S.FaithfulPoints] (h : w.Kept heard) {w' : Journal S ρ}
    {result : Except NodeError (List (Message S))}
    (hsends : w.toBroadcast.Sends result w'.toBroadcast)
    (hbooks : ∀ (id : GroupId) (g : ManagedGroup S),
      w'.network.coordinator.groups[id]? = some g → w.Books (w'.ledger id) id g)
    (hassigned : ∀ a, w'.network.coordinator.assignment = some a →
      ∀ g, w'.network.coordinator.groups[a.group]? = some g →
        a.slot.toNat = (w'.ledger a.group).card)
    (hledger : ∀ id, w.Covers (w'.ledger id) ∧ ∀ index ∈ w'.ledger id, index < heard' 0)
    (hstamps : ∀ index < w.sent.length, w'.stamps index = w.stamps index)
    (htold : ∀ ms, result = .ok ms → ∀ j x, ms[j]? = some x →
      w.Told (w.sent.length + j) (w'.stamps (w.sent.length + j)) x)
    (hstands : ∀ (place : Nat) (m : Member S ρ), w'.network.members[place]? = some m →
      w.Stands (w'.accounts place) m)
    (haccount : ∀ place, w.Covers (w'.accounts place) ∧
      ∀ index ∈ w'.accounts place, index < heard' (place + 1))
    (hold : (∀ ms, result = .ok ms → ∀ x ∈ ms, x.kind ≠ .heartbeat ∧ x.kind ≠ .joinAck) →
      ∀ (id : GroupId) (g : ManagedGroup S), w'.network.coordinator.groups[id]? = some g →
        w.network.coordinator.groups[id]? = some g)
    (hnew : ∀ ms, result = .ok ms → ∀ hb, .heartbeat hb ∈ ms →
      ∀ (id : GroupId) (g : ManagedGroup S), w'.network.coordinator.groups[id]? = some g →
        g.info ∈ hb.groups) : w'.Kept heard' := by
  refine ⟨?_, fun id g hg => (hbooks id g hg).grow hsends.grows (hledger id).1, hassigned,
    fun id => ⟨hsends.grows.covers (hledger id).1, (hledger id).2⟩,
    hsends.told hstamps h.told htold,
    fun place m hm => (hstands place m hm).grow hsends.grows (haccount place).1,
    fun place => ⟨hsends.grows.covers (haccount place).1, (haccount place).2⟩,
    hsends.posted h.posted hold fun ms hms hb hmem => ⟨?_, hnew ms hms hb hmem⟩⟩
  · rw [hsends.context]
    exact h.setup
  · obtain ⟨j, hj⟩ := List.getElem?_of_mem hmem
    exact htold ms hms j _ hj

/-- A member may be replaced by one that stands where its new account puts it. -/
theorem Kept.member [S.FaithfulPoints] (h : w.Kept heard) (hle : ∀ node, heard node ≤ heard' node)
    {place : Nat} {m₀ m : Member S ρ} (hm₀ : w.network.members[place]? = some m₀)
    {directory : Directory S} (hdirectory : directory.Extends w.network.directory)
    {result : Except NodeError (List (Message S))}
    (hsent : ∀ ms, result = .ok ms → ∀ x ∈ ms, m₀.MaySend x) {account : Finset Nat}
    (hstands : w.Stands account m) (hcovers : w.Covers account)
    (hlt : ∀ index ∈ account, index < heard' (place + 1)) :
    Kept heard' ⟨⟨{ w.network with members := w.network.members.set place m, directory },
      w.sent ++ Network.sent (Network.frames result)⟩, w.ledger, w.stamps,
      Function.update w.accounts place account⟩ := by
  refine h.sends ⟨rfl, rfl, hdirectory⟩ h.books h.assigned (h.mono hle).ledger (fun _ _ => rfl) ?_
    ?_ ?_ (fun _ _ _ hg => hg) fun ms hms hb hmem => absurd (hsent ms hms _ hmem) id
  · intro ms hms j x hx
    exact (h.stands place m₀ hm₀).told (hsent ms hms x (List.mem_of_getElem? hx)) _ _
  · intro place' m' hm'
    have hm' : (w.network.members.set place m)[place']? = some m' := hm'
    show w.Stands (Function.update w.accounts place account place') m'
    by_cases hplace : place' = place
    · subst hplace
      rw [List.getElem?_set_self', Option.map_eq_map, Option.map_eq_some_iff] at hm'
      obtain ⟨_, -, rfl⟩ := hm'
      rw [Function.update_self]
      exact hstands
    · rw [List.getElem?_set_ne (Ne.symm hplace)] at hm'
      rw [Function.update_of_ne hplace]
      exact h.stands place' m' hm'
  · intro place'
    show w.Covers (Function.update w.accounts place account place') ∧
      ∀ index ∈ Function.update w.accounts place account place', index < heard' (place' + 1)
    by_cases hplace : place' = place
    · subst hplace
      rw [Function.update_self]
      exact ⟨hcovers, hlt⟩
    · rw [Function.update_of_ne hplace]
      exact (h.mono hle).account place'

/-- The coordinator may be replaced by one whose groups are what the new ledgers say. -/
theorem Kept.coordinator [S.FaithfulPoints] (h : w.Kept heard)
    (hle : ∀ node, heard node ≤ heard' node) {c : Coordinator S ρ}
    {result : Except NodeError (List (Message S))} {ledger : GroupId → Finset Nat}
    {stamps : Nat → Finset Nat}
    (hbooks : ∀ (id : GroupId) (g : ManagedGroup S), c.groups[id]? = some g →
      w.Books (ledger id) id g)
    (hassigned : ∀ a, c.assignment = some a → ∀ g, c.groups[a.group]? = some g →
      a.slot.toNat = (ledger a.group).card)
    (hledger : ∀ id, w.Covers (ledger id) ∧ ∀ index ∈ ledger id, index < heard' 0)
    (hstamps : ∀ index < w.sent.length, stamps index = w.stamps index)
    (htold : ∀ ms, result = .ok ms → ∀ j x, ms[j]? = some x →
      w.Told (w.sent.length + j) (stamps (w.sent.length + j)) x)
    (hold : (∀ ms, result = .ok ms → ∀ x ∈ ms, x.kind ≠ .heartbeat ∧ x.kind ≠ .joinAck) →
      ∀ (id : GroupId) (g : ManagedGroup S), c.groups[id]? = some g →
        w.network.coordinator.groups[id]? = some g)
    (hnew : ∀ ms, result = .ok ms → ∀ hb, .heartbeat hb ∈ ms →
      ∀ (id : GroupId) (g : ManagedGroup S), c.groups[id]? = some g → g.info ∈ hb.groups) :
    (w.moved c result ledger stamps).Kept heard' :=
  h.sends ⟨rfl, rfl, Directory.Extends.refl _⟩ hbooks hassigned hledger hstamps htold h.stands
    (h.mono hle).account hold hnew

theorem Kept.quiet [S.FaithfulPoints] (h : w.Kept heard) (hle : ∀ node, heard node ≤ heard' node)
    {r : Except NodeError (List (Message S)) × Coordinator S ρ}
    (hr : Coordinator.Quiet w.network.coordinator r) :
    (w.moved r.2 r.1 w.ledger w.stamps).Kept heard' := by
  obtain ⟨secrets, hp⟩ := h.setup
  refine h.coordinator hle ?_ ?_ (h.mono hle).ledger (fun _ _ => rfl) ?_ ?_ ?_
  · intro id g hg
    rw [hr.same.groups] at hg
    exact h.books id g hg
  · intro a ha g hg
    rw [hr.same.groups] at hg
    rcases hr.offered a ha with hold | ⟨g', hcurrent, hgroup, hslot⟩
    · exact h.assigned a hold g hg
    · obtain ⟨id, -, hid⟩ := Option.bind_eq_some_iff.1 hcurrent
      have hbooks := h.books id g' hid
      obtain ⟨t, ht, hscale, -, htally⟩ := hbooks.tally
      rw [hgroup, hbooks.named]
      refine ManagedGroup.eq_of_head?_freeSlots (hscale ▸ htally) ?_ hslot
      rw [hscale]
      exact (hp.isShaped ht).scale_lt
  · intro ms hms j x hx
    exact Broadcast.told_of_not_concernsGroups (hr.silent ms hms x (List.mem_of_getElem? hx))
  · intro _ id g hg
    rw [hr.same.groups] at hg
    exact hg
  · intro ms hms hb hmem
    exact absurd trivial (hr.silent ms hms _ hmem)

theorem Kept.beat [S.FaithfulPoints] (h : w.Kept heard) {c : Coordinator S ρ}
    (hassigned : c.assignment = none) {ledger : GroupId → Finset Nat}
    (hbooks : ∀ (id : GroupId) (g : ManagedGroup S), c.groups[id]? = some g →
      w.Books (ledger id) id g)
    (hledger : ∀ id, w.Covers (ledger id) ∧ ∀ index ∈ ledger id, index < heard 0) :
    (w.moved c.afterHeartbeat (.ok [.heartbeat c.nextHeartbeat]) ledger w.stamps).Kept heard := by
  refine h.coordinator (fun _ => Nat.le_refl _) hbooks ?_ hledger (fun _ _ => rfl) ?_ ?_ ?_
  · intro a ha
    have ha : c.assignment = some a := ha
    simp [hassigned] at ha
  · intro ms hms j x hx
    obtain rfl := Except.ok.inj hms
    obtain rfl := List.mem_singleton.1 (List.mem_of_getElem? hx)
    intro info hinfo
    obtain ⟨id, g, hg, rfl⟩ := Coordinator.mem_snapshots.1 hinfo
    exact (hbooks id g hg).isOrdered
  · intro hno
    exact absurd rfl (hno _ rfl _ (List.mem_singleton_self _)).1
  · intro ms hms hb hmem id g hg
    obtain rfl := Except.ok.inj hms
    obtain rfl := Message.heartbeat.inj (List.mem_singleton.1 hmem)
    exact Coordinator.mem_snapshots.2 ⟨id, g, hg, rfl⟩

variable [Generator ρ]

/-- **A heartbeat keeps the journal.** -/
theorem Kept.heartbeat [S.FaithfulPoints] (h : w.Kept heard)
    {r : Except NodeError (List (Message S)) × Coordinator S ρ}
    (hr : w.network.coordinator.tick w.network.context w.network.now .heartbeat = r)
    (hticks :
      Coordinator.Ticks w.network.context w.network.now w.network.coordinator .heartbeat r) :
    (w.step (.tick 0 .heartbeat)).Kept heard := by
  obtain ⟨secrets, hp⟩ := h.setup
  let rested := w.network.coordinator.rest w.network.now
  have hlive : ∀ (id : GroupId) (g : ManagedGroup S), rested.groups[id]? = some g →
      w.network.coordinator.groups[id]? = some g := fun _ _ => Coordinator.of_getElem?_live
  -- The heartbeat fails, goes out for the groups that are left, or founds one more.
  cases hticks with
  | @stalled err =>
    have hstep : w.step (.tick 0 .heartbeat) =
        w.moved rested (.error (.agreement err)) w.ledger w.stamps := by
      simp only [Journal.step, moved, Broadcast.step, Broadcast.act, Network.tick, hr,
        Coordinator.Watched.founded?_rest, rested]
    rw [hstep]
    refine h.coordinator (fun _ => Nat.le_refl _) (fun id g hg => h.books id g (hlive id g hg)) ?_
      h.ledger (fun _ _ => rfl) (fun ms hms => by simp at hms) (fun _ => hlive)
      fun ms hms => by simp at hms
    intro a ha
    have ha : none = some a := ha
    simp at ha
  | continued =>
    have hstep : w.step (.tick 0 .heartbeat) = w.moved rested.afterHeartbeat
        (.ok [.heartbeat rested.nextHeartbeat]) w.ledger w.stamps := by
      simp only [Journal.step, moved, Broadcast.step, Broadcast.act, Network.tick, hr,
        Coordinator.Watched.founded?_afterHeartbeat, Coordinator.Watched.founded?_rest, rested]
    rw [hstep]
    exact h.beat rfl (fun id g hg => h.books id g (hlive id g hg)) h.ledger
  | @founded g filled founds =>
    have hstep : w.step (.tick 0 .heartbeat) = w.moved (rested.withGroup g).afterHeartbeat
        (.ok [.heartbeat (rested.withGroup g).nextHeartbeat])
        (Function.update w.ledger g.info.id ∅) w.stamps := by
      simp only [Journal.step, moved, Broadcast.step, Broadcast.act, Network.tick, hr,
        Coordinator.Watched.founded?_afterHeartbeat, Coordinator.Watched.founded?_withGroup, rested]
    rw [hstep]
    refine h.beat rfl ?_ ?_
    · intro id g' hg'
      rcases getElem?_insert_cases hg' with ⟨rfl, rfl⟩ | ⟨hid, hg'⟩
      · rw [Function.update_self]
        exact Broadcast.books_bootstrap hp founds
      · rw [Function.update_of_ne (Ne.symm hid)]
        exact h.books id g' (hlive id g' hg')
    · intro id
      by_cases hid : g.info.id = id
      · subst hid
        rw [Function.update_self]
        exact ⟨fun _ hi => absurd hi (Finset.notMem_empty _),
          fun _ hi => absurd hi (Finset.notMem_empty _)⟩
      · rw [Function.update_of_ne (Ne.symm hid)]
        exact h.ledger id

/-- **An accepted join keeps the journal.** It takes the next slot of its group, and the key that
the acknowledgement carries is the one after it. -/
theorem Kept.join [S.FaithfulPoints] (h : w.Kept heard) {join : Join S} {index : Nat}
    (hindex : w.message? index = some (.join join)) (hnew : heard 0 ≤ index)
    {g : ManagedGroup S} (hg : Coordinator.Admits w.network.context w.network.directory join
      w.network.coordinator g) :
    ∃ share g', g.seat w.network.context.parameters w.network.directory join.proof =
        (.ok share, g') ∧
      ∀ c : Coordinator S ρ, c.assignment = none →
        c.groups = w.network.coordinator.groups.insert join.proof.group g' →
        let joins := insert index (w.ledger join.proof.group)
        (w.moved c (.ok [.joinAck ⟨join.proof.group, join.proof.slot, join.proof.keyId, share,
          g'.info.key⟩]) (Function.update w.ledger join.proof.group joins)
          (Function.update w.stamps w.sent.length joins)).Kept
          (Function.update heard 0 (index + 1)) := by
  obtain ⟨secrets, hp⟩ := h.setup
  obtain ⟨hcovers, hearlier⟩ := h.ledger join.proof.group
  have hslot := h.assigned _ hg.assigned g hg.held
  have hnotMem : index ∉ w.ledger join.proof.group := fun hmem =>
    Nat.not_lt.2 hnew (hearlier index hmem)
  obtain ⟨share, g', hseat, hbooks, hack⟩ :=
    (h.books _ g hg.held).seat hp hg hslot hcovers hindex hnotMem
  refine ⟨share, g', hseat, ?_⟩
  intro c hassigned hgroups
  have hle := le_update heard 0 hnew
  refine h.coordinator hle ?_ ?_ ?_ (fun i hi => Function.update_of_ne (Nat.ne_of_lt hi) _ _) ?_ ?_
    ?_
  · intro id g'' hg''
    rw [hgroups] at hg''
    rcases getElem?_insert_cases hg'' with ⟨rfl, rfl⟩ | ⟨hid, hg''⟩
    · rw [Function.update_self]
      exact hbooks
    · rw [Function.update_of_ne (Ne.symm hid)]
      exact h.books id g'' hg''
  · intro a ha
    rw [hassigned] at ha
    simp at ha
  · intro id
    by_cases hid : join.proof.group = id
    · subst hid
      rw [Function.update_self, Function.update_self]
      refine ⟨hack.covers, fun i hi => ?_⟩
      rcases Finset.mem_insert.1 hi with rfl | hi
      · exact Nat.lt_succ_self i
      · exact Nat.lt_of_lt_of_le (hearlier i hi) (Nat.le_succ_of_le hnew)
    · rw [Function.update_of_ne (Ne.symm hid)]
      exact (h.mono hle).ledger id
  -- The one message that is sent is the acknowledgement, and it is stamped with the new ledger.
  · intro ms hms j x hx
    obtain rfl := Except.ok.inj hms
    have hj : j = 0 := by
      have := (List.getElem?_eq_some_iff.1 hx).1
      simpa using this
    subst hj
    obtain rfl := Option.some.inj hx
    rw [Nat.add_zero, Function.update_self]
    exact hack
  · intro hno
    exact absurd rfl (hno _ rfl _ (List.mem_singleton_self _)).2
  · intro ms hms hb hmem
    obtain rfl := Except.ok.inj hms
    simp at hmem

theorem Kept.tick [S.FaithfulPoints] (h : w.Kept heard) (node : Nat) (timer : Timer) :
    (w.step (.tick node timer)).Kept heard := by
  cases node with
  | zero =>
    obtain ⟨r, hr⟩ : ∃ r, w.network.coordinator.tick w.network.context w.network.now timer = r :=
      ⟨_, rfl⟩
    have hregroups : Coordinator.Regroups w.network.context
        ⟨w.network.directory, w.network.now, .timer timer⟩ w.network.coordinator r := by
      rw [← hr]
      exact Coordinator.regroups_react _ _ _
    cases hregroups with
    | quiet quiet =>
      have hstep : w.step (.tick 0 timer) = w.moved r.2 r.1 w.ledger w.stamps := by
        simp only [Journal.step, moved, Broadcast.step, Broadcast.act, Network.tick, hr,
          Coordinator.Watched.founded?_of_same quiet.same.nextGroupSeq]
      rw [hstep]
      exact h.quiet (fun _ => Nat.le_refl _) quiet
    | heartbeat fired ticks =>
      obtain rfl := Coordinator.Input.timer.inj fired
      exact h.heartbeat hr ticks
    -- Only frames seat members.
    | unseated arrived | seated arrived => exact absurd rfl (arrived.not_timer timer)
  | succ place =>
    cases hm : w.network.members[place]? with
    | none =>
      have hstep : w.step (.tick (place + 1) timer) = w :=
        step_of_stays (by simp only [Broadcast.act, Network.tick, hm]) (by simp) (by simp)
      rw [hstep]
      exact h
    | some m =>
      have hstep : w.step (.tick (place + 1) timer) = ⟨⟨{ w.network with
          members := w.network.members.set place (m.tick w.network.context w.network.now timer).2 },
          w.sent ++ Network.sent (Network.frames
            (.ok (m.tick w.network.context w.network.now timer).1))⟩, w.ledger, w.stamps,
          Function.update w.accounts place (w.accounts place)⟩ := by
        simp only [Journal.step, Broadcast.step, Broadcast.act, Network.tick, hm,
          Coordinator.Watched.founded?_of_same, Function.update_eq_self]
      rw [hstep]
      refine h.member (fun _ => Nat.le_refl _) hm (Directory.Extends.refl _) ?_
        ((h.stands place m hm).tick _ _ timer) (h.account place).1 (h.account place).2
      intro ms hms
      obtain rfl := Except.ok.inj hms
      exact m.maySend_tick _ _ timer

theorem Kept.deliver_coordinator [S.FaithfulPoints] (h : w.Kept heard) {index : Nat}
    (horder : heard 0 ≤ index) :
    (w.step (.deliver 0 index)).Kept (Function.update heard 0 (index + 1)) := by
  have hle := le_update heard 0 horder
  cases hframe : w.sent[index]? with
  | none =>
    rw [step_of_stays (by simp only [Broadcast.act, hframe]) (by simp) fun index' heq => ?_]
    · exact h.mono hle
    · obtain rfl : index = index' := by simpa using heq
      rw [hframe, Option.bind_none]
  | some frame =>
    obtain ⟨r, hr⟩ : ∃ r, w.network.coordinator.receive w.network.context w.network.directory
        w.network.now frame = r := ⟨_, rfl⟩
    have hregroups : Coordinator.Regroups w.network.context
        ⟨w.network.directory, w.network.now, .frame frame⟩ w.network.coordinator r := by
      rw [← hr]
      exact Coordinator.regroups_react _ _ _
    have hread {m : Message S} (arrived : Coordinator.Stimulus.Carries w.network.context
        ⟨w.network.directory, w.network.now, .frame frame⟩ m) : w.message? index = some m := by
      obtain ⟨frame', hinput, hread⟩ := arrived
      obtain rfl := Coordinator.Input.frame.inj hinput
      rw [Broadcast.message?, hframe]
      exact hread
    cases hregroups with
    | quiet quiet =>
      have hpassed : w.admittedTo? frame = none := admittedTo?_of_quiet (hr ▸ quiet)
      have hstep : w.step (.deliver 0 index) = w.moved r.2 r.1 w.ledger w.stamps := by
        simp only [Journal.step, moved, Broadcast.step, Broadcast.act, Network.deliver, hframe,
          Option.bind_some, hpassed, hr]
      rw [hstep]
      exact h.quiet hle quiet
    | heartbeat fired => cases fired
    | unseated arrived admits seat =>
      -- The joiner of a checked proof is always seated.
      obtain ⟨share, g', hseat, -⟩ := h.join (hread arrived) horder admits
      simp [hseat] at seat
    | @seated join g g' share arrived admits seat =>
      obtain ⟨share', g'', hseat, hkept⟩ := h.join (hread arrived) horder admits
      obtain ⟨hshare, rfl⟩ := Prod.mk.inj (seat.symm.trans hseat)
      obtain rfl := Except.ok.inj hshare
      have hstep : w.step (.deliver 0 index) = w.moved
          ((w.network.coordinator.draw w.network.context w.network.directory join).welcome
            w.network.now join g')
          (.ok [.joinAck ⟨join.proof.group, join.proof.slot, join.proof.keyId, share,
            g'.info.key⟩])
          (Function.update w.ledger join.proof.group (insert index (w.ledger join.proof.group)))
          (Function.update w.stamps w.sent.length
            (insert index (w.ledger join.proof.group))) := by
        simp only [Journal.step, moved, Broadcast.step, Broadcast.act, Network.deliver, hframe,
          Option.bind_some, admittedTo?, hr]
      rw [hstep]
      exact hkept _ rfl rfl

theorem Kept.deliver_member [S.FaithfulPoints] (h : w.Kept heard) {place index : Nat}
    (horder : heard (place + 1) ≤ index) :
    (w.step (.deliver (place + 1) index)).Kept
      (Function.update heard (place + 1) (index + 1)) := by
  have hle := le_update heard (place + 1) horder
  -- There may be no frame, no member or no message. None of them changes an account.
  have hstays : w.toBroadcast.act (.deliver (place + 1) index) = (.ok [], w.network) →
      w.accountAfter place index = w.accounts place →
      (w.step (.deliver (place + 1) index)).Kept
        (Function.update heard (place + 1) (index + 1)) := by
    intro hact haccount
    rw [step_of_stays hact (fun place' index' heq => ?_) (by simp)]
    · exact h.mono hle
    · obtain ⟨rfl, rfl⟩ : place = place' ∧ index = index' := by simpa using heq
      exact haccount
  cases hframe : w.sent[index]? with
  | none =>
    refine hstays (by simp only [Broadcast.act, hframe]) ?_
    unfold Journal.accountAfter Broadcast.message?
    rw [hframe]
    cases w.network.members[place]? <;> rfl
  | some frame =>
    cases hm : w.network.members[place]? with
    | none =>
      refine hstays (by simp only [Broadcast.act, Network.deliver, hframe, hm]) ?_
      simp only [Journal.accountAfter, hm]
    | some m =>
      obtain ⟨secrets, hp⟩ := h.setup
      obtain ⟨hcovers, hearlier⟩ := h.account place
      rw [step_deliver_member hframe hm]
      have hdirectory := m.extends_receive w.network.context w.network.now frame w.network.directory
      cases hmsg : w.network.context.decode? frame with
      | none =>
        have haccount : w.accountAfter place index = w.accounts place := by
          simp only [Journal.accountAfter, hm, Broadcast.message?, hframe, Option.bind_some, hmsg]
        simp only [Member.receive, hmsg] at hdirectory ⊢
        rw [haccount]
        refine h.member hle hm hdirectory ?_ (h.stands place m hm) hcovers
          fun i hi => Nat.lt_of_lt_of_le (hearlier i hi) (hle _)
        intro ms hms
        obtain rfl := Except.ok.inj hms
        simp
      | some msg =>
        have hindex : w.message? index = some msg := by
          rw [Broadcast.message?, hframe]
          exact hmsg
        have htold := h.told index msg hindex
        have hlt : ∀ i ∈ w.accounts place, i < index := fun i hi =>
          Nat.lt_of_lt_of_le (hearlier i hi) horder
        have haccount : w.accountAfter place index = m.accountAfter w.network.context
            w.network.directory msg index (w.stamps index) (w.accounts place) := by
          simp only [Journal.accountAfter, hm, hindex]
        obtain ⟨hcovers', hlt'⟩ :=
          Broadcast.Stands.covers_accountAfter hcovers hlt hindex htold m
        simp only [Member.receive, hmsg] at hdirectory ⊢
        rw [haccount]
        refine h.member hle hm hdirectory (fun ms hms => m.maySend_handle _ _ msg _ hms)
          ((h.stands place m hm).handle hp hindex htold
            (fun hmem => Nat.lt_irrefl _ (hlt index hmem)) _) hcovers' ?_
        rw [Function.update_self]
        exact hlt'

/-- **Every step keeps the journal**, as long as no frame overtakes another. -/
theorem Kept.step [S.FaithfulPoints] (h : w.Kept heard) (a : Network.Action)
    (horder : a.InOrder heard) : (w.step a).Kept (a.advance heard) := by
  cases a with
  | clock now =>
    have hsends : w.toBroadcast.Sends (.ok []) ⟨{ w.network with now }, w.sent ++ []⟩ :=
      ⟨rfl, rfl, Directory.Extends.refl _⟩
    have hnone : ∀ ms, Except.ok (ε := NodeError) ([] : List (Message S)) = .ok ms → ms = [] :=
      fun ms hms => (Except.ok.inj hms).symm
    refine h.sends hsends h.books h.assigned h.ledger (fun _ _ => rfl) ?_ h.stands h.account
      (fun _ _ _ hg => hg) ?_
    · intro ms hms j x hx
      simp [hnone ms hms] at hx
    · intro ms hms hb hmem
      simp [hnone ms hms] at hmem
  | tick node timer => exact h.tick node timer
  | deliver node index =>
    cases node with
    | zero => exact h.deliver_coordinator horder
    | succ place => exact h.deliver_member horder

/-! ## Whole runs -/

/-- **Every run keeps the journal**, as long as no frame overtakes another. -/
theorem Kept.run [S.FaithfulPoints] (h : w.Kept heard) {actions rest : List Network.Action}
    (horderly : Network.Orderly heard (actions ++ rest)) :
    ∃ heard', (actions.foldl Journal.step w).Kept heard' ∧ Network.Orderly heard' rest := by
  induction actions generalizing w heard with
  | nil => exact ⟨heard, h, horderly⟩
  | cons a actions ih => exact ih (h.step a horderly.1) horderly.2

end Journal

end GroupKey
