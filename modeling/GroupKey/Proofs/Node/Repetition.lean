import GroupKey.Proofs.Node.Distribution
import GroupKey.Proofs.Session.Repetition

/-!
# Messages that reach a member twice

The coordinator relays what it accepts, so a member hears every distribution from its sender and
again from the coordinator. Whatever a member is told, it is no wiser the second time: it is left in
the same state, with the same answer. Only messages that ask something of it are another matter: an
assignment or a request is answered each time, and a join that does not hold costs randomness.

A heartbeat may name one group several times, by snapshots that are out of date already. What is out
of date goes when the heartbeat comes again, and comes back with it.

* `Snapshot.newest` — what is kept of a group that is known and heard of.
* `foldl_merge_again` — the snapshots of a heartbeat, merged into what was left of them.
* `handleHeartbeat_again`, `handleJoinAck_again`, `decapsulate_again` — each kind of message.
* `receive_again` — every frame that tells a member something.
-/

namespace GroupKey

variable {S : Suite}

/-- Messages of the kind tell a member something; the others ask something of it. -/
def MessageKind.IsNews : MessageKind → Prop
  | heartbeat | heartbeatAck | joinAck | keyEncap | keyUpdate | keyUpdateAck => True
  | notifyPosition | join | keyEncapNotify => False

/-! ## Snapshots of one group -/

namespace Snapshot

/-- What is kept of a group: the snapshot with more members, the one known if there is no more. -/
def newest (known : Option (Snapshot S)) (info : Snapshot S) : Option (Snapshot S) :=
  match known with
  | none => some info
  | some g => if info.memberCount ≤ g.memberCount then some g else some info

/-- **What was known of a group matters only as far as nothing newer is heard of it.** -/
theorem foldl_newest_some (g : Snapshot S) (infos : List (Snapshot S)) :
    infos.foldl newest (some g) =
      if ∃ info ∈ infos, g.memberCount < info.memberCount then infos.foldl newest none
      else some g := by
  induction infos generalizing g with
  | nil => simp
  | cons i infos ih =>
    have hnone : (i :: infos).foldl newest none = infos.foldl newest (some i) := rfl
    rw [List.foldl_cons, newest]
    by_cases hle : i.memberCount ≤ g.memberCount
    · have hcons : (∃ info ∈ i :: infos, g.memberCount < info.memberCount) ↔
          ∃ info ∈ infos, g.memberCount < info.memberCount := by
        simp [UInt32.not_lt.2 hle]
      rw [if_pos hle, ih g, hnone, ih i, if_congr hcons rfl rfl]
      split
      · next hnewer =>
        -- What is newer than what was known is newer than what is passed over.
        obtain ⟨info, hinfo, hlt⟩ := hnewer
        rw [if_pos ⟨info, hinfo, UInt32.lt_of_le_of_lt hle hlt⟩]
      · rfl
    · rw [if_neg hle, hnone, if_pos ⟨i, List.mem_cons_self, UInt32.not_le.1 hle⟩]

theorem le_of_foldl_newest {infos : List (Snapshot S)} {known : Option (Snapshot S)}
    {g : Snapshot S} (h : infos.foldl newest known = some g) :
    ∀ info ∈ infos, info.memberCount ≤ g.memberCount := by
  -- It is enough to follow a group that is known.
  have hsome (g₀ : Snapshot S) (infos : List (Snapshot S))
      (h : infos.foldl newest (some g₀) = some g) :
      g₀.memberCount ≤ g.memberCount ∧ ∀ info ∈ infos, info.memberCount ≤ g.memberCount := by
    induction infos generalizing g₀ with
    | nil =>
      obtain rfl := Option.some.inj h
      exact ⟨UInt32.le_rfl, by simp⟩
    | cons i infos ih =>
      rw [List.foldl_cons, newest] at h
      split at h
      · next hle =>
        obtain ⟨hg, hinfos⟩ := ih g₀ h
        exact ⟨hg, List.forall_mem_cons.2 ⟨UInt32.le_trans hle hg, hinfos⟩⟩
      · next hlt =>
        obtain ⟨hi, hinfos⟩ := ih i h
        exact ⟨UInt32.le_trans (UInt32.le_of_lt (UInt32.not_le.1 hlt)) hi,
          List.forall_mem_cons.2 ⟨hi, hinfos⟩⟩
  cases known with
  | some g₀ => exact (hsome g₀ infos h).2
  | none =>
    cases infos with
    | nil => simp
    | cons i infos => exact List.forall_mem_cons.2 (hsome i infos h)

/-- Snapshots that are merged twice, with what is stale dropped before each time, leave the same. -/
theorem foldl_newest_again (fresh : Snapshot S → Bool) {known : Option (Snapshot S)}
    (hknown : ∀ g, known = some g → fresh g = true) (infos : List (Snapshot S)) :
    infos.foldl newest ((infos.foldl newest known).filter fresh) = infos.foldl newest known := by
  cases hr : infos.foldl newest known with
  | none =>
    cases known with
    | none => exact hr
    | some g =>
      rw [foldl_newest_some] at hr
      split at hr
      · exact hr
      · cases hr
  | some x =>
    have hnewest : ¬ ∃ info ∈ infos, x.memberCount < info.memberCount := by
      rintro ⟨info, hinfo, hlt⟩
      exact UInt32.not_lt.2 (le_of_foldl_newest hr info hinfo) hlt
    by_cases hx : fresh x = true
    · rw [Option.filter_some, if_pos hx, foldl_newest_some, if_neg hnewest]
    · rw [Option.filter_some, if_neg hx]
      cases known with
      | none => exact hr
      | some g =>
        rw [foldl_newest_some] at hr
        split at hr
        · exact hr
        · obtain rfl := Option.some.inj hr
          exact absurd (hknown g rfl) hx

end Snapshot

namespace Member

variable {ρ : Type} {ctx : Context S} {m m' : Member S ρ} {joined : Option GroupId}
  {now : Timestamp}

/-! ## Snapshots of all groups -/

theorem getElem?_merge {id : GroupId} (hid : joined ≠ some id) (m : Member S ρ)
    (info : Snapshot S) : (merge joined m info).groups[id]? =
      if info.id = id then Snapshot.newest m.groups[id]? info else m.groups[id]? := by
  unfold merge
  by_cases heq : info.id = id
  · subst heq
    rw [if_pos rfl]
    cases hcached : m.groups[info.id]? with
    | none => exact Std.ExtTreeMap.getElem?_insert_self
    | some cached =>
      simp only [if_neg hid, Snapshot.newest]
      split
      · exact hcached
      · exact Std.ExtTreeMap.getElem?_insert_self
  · rw [if_neg heq]
    cases m.groups[info.id]? with
    | none => exact getElem?_insert_of_ne heq
    | some cached =>
      simp only
      split
      · rfl
      · split
        · rfl
        · exact getElem?_insert_of_ne heq

/-- Of a group other than its own a member keeps the newest that it knows or hears. -/
theorem getElem?_foldl_merge {id : GroupId} (hid : joined ≠ some id) (infos : List (Snapshot S))
    (m : Member S ρ) : (infos.foldl (merge joined) m).groups[id]? =
      (infos.filter fun info => info.id = id).foldl Snapshot.newest m.groups[id]? := by
  induction infos generalizing m with
  | nil => rfl
  | cons info infos ih =>
    rw [List.foldl_cons, ih, getElem?_merge hid, List.filter_cons]
    by_cases heq : info.id = id
    · simp [heq]
    · simp [heq]

/-- The member hears that it has missed the join at `slot` of its own group. -/
def Misses (joined : Option GroupId) (infos : List (Snapshot S)) (m : Member S ρ) (slot : UInt32) :
    Prop :=
  ∃ info ∈ infos, joined = some info.id ∧ ∃ g, m.groups[info.id]? = some g ∧
    g.memberCount < info.memberCount ∧ slot ∈ (g.slots.diff info.slots).filter info.isOccupied

theorem misses_of_mem_gaps (hown : ∀ id, joined = some id → ∃ g, m.groups[id]? = some g)
    {infos : List (Snapshot S)} {slot : UInt32}
    (h : slot ∈ (infos.foldl (merge joined) m).gaps) :
    slot ∈ m.gaps ∨ Misses joined infos m slot := by
  induction infos generalizing m with
  | nil => exact .inl h
  | cons info infos ih =>
    have hmerged := merged_merge joined m info
    have hown' (id : GroupId) (hid : joined = some id) :
        ∃ g, (merge joined m info).groups[id]? = some g := by
      obtain ⟨g, hg⟩ := hown id hid
      exact ⟨g, hmerged.own id g hid hg⟩
    rcases ih hown' h with hgap | ⟨info', hinfo', hid, g, hg, hlt, hslot⟩
    · -- the gaps of the first snapshot
      by_cases hid : joined = some info.id
      · obtain ⟨g, hg⟩ := hown info.id hid
        unfold merge at hgap
        simp only [hg, if_pos hid] at hgap
        split at hgap
        · exact .inl hgap
        · next hlt =>
          rcases mem_foldl_insert.1 hgap with hslot | hgap
          · exact .inr ⟨info, List.mem_cons_self, hid, g, hg, UInt32.not_le.1 hlt, hslot⟩
          · exact .inl hgap
      · unfold merge at hgap
        split at hgap
        · exact .inl hgap
        · rw [if_neg hid] at hgap
          split at hgap <;> exact .inl hgap
    · obtain ⟨g₀, hg₀⟩ := hown info'.id hid
      obtain rfl : g₀ = g := Option.some.inj ((hmerged.own _ g₀ hid hg₀).symm.trans hg)
      exact .inr ⟨info', List.mem_cons_of_mem _ hinfo', hid, g₀, hg₀, hlt, hslot⟩

/-- **Snapshots that come again bring nothing new.** Let a member that knows of its own group, and
of no group that has expired, take note of snapshots, and let those that have expired be dropped.
The same snapshots then lead to what was known before. -/
theorem foldl_merge_again {infos : List (Snapshot S)} {m₁ : Member S ρ} (m' : Member S ρ)
    (hfresh : ∀ (id : GroupId) (g : Snapshot S), m.groups[id]? = some g → g.isExpired now = false)
    (hown : ∀ id, joined = some id → ∃ g, m.groups[id]? = some g)
    (hm₁ : infos.foldl (merge joined) m = m₁) :
    infos.foldl (merge joined) { m' with
      groups := m₁.groups.filter fun _ g => !g.isExpired now
      gaps := m₁.gaps } = { m' with groups := m₁.groups, gaps := m₁.gaps } := by
  obtain ⟨m₂, hm₂⟩ : ∃ m₂ : Member S ρ, { m' with
    groups := m₁.groups.filter fun _ g => !g.isExpired now
    gaps := m₁.gaps } = m₂ := ⟨_, rfl⟩
  have hfirst := merged_foldl joined infos m
  have hsecond := merged_foldl joined infos m₂
  rw [hm₁] at hfirst
  have hfilter (id : GroupId) :
      m₂.groups[id]? = m₁.groups[id]?.filter fun g => !g.isExpired now := by
    rw [← hm₂]
    exact Std.ExtTreeMap.getElem?_filter'
  -- Its own group has not expired, and is left as it is.
  have hkept (id : GroupId) (hid : joined = some id) : ∃ g, m.groups[id]? = some g ∧
      m₁.groups[id]? = some g ∧ m₂.groups[id]? = some g := by
    obtain ⟨g, hg⟩ := hown id hid
    have hg₁ := hfirst.own id g hid hg
    refine ⟨g, hg, hg₁, ?_⟩
    rw [hfilter, hg₁, Option.filter_some, hfresh id g hg]
    rfl
  have hgroups : (infos.foldl (merge joined) m₂).groups = m₁.groups := by
    refine Std.ExtTreeMap.ext_getElem? fun id => ?_
    by_cases hid : joined = some id
    · obtain ⟨g, -, hg₁, hg₂⟩ := hkept id hid
      rw [hsecond.own id g hid hg₂, hg₁]
    · rw [getElem?_foldl_merge hid, hfilter, ← hm₁, getElem?_foldl_merge hid]
      exact Snapshot.foldl_newest_again _ (fun g hg => by simp [hfresh id g hg]) _
  have hgaps : (infos.foldl (merge joined) m₂).gaps = m₁.gaps := by
    have hgaps₂ : m₂.gaps = m₁.gaps := by rw [← hm₂]
    refine Std.ExtTreeSet.ext_mem fun slot => ⟨fun h => ?_, fun h => hsecond.gaps slot (hgaps₂ ▸ h)⟩
    rcases misses_of_mem_gaps (fun id hid => ⟨_, (hkept id hid).choose_spec.2.2⟩) h with
      hgap | ⟨info, hinfo, hid, g, hg, hlt, hslot⟩
    · exact hgaps₂ ▸ hgap
    · obtain ⟨g₀, hg₀, -, hg₂⟩ := hkept info.id hid
      obtain rfl : g₀ = g := Option.some.inj (hg₂.symm.trans hg)
      exact hfirst.missed info hinfo hid g₀ hg₀ hlt slot hslot
  obtain ⟨groups, gaps, hrest⟩ := hsecond.rest
  rw [hrest] at hgroups hgaps
  obtain rfl : groups = m₁.groups := hgroups
  obtain rfl : gaps = m₁.gaps := hgaps
  rw [hm₂, hrest, ← hm₂]

/-! ## Heartbeats -/

theorem isExpired_dropExpired {id : GroupId} {g : Snapshot S}
    (h : (m.dropExpired now).groups[id]? = some g) : g.isExpired now = false := by
  have hfilter : (m.dropExpired now).groups = m.groups.filter fun _ g => !g.isExpired now := by
    unfold dropExpired
    simp only
    split
    · split <;> rfl
    · rfl
  rw [hfilter, Std.ExtTreeMap.getElem?_filter', Option.filter_eq_some_iff] at h
  simpa using h.2

/-- A member that is not joining, and whose own group has not expired, only forgets the groups that
have. -/
theorem dropExpired_of_own (hphase : m.phase ≠ .joining)
    (hown : ∀ id, m.joinedGroup? = some id →
      ∃ g, m.groups[id]? = some g ∧ g.isExpired now = false) :
    m.giveUpJoin.dropExpired now =
      { m with groups := m.groups.filter fun _ g => !g.isExpired now } := by
  rw [giveUpJoin, if_neg hphase, dropExpired]
  have hsame : Member.joinedGroup? { m with
    groups := m.groups.filter fun _ g => !g.isExpired now } = m.joinedGroup? := rfl
  simp only [hsame]
  cases hjoined : m.joinedGroup? with
  | none => rfl
  | some id =>
    obtain ⟨g, hg, hexpired⟩ := hown id hjoined
    have hmem : id ∈ m.groups.filter fun _ g => !g.isExpired now := by
      rw [Std.ExtTreeMap.mem_iff_isSome_getElem?, Std.ExtTreeMap.getElem?_filter', hg,
        Option.filter_some, hexpired]
      rfl
    exact if_pos hmem

/-- **A heartbeat that comes again** is answered alike, and changes nothing further. -/
theorem handleHeartbeat_again (ho : m.session.Orderly) (hb : m.session.HasBytes) (now : Timestamp)
    (heartbeat : Heartbeat S) :
    (m.handleHeartbeat now heartbeat).2.handleHeartbeat now heartbeat =
      m.handleHeartbeat now heartbeat := by
  obtain ⟨-, hphase, -, hown⟩ := dropExpired_giveUpJoin now m
  obtain ⟨m₀, hm₀⟩ : ∃ m₀, m.giveUpJoin.dropExpired now = m₀ := ⟨_, rfl⟩
  have hfresh : ∀ (id : GroupId) (g : Snapshot S), m₀.groups[id]? = some g →
      g.isExpired now = false := fun id g hg => isExpired_dropExpired (hm₀ ▸ hg)
  obtain ⟨m₁, hm₁⟩ : ∃ m₁, heartbeat.groups.foldl (merge m₀.joinedGroup?) m₀ = m₁ := ⟨_, rfl⟩
  obtain ⟨session, hsession⟩ : ∃ session, (m₁.session.observe heartbeat.accepted).2 = session :=
    ⟨_, rfl⟩
  rw [hm₀] at hphase hown
  have hmerged := merged_foldl m₀.joinedGroup? heartbeat.groups m₀
  rw [hm₁] at hmerged
  obtain ⟨groups, gaps, hrest⟩ := hmerged.rest
  have hfirst : m.handleHeartbeat now heartbeat =
      ([.heartbeatAck ⟨m₁.phase, m₁.pid, heartbeat.seq⟩], { m₁ with session }) := by
    rw [handleHeartbeat, hm₀]
    simp only [hm₁, hsession]
  have hobserve : (session.observe heartbeat.accepted).2 = session := by
    have hbook : session = (m.session.observe heartbeat.accepted).2 := by
      rw [← session_handleHeartbeat now heartbeat, hfirst]
    rw [hbook]
    exact KeyBook.observe_again ho hb heartbeat.accepted
  -- The member starts the second time as it ended the first, less what has expired.
  have hjoined : Member.joinedGroup? { m₁ with session } = m₀.joinedGroup? := by
    rw [hrest]
    rfl
  have hstart : Member.dropExpired now (giveUpJoin { m₁ with session }) =
      { m₁ with
        session
        groups := m₁.groups.filter fun _ g => !g.isExpired now } := by
    refine dropExpired_of_own ?_ fun id hid => ?_
    · have hsame : m₁.phase = m₀.phase := by rw [hrest]
      show m₁.phase ≠ .joining
      rw [hsame]
      rcases hphase with h | ⟨h, -⟩ <;> simp [h]
    · rw [hjoined] at hid
      obtain ⟨g, hg⟩ := hown id hid
      exact ⟨g, hmerged.own id g hid hg, hfresh id g hg⟩
  have hagain := foldl_merge_again { m₁ with session } hfresh hown hm₁
  rw [hfirst, handleHeartbeat]
  simp only [hstart]
  have hjoined' : Member.joinedGroup? { m₁ with
      session
      groups := m₁.groups.filter fun _ g => !g.isExpired now } = m₀.joinedGroup? := hjoined
  rw [hjoined', hagain]
  simp only [hobserve]

/-! ## Acknowledgements -/

theorem handleJoinAck_again (ack : JoinAck S)
    (hok : (m.handleJoinAck ack).1 ≠ .error .memberCountOverflow) :
    (m.handleJoinAck ack).2.handleJoinAck ack = m.handleJoinAck ack := by
  have hpassed {m' : Member S ρ} (hphase : m'.phase = .joined) :
      m'.handleJoinAck ack = (.ok (), m') := by
    rw [handleJoinAck, if_pos (by simp [hphase])]
  rcases handleJoinAck_cases ack m with ⟨-, hack⟩ | ⟨pending, -, hack⟩
  · rw [hack]
    exact hack
  rw [hack] at hok ⊢
  cases hg : m.groups[ack.group]? with
  | none => exact hpassed rfl
  | some g =>
    simp only [hg] at hok ⊢
    split
    · exact hpassed rfl
    · next hfree =>
      rw [if_neg hfree] at hok
      rcases fillSlot_cases (m := m.admittedBy ack pending.reserved) hg ack.slot ack.key with
        hover | hfilled
      · exact absurd hover hok
      · rw [hfilled]
        exact hpassed rfl

/-! ## Session keys -/

theorem decrypt_of_sessionKey? {d : Distribution S} {key : Bytes}
    (h : m.sessionKey? ctx d = some key) :
    ∃ own index, m.joinedGroup? = some own ∧ d.groups.findIdx? (· = own) = some index ∧
      m.engine.decrypt ctx.parameters d.ciphertext index = .ok key := by
  obtain ⟨own, hown, h⟩ := Option.bind_eq_some_iff.1 h
  split at h
  · cases h
  obtain ⟨index, hindex, h⟩ := Option.bind_eq_some_iff.1 h
  refine ⟨own, index, hown, hindex, ?_⟩
  split at h
  · next hdecrypt =>
    split at h
    · rw [hdecrypt, Option.some.inj h]
    · cases h
  · cases h

/-- The bytes that a distribution brings depend on the key pair only. -/
theorem sessionKey?_inj {d : Distribution S} {key key' : Bytes} (hengine : m'.engine = m.engine)
    (hphase : m'.phase = m.phase) (h : m.sessionKey? ctx d = some key)
    (h' : m'.sessionKey? ctx d = some key') : key = key' := by
  obtain ⟨own, index, hown, hindex, hdecrypt⟩ := decrypt_of_sessionKey? h
  obtain ⟨own', index', hown', hindex', hdecrypt'⟩ := decrypt_of_sessionKey? h'
  rw [joinedGroup?, hengine, hphase, ← joinedGroup?, hown] at hown'
  obtain rfl := Option.some.inj hown'
  obtain rfl := Option.some.inj (hindex.symm.trans hindex')
  rw [hengine, hdecrypt] at hdecrypt'
  exact Except.ok.inj hdecrypt'

/-- **A distribution that comes again** is of no use: the bytes are held, they are not wanted any
more, or they are dropped as before. -/
theorem decapsulate_again (ctx : Context S) (ho : m.session.Orderly) (hb : m.session.HasBytes)
    (d : Distribution S) :
    (m.decapsulate ctx d).decapsulate ctx d = m.decapsulate ctx d := by
  cases hkey : m.sessionKey? ctx d with
  | none =>
    have hsame : m.decapsulate ctx d = m := by rw [decapsulate, hkey]
    rw [hsame, hsame]
  | some key =>
    obtain ⟨b, hbook⟩ : ∃ b, (m.session.offer S.hash d.fingerprint key).2 = b := ⟨_, rfl⟩
    have hnoted : m.decapsulate ctx d = { m with session := b } := by
      rw [decapsulate, hkey]
      simp only [hbook]
    have hoffer : (b.offer S.hash d.fingerprint key).2 = b := by
      rw [← hbook]
      exact KeyBook.offer_again ho hb d.fingerprint key
    rw [hnoted, decapsulate]
    cases hkey' : Member.sessionKey? ctx d { m with session := b } with
    | none => rfl
    | some key' =>
      -- The same key pair gives the same bytes.
      obtain rfl : key = key' := sessionKey?_inj (by rfl) (by rfl) hkey hkey'
      simp only [hoffer]

/-! ## Frames -/

variable [Generator ρ]

theorem IsReachable.hasBytes (h : m.IsReachable ctx) : m.session.HasBytes := by
  refine h.induction (P := fun m => m.session.HasBytes) (fun _ _ _ _ _ hnew => ?_) fun m e hb => ?_
  · obtain ⟨key, res, -, -, rfl⟩ := new_eq_ok hnew
    exact KeyBook.hasBytes_empty
  · obtain ⟨calls, hbook, -⟩ := told_react ctx e m
    rw [hbook]
    exact hb.run S.hash calls

/-- **A message that comes again** is answered alike, and changes nothing further, if it only tells
the member something and makes no count overflow. -/
theorem handle_again (ho : m.session.Orderly) (hb : m.session.HasBytes) (now : Timestamp)
    (directory : Directory S) {msg : Message S} (hmsg : msg.kind.IsNews)
    (hok : (m.handle ctx now msg directory).1 ≠ .error .memberCountOverflow) :
    let r := m.handle ctx now msg directory
    r.2.1.handle ctx now msg r.2.2 = r := by
  cases msg with
  | notifyPosition a => cases hmsg
  | join join => cases hmsg
  | keyEncapNotify request => cases hmsg
  | heartbeat heartbeat =>
    have hagain := handleHeartbeat_again ho hb now heartbeat
    simp only [handle, hagain]
  | joinAck ack =>
    have hcount : (m.handleJoinAck ack).1 ≠ .error .memberCountOverflow := fun hover =>
      hok (by simp [handle, hover, Except.map])
    have hagain := handleJoinAck_again ack hcount
    simp only [handle, hagain]
  | keyEncap d | keyUpdate d =>
    have hagain := decapsulate_again ctx ho hb d
    simp only [handle, hagain]
  | keyUpdateAck ack =>
    have hagain := KeyBook.observe_again ho hb ack.fingerprint
    simp only [handle, hagain]
  | heartbeatAck _ => rfl

/-- **A frame that reaches a member twice.** Let a member that came to its state in any way receive
a frame of any bytes, at any time, and let what the frame holds be a heartbeat, an acknowledgement
or a distribution, or nothing at all. Unless the frame makes a count overflow, the member receives
it again, right after, with the same answer, and is left in the same state. -/
theorem receive_again (h : m.IsReachable ctx) (now : Timestamp) (frame : Bytes)
    (directory : Directory S) (hframe : ∀ msg, ctx.decode? frame = some msg → msg.kind.IsNews)
    (hok : (m.receive ctx now frame directory).1 ≠ .error .memberCountOverflow) :
    let r := m.receive ctx now frame directory
    r.2.1.receive ctx now frame r.2.2 = r := by
  simp only [Member.receive] at hok ⊢
  cases hmsg : ctx.decode? frame with
  | none => rfl
  | some msg =>
    simp only [hmsg] at hok ⊢
    exact handle_again h.orderly h.hasBytes now directory (hframe msg hmsg) hok

/-- The acknowledgement of a join, heard twice: the member is joined, and stays as it is. -/
theorem receive_again_join_ack :
    ∃ events e frame, sampleAdmission? = some events ∧ events.getLast? = some e ∧
      e.input = .frame frame ∧
      let m := sampleMember.run sampleContext events.dropLast
      let r := m.receive sampleContext e.now frame e.directory
      m.phase = .joining ∧ r.2.1.phase = .joined ∧
        r.2.1.receive sampleContext e.now frame r.2.2 = r := by
  have hrun : (sampleAdmission?.any fun events => events.getLast?.any fun e =>
      e.input.frame?.any fun frame =>
        let m := sampleMember.run sampleContext events.dropLast
        let r := m.receive sampleContext e.now frame e.directory
        (sampleContext.decode? frame).any (fun msg => decide (msg.kind = .joinAck)) &&
          decide (m.phase = .joining) && decide (r.2.1.phase = .joined) &&
          r.1.toOption.isSome) = true := by
    decide +kernel
  obtain ⟨events, hevents, hrun⟩ := (Option.any_eq_true _ _).1 hrun
  obtain ⟨e, he, hrun⟩ := (Option.any_eq_true _ _).1 hrun
  obtain ⟨frame, hin, hrun⟩ := (Option.any_eq_true _ _).1 hrun
  rw [Coordinator.Input.frame?_eq_some] at hin
  simp only [Bool.and_eq_true, decide_eq_true_eq] at hrun
  obtain ⟨⟨⟨hkind, hjoining⟩, hjoined⟩, hok⟩ := hrun
  have hnew : Member.new 1 (Counter.mk 100) .empty =
      (.ok sampleMember, (Member.new (S := .sample) 1 (Counter.mk 100) .empty).2) :=
    Prod.ext (eq_ok_of_toOption (by decide +kernel)) rfl
  refine ⟨events, e, frame, hevents, he, hin, hjoining, hjoined,
    receive_again ((isReachable_new hnew).run _) e.now frame e.directory (fun msg hmsg => ?_) ?_⟩
  · rw [hmsg, Option.any_some, decide_eq_true_eq] at hkind
    rw [hkind]
    trivial
  · intro hover
    simp [hover, Except.toOption] at hok

end Member

end GroupKey
