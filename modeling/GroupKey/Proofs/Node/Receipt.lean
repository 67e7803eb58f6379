import GroupKey.Proofs.Agreement.Decryption
import GroupKey.Proofs.Node.Distribution
import GroupKey.Proofs.Node.Relay
import GroupKey.Proofs.Node.Synchrony
import GroupKey.Proofs.Wire.RoundTrip

/-!
# A distributed key arrives

A member that distributes a session key encrypts it to all groups that it knows, each by the key
that it knows of it, and lists the groups in the order of their names. A member of one of them finds
its group in the list, decrypts the part at this place and has the key, if its decryption key opens
the key to which the part was encrypted. That the key is the right one it sees from the fingerprint.

* `IsAddressable` — groups are known by their names, and slots have their bases.
* `IsReachable.addressable` — this holds of a member at any time.
* `Distributes.isWellFormed` — what is distributed can be written and read.
* `Distributes.decapsulate` — a member of one of the groups has the key from it.
* `received_of_distributed` — and so it has from the frame, as it was sent or relayed.
* `Network.hasReachable_run` — the members of a network are reachable.
-/

namespace GroupKey

variable {S : Suite} {ρ : Type} {ctx : Context S} {secrets : SlotSecrets S}
  {m m' a a' b : Member S ρ} {d : Distribution S} {now : Timestamp}

namespace Member

/-! ## Names of groups and bases of slots -/

/-- Groups are known by their names, which can be written, and the slots that the member waits for
and has are those of bases. -/
structure IsAddressable (p : Parameters S) (m : Member S ρ) : Prop where
  groups : ∀ (id : GroupId) (g : Snapshot S), m.groups[id]? = some g →
    g.id = id ∧ id.IsWellFormed
  pending : ∀ pending, m.engine.pending = some pending → pending.slot.toNat < p.h.length
  slot : ∀ s, m.engine.membership = some s → s.slot.toNat < p.h.length

section Parameters

variable {p : Parameters S}

theorem IsAddressable.of_keepsPlace (h : m.IsAddressable p) (hkeeps : m.KeepsPlace m') :
    m'.IsAddressable p where
  groups := hkeeps.groups ▸ h.groups
  pending := hkeeps.engine ▸ h.pending
  slot := hkeeps.engine ▸ h.slot

theorem IsAddressable.replace (h : m.IsAddressable p) {group : GroupId} {g g' : Snapshot S}
    (hg : m.groups[group]? = some g) (hid : g'.id = g.id) :
    IsAddressable p { m with groups := m.groups.insert group g' } := by
  refine ⟨fun id g₁ hg₁ => ?_, h.pending, h.slot⟩
  rcases getElem?_insert_cases hg₁ with ⟨rfl, rfl⟩ | ⟨-, hg₁⟩
  · exact ⟨hid.trans (h.groups _ g hg).1, (h.groups _ g hg).2⟩
  · exact h.groups id g₁ hg₁

theorem IsAddressable.fillSlot (h : m.IsAddressable p) (group : GroupId) (slot : UInt32)
    (key : EncryptionKey S) : (m.fillSlot group slot key).2.IsAddressable p := by
  unfold Member.fillSlot
  cases hg : m.groups[group]? with
  | none => exact h
  | some g =>
    simp only [Snapshot.countMember?]
    by_cases hcount : (g.occupy slot).memberCount.toNat + 1 < UInt32.size
    · simp only [hcount, if_true]
      exact h.replace hg rfl
    · simp only [hcount, if_false]
      exact h.replace hg rfl

theorem engine_handleHeartbeat (now : Timestamp) (hb : Heartbeat S) (m : Member S ρ) :
    (m.handleHeartbeat now hb).2.engine = m.giveUpJoin.engine := by
  have hdrop : (m.giveUpJoin.dropExpired now).engine = m.giveUpJoin.engine := by
    unfold dropExpired
    simp only
    split
    · split <;> rfl
    · rfl
  obtain ⟨groups, gaps, hrest⟩ := (merged_foldl (m.giveUpJoin.dropExpired now).joinedGroup?
    hb.groups (m.giveUpJoin.dropExpired now)).rest
  rw [← hdrop]
  simp only [handleHeartbeat, hrest]

theorem IsAddressable.heartbeat (h : m.IsAddressable p) (now : Timestamp)
    {hb : Heartbeat S} (hnames : ∀ g ∈ hb.groups, g.id.IsWellFormed) :
    (m.handleHeartbeat now hb).2.IsAddressable p := by
  have hgive : m.giveUpJoin.IsAddressable p := by
    unfold giveUpJoin
    split
    · exact ⟨h.groups, by simp [Engine.abandon], h.slot⟩
    · exact h
  refine ⟨fun id g hg => ?_, ?_, ?_⟩
  · rcases (handleHeartbeat_hears now hb m).known id g hg with ⟨hg, -⟩ | ⟨hmem, hid, -⟩
    · exact h.groups id g hg
    · exact ⟨hid, hid ▸ hnames g hmem⟩
  · rw [engine_handleHeartbeat]
    exact hgive.pending
  · rw [engine_handleHeartbeat]
    exact hgive.slot

end Parameters

theorem IsAddressable.joinAck {p : Parameters S} (h : m.IsAddressable p) (ack : JoinAck S) :
    (m.handleJoinAck ack).2.IsAddressable p := by
  rcases handleJoinAck_cases ack m with ⟨-, hpassed⟩ | ⟨pending, hc, hack⟩
  · rw [hpassed]
    exact h
  have hadmitted : (m.admittedBy ack pending.reserved).IsAddressable p := by
    refine ⟨h.groups, by simp [admittedBy], fun s' hs' => ?_⟩
    obtain rfl := Option.some.inj hs'
    exact hc.slot ▸ h.pending pending hc.awaited
  rw [hack]
  cases hg : m.groups[ack.group]? with
  | none => exact hadmitted
  | some g =>
    simp only
    split
    · exact hadmitted.replace hg rfl
    · exact hadmitted.fillSlot ack.group ack.slot ack.key

theorem IsAddressable.findIdx?_groups {p : Parameters S} (h : m.IsAddressable p) {id : GroupId}
    {g : Snapshot S} (hg : m.groups[id]? = some g) :
    ∃ i, (m.groups.values.map (·.id)).findIdx? (· = id) = some i ∧
      (m.groups.values.map (·.key))[i]? = some g.key := by
  have hknown : ∀ g' ∈ m.groups.values, g'.id = id → g' = g := fun g' hmem hid => by
    obtain ⟨k, hk⟩ := mem_values.1 hmem
    rw [← (h.groups k g' hk).1, hid, hg] at hk
    exact (Option.some.inj hk).symm
  cases hi : (m.groups.values.map (·.id)).findIdx? (· = id) with
  | none =>
    have hmem : g.id ∈ m.groups.values.map (·.id) := List.mem_map_of_mem (mem_values.2 ⟨id, hg⟩)
    have hne := List.findIdx?_eq_none_iff.1 hi _ hmem
    simp [(h.groups id g hg).1] at hne
  | some i =>
    obtain ⟨hlt, hid, -⟩ := List.findIdx?_eq_some_iff_getElem.1 hi
    rw [List.length_map] at hlt
    rw [List.getElem_map, decide_eq_true_eq] at hid
    refine ⟨i, rfl, ?_⟩
    rw [List.getElem?_map, List.getElem?_eq_getElem hlt, hknown _ (List.getElem_mem hlt) hid,
      Option.map_some]

variable [Generator ρ]

theorem IsAddressable.notifyPosition (hp : ctx.parameters.IsSetup secrets)
    (h : m.IsAddressable ctx.parameters) (a : Assignment) (directory : Directory S) :
    (m.handleNotifyPosition ctx a directory).2.1.IsAddressable ctx.parameters := by
  obtain ⟨engine, generator, phase, hm, hmembership, ⟨-, hpending⟩ |
    ⟨-, -, g, scale, pending, -, hscale, hpending, -, hslot⟩⟩ :=
      handleNotifyPosition_state ctx a directory m <;> rw [hm]
  · exact ⟨h.groups, by rw [hpending]; exact h.pending, by rw [hmembership]; exact h.slot⟩
  · refine ⟨h.groups, fun pending' hpending' => ?_, by rw [hmembership]; exact h.slot⟩
    obtain rfl := Option.some.inj (hpending.symm.trans hpending')
    obtain ⟨t, ht, rfl⟩ := Parameters.scale_eq_ok.1 hscale
    exact Nat.lt_of_lt_of_le hslot (hp.scale _ t (Parameters.tier_eq_ok.1 ht)).2

theorem IsAddressable.join (h : m.IsAddressable ctx.parameters) (directory : Directory S)
    (join : Join S) : (m.handleJoin ctx directory join).2.IsAddressable ctx.parameters := by
  rcases handleJoin_cases ctx directory join m with
    ⟨-, generator, hpassed⟩ | ⟨g, engine, generator, result, m', hf, hfill, hjoin⟩
  · rw [hpassed]
    exact ⟨h.groups, h.pending, h.slot⟩
  obtain ⟨s, change, share, hs, -, rfl⟩ := Engine.absorb_changes hf.absorb
  have hfilled : m'.IsAddressable ctx.parameters := by
    rw [← show _ = m' from congrArg Prod.snd hfill]
    have habsorbed : IsAddressable ctx.parameters { m with
        engine := { m.engine with membership := some { s with
          key := s.key.apply change, decryptionKey := share } }
        generator } := by
      refine ⟨h.groups, h.pending, fun s' hs' => ?_⟩
      obtain rfl := Option.some.inj hs'
      exact h.slot s hs
    exact habsorbed.fillSlot _ _ _
  rw [hjoin]
  cases result with
  | error err => exact hfilled
  | ok u => exact ⟨hfilled.groups, hfilled.pending, hfilled.slot⟩

theorem IsAddressable.react [S.FaithfulPoints] (hp : ctx.parameters.IsSetup secrets)
    (h : m.IsAddressable ctx.parameters) (e : Coordinator.Stimulus S) :
    (m.react ctx e).2.IsAddressable ctx.parameters := by
  unfold Member.react
  cases e.input with
  | timer timer => exact h.of_keepsPlace (m.keepsPlace_tick ctx e.now timer).1
  | frame bytes =>
    simp only [Member.receive]
    cases hmsg : ctx.decode? bytes with
    | none => exact h
    | some msg =>
      rw [Context.decode?_eq_some] at hmsg
      have hkeys (hof : msg.IsOfKeys) :
          (m.handle ctx e.now msg e.directory).2.1.IsAddressable ctx.parameters :=
        h.of_keepsPlace (keepsPlace_handle hof e.now e.directory)
      cases msg with
      | heartbeat hb =>
        have hshape := (Message.isWellFormed_of_decode (.all S) hmsg).shape
        exact h.heartbeat e.now fun g hg => (hshape.2 g hg).id
      | heartbeatAck ack => exact h
      | notifyPosition a => exact h.notifyPosition hp a e.directory
      | join join => exact h.join e.directory join
      | joinAck ack => exact h.joinAck ack
      | keyEncapNotify | keyEncap | keyUpdate | keyUpdateAck => exact hkeys trivial

/-- **A member knows groups by their names at any time**, and has slots that have bases. -/
theorem IsReachable.addressable [S.FaithfulPoints] (hp : ctx.parameters.IsSetup secrets)
    (h : m.IsReachable ctx) : m.IsAddressable ctx.parameters := by
  refine h.induction (fun _ _ _ m _ hnew => ?_) fun m e hm => hm.react hp e
  obtain ⟨key, res, -, -, rfl⟩ := new_eq_ok hnew
  exact ⟨by simp, by simp [Engine.empty], by simp [Engine.empty]⟩

end Member

/-! ## What is distributed -/

variable [Generator ρ]

theorem Ciphertext.isWellFormed_encrypt [S.FaithfulPoints] (p : Parameters S) (message : Bytes)
    (keys : List (EncryptionKey S)) (r : ρ) :
    (encrypt p message keys r).1.parts.length = keys.length ∧
      (encrypt p message keys r).1.IsWellFormed (.all S) := by
  obtain ⟨omega, r', hr⟩ : ∃ omega r', S.randomScalar r = (omega, r') := ⟨_, _, rfl⟩
  have hparts : (encrypt p message keys r).1.parts = keys.map (partFor p message omega) := by
    rw [encrypt, hr]
  have hpart : ∀ part ∈ keys.map (partFor p message omega), part.c3.length = message.length := by
    intro part hpart
    obtain ⟨key, -, rfl⟩ := List.mem_map.1 hpart
    simp [partFor, Suite.length_keystream]
  refine ⟨by rw [hparts, List.length_map], trivial, fun _ _ => trivial, fun part hmem => ?_⟩
  rw [messageLength]
  rw [hparts] at hmem ⊢
  split
  · next hnil => simp [hnil] at hmem
  · next first rest hcons =>
    rw [hpart part hmem, hpart first (hcons ▸ List.mem_cons_self)]

namespace Member

/-- A member encrypts its key to all groups that it knows, in the order of their names. -/
theorem Distributes.encrypted (h : Distributes ctx now d a a') :
    ∃ (key : Bytes) (r : ρ), d.pid = a.pid ∧ d.fingerprint.Matches S.hash key ∧
      d.groups = a.groups.values.map (·.id) ∧
      d.ciphertext =
        (Ciphertext.encrypt ctx.parameters key (a.groups.values.map (·.key)) r).1 := by
  obtain ⟨seen, keyLength, -, hdrawn⟩ := h.drawn
  obtain ⟨rfl, -⟩ := Prod.mk.inj hdrawn
  have hpos := nextVersion_pos seen
  exact ⟨(Generator.bytes keyLength a.generator).1, (Generator.bytes keyLength a.generator).2, rfl,
    ⟨hpos, (if_neg (UInt32.ne_of_lt hpos).symm).symm⟩, rfl, rfl⟩

theorem Distributes.isWellFormed [S.FaithfulPoints] (h : Distributes ctx now d a a')
    (ha : a.IsAddressable ctx.parameters) : d.IsWellFormed (.all S) := by
  obtain ⟨key, r, -, hmatches, hgroups, hciphertext⟩ := h.encrypted
  obtain ⟨hlength, hct⟩ := Ciphertext.isWellFormed_encrypt ctx.parameters key
    (a.groups.values.map (·.key)) r
  refine ⟨fun hzero => absurd hzero (UInt32.ne_of_lt hmatches.1).symm, fun id hid => ?_, ?_,
    hciphertext ▸ hct⟩
  · rw [hgroups] at hid
    obtain ⟨g, hg, rfl⟩ := List.mem_map.1 hid
    obtain ⟨k, hk⟩ := mem_values.1 hg
    obtain ⟨hname, hwritten⟩ := ha.groups k g hk
    exact hname ▸ hwritten
  · rw [hciphertext, hlength, hgroups, List.length_map, List.length_map]

/-! ## What a member of one of the groups has from it -/

/-- A member knows its group, and its decryption key opens the encryption key. -/
structure Holds (p : Parameters S) (s : Membership S) (b : Member S ρ) : Prop where
  joined : b.phase = .joined
  membership : b.engine.membership = some s
  opens : p.Opens s.decryptionKey s.slot.toNat s.key

/-- **A member has the key that was distributed to its group**, if it is newer than the adopted one
and the book has room for it. -/
theorem Distributes.decapsulate [S.BilinearPairing] (h : Distributes ctx now d a a')
    (hp : ctx.parameters.IsSetup secrets) (ha : a.IsAddressable ctx.parameters)
    {ctx' : Context S} (hsame : ctx'.parameters = ctx.parameters)
    (hb : b.IsAddressable ctx.parameters) (hbook : b.session.Orderly) (hne : a.pid ≠ b.pid)
    {s : Membership S} (hs : b.Holds ctx.parameters s) {g : Snapshot S}
    (hg : a.groups[s.group]? = some g) (hkey : g.key = s.key)
    (hnewer : d.fingerprint.IsNewer b.session.current)
    (hroom : b.session.unconfirmed < KeyBook.maxUnconfirmed) :
    (b.decapsulate ctx' d).session.HasKeyFor d.fingerprint := by
  obtain ⟨key, r, hpid, hmatches, hgroups, hciphertext⟩ := h.encrypted
  by_cases hheld : b.session.HasKeyFor d.fingerprint
  · have hnone : b.sessionKey? ctx' d = none := by
      simp [sessionKey?, hheld]
    rwa [Member.decapsulate, hnone]
  obtain ⟨i, hi, hpart⟩ := ha.findIdx?_groups hg
  rw [hkey] at hpart
  have hdecrypt : b.engine.decrypt ctx'.parameters d.ciphertext i = .ok key := by
    rw [Engine.decrypt, hs.membership, hsame, hciphertext]
    exact hp.decryptWith_encrypt (hb.slot s hs.membership) hs.opens key hpart r
  have hown : b.joinedGroup? = some s.group :=
    joinedGroup?_eq_some.2 ⟨hs.joined, s, hs.membership, rfl⟩
  have hread : b.sessionKey? ctx' d = some key := by
    have hfirst : ¬ (d.pid = b.pid ∨ ¬ d.fingerprint.IsNewer b.session.current ∨
        b.session.HasKeyFor d.fingerprint) := by
      rw [hpid]
      simp [hne, hnewer, hheld]
    simp only [sessionKey?, hown, Option.bind_eq_bind, Option.bind_some, hfirst, if_false, hgroups,
      hi, hdecrypt, hmatches, if_true]
  rw [Member.decapsulate, hread]
  exact KeyBook.hasKeyFor_offer hbook hnewer hmatches (.inl hroom)

end Member

/-! ## Frames on their way -/

/-- **The length of a distribution**: each group adds its name, an element and the masked key. -/
theorem Wire.length_distribution [S.FaithfulPoints] (h : d.IsWellFormed (.all S))
    (hpos : 0 < d.fingerprint.version) :
    (distribution d).length = 154 + d.groups.length * (114 + d.ciphertext.messageLength) := by
  have hnames : (d.groups.flatMap GroupId.toBytes).length = d.groups.length * 16 := by
    simp [List.length_flatMap, GroupId.size]
  have hparts : (d.ciphertext.parts.flatMap fun part => point2 part.c2 ++ part.c3).length =
      d.ciphertext.parts.length * (98 + d.ciphertext.messageLength) := by
    have hpart : ∀ part ∈ d.ciphertext.parts, (point2 part.c2 ++ part.c3).length =
        98 + d.ciphertext.messageLength := fun part hpart => by
      rw [List.length_append, length_point2 (h.ciphertext.c2 part hpart),
        h.ciphertext.c3 part hpart, Read.pointLength2]
    rw [List.length_flatMap, List.map_congr_left hpart, List.map_const', List.sum_replicate,
      smul_eq_mul]
  rw [distribution, ciphertext, fingerprint, if_pos hpos]
  simp only [List.length_append, Bytes.length_ofUInt32, length_time, Digest.length_bytes, hnames,
    hparts, length_point2 h.ciphertext.c1, Read.pointLength2, h.parts]
  ring

/-- A frame with a key that some coordinator sends on receiving another frame. -/
def Coordinator.Relays (ρ : Type) [Generator ρ] (p : Parameters S) (frame frame' : Bytes) : Prop :=
  ∃ (ctx : Context S) (c : Coordinator S ρ) (directory : Directory S) (now : Timestamp),
    ctx.parameters = p ∧ ∃ y ∈ emitted (c.react ctx ⟨directory, now, .frame frame⟩).1,
      y.distribution?.isSome = true ∧ y.encode = frame'

theorem Coordinator.Relays.eq_encode {p : Parameters S} {x : Message S} {frame : Bytes}
    (h : Relays ρ p x.encode frame) (hx : Message.decode p x.encode = .ok x) :
    frame = x.encode := by
  obtain ⟨ctx, c, directory, now, rfl, y, hy, hkey, rfl⟩ := h
  obtain ⟨frame, hin, hread⟩ := Stimulus.Carries.of_emits (emits_react ctx _ c) hy hkey
  obtain rfl := Input.frame.inj hin
  rw [Context.decode?_eq_some, hx] at hread
  rw [Except.ok.inj hread]

namespace Member

/-- **A distributed key arrives.** Let a member send a key, and let a joined member of one of the
groups that the sender knows receive the frame, or what a coordinator makes of it. If the sender
knows the group by the key to which the receiver's decryption key belongs, and if the key is newer
than the receiver's and its book has room, then the receiver has the key. -/
theorem received_of_distributed [S.BilinearPairing] [S.FaithfulPoints] {σ τ : Type} [Generator σ]
    [Generator τ] {level : UInt32} {maxGroupSize sizeStep : Nat} {r r' : σ} {ctx' : Context S}
    (hsetup : Parameters.setup level maxGroupSize sizeStep r = (.ok (ctx.parameters, secrets), r'))
    (hsame : ctx'.parameters = ctx.parameters)
    (ha : a.IsReachable ctx) (hb : b.IsReachable ctx') (hne : a.pid ≠ b.pid)
    {s : Membership S} (hs : b.Holds ctx.parameters s) {g : Snapshot S}
    (hg : a.groups[s.group]? = some g) (hkey : g.key = s.key)
    (e : Coordinator.Stimulus S) {x : Message S}
    (hx : x ∈ Coordinator.emitted (a.react ctx e).1) (hd : x.distribution? = some d)
    (hsize : x.payload.length < UInt32.size)
    (hnewer : d.fingerprint.IsNewer b.session.current)
    (hroom : b.session.unconfirmed < KeyBook.maxUnconfirmed) {frame : Bytes}
    (hframe : frame = x.encode ∨ Coordinator.Relays τ ctx.parameters x.encode frame)
    (directory : Directory S) (later : Timestamp) :
    (b.react ctx' ⟨directory, later, .frame frame⟩).2.session.HasKeyFor d.fingerprint := by
  have hp := Parameters.isSetup_of_setup hsetup
  have haddress := ha.addressable hp
  have hbaddress : b.IsAddressable ctx.parameters := by
    rw [← hsame]
    exact hb.addressable (hsame.symm ▸ hp)
  have hsent := distributes_of_react hx hd
  have hdelivered := hsent.decapsulate hp haddress hsame hbaddress hb.orderly hne hs hg hkey hnewer
    hroom
  have hread : Message.decode ctx.parameters x.encode = .ok x := by
    have hshaped : x.IsShaped (.all S) ctx.parameters := by
      have hwf := hsent.isWellFormed haddress
      cases x with
      | keyEncap d' | keyUpdate d' => exact Option.some.inj hd ▸ hwf
      | _ => simp [Message.distribution?] at hd
    rw [Message.decode_encode hshaped, if_pos hsize]
  have hframe : frame = x.encode := hframe.elim id fun hrelayed => hrelayed.eq_encode hread
  have hmsg : ctx'.decode? frame = some x := by
    rw [Context.decode?_eq_some, hsame, hframe, hread]
  simp only [Member.react, Member.receive, hmsg]
  cases x with
  | keyEncap d' | keyUpdate d' =>
    obtain rfl := Option.some.inj hd
    exact hdelivered
  | _ => simp [Message.distribution?] at hd

end Member

/-! ### A run with two members -/

/-- The members of a network are reachable, in its context. -/
def Network.HasReachable (context : Context S) (n : Network S ρ) : Prop :=
  n.context = context ∧ ∀ m ∈ n.members, m.IsReachable context

theorem Network.hasReachable_enroll {context : Context S} {n n' : Network S ρ}
    (hn : n.HasReachable context) {members : List (UInt32 × ρ)}
    (h : assemble.enroll members n = .ok n') : n'.HasReachable context := by
  induction members generalizing n with
  | nil => exact Except.ok.inj h ▸ hn
  | cons member members ih =>
    simp only [assemble.enroll] at h
    split at h
    · cases h
    · next m directory hm =>
      have hmore : Network.HasReachable context
          { n with directory, members := n.members ++ [m] } := by
        refine ⟨hn.1, fun m' hm' => ?_⟩
        rcases List.mem_append.1 hm' with hm' | hm'
        · exact hn.2 m' hm'
        · exact List.mem_singleton.1 hm' ▸ Member.isReachable_new hm
      exact ih hmore h

theorem Network.HasReachable.set {context : Context S} {n n' : Network S ρ}
    (hn : n.HasReachable context) {i : Nat} (hm : n.members[i]? = some m)
    (e : Coordinator.Stimulus S) (hcontext : n'.context = n.context)
    (hmembers : n'.members = n.members.set i (m.react context e).2) :
    n'.HasReachable context := by
  refine ⟨hcontext.trans hn.1, fun m' hm' => ?_⟩
  rw [hmembers] at hm'
  rcases List.mem_or_eq_of_mem_set hm' with hm' | rfl
  · exact hn.2 m' hm'
  · exact (hn.2 m (List.mem_of_getElem? hm)).react e

theorem Network.HasReachable.step {context : Context S} {w : Broadcast S ρ}
    (hn : w.network.HasReachable context) (action : Network.Action) :
    (w.step action).network.HasReachable context := by
  have hcontext := hn.1
  show (w.act action).2.HasReachable context
  cases action with
  | clock now => exact hn
  | tick node timer =>
    cases node with
    | zero => exact hn
    | succ i =>
      simp only [Broadcast.act, Network.tick]
      cases hm : w.network.members[i]? with
      | none => exact hn
      | some m =>
        exact hn.set hm ⟨w.network.directory, w.network.now, .timer timer⟩ rfl
          (by rw [← hcontext]; rfl)
  | deliver node index =>
    simp only [Broadcast.act]
    cases w.sent[index]? with
    | none => exact hn
    | some frame =>
      cases node with
      | zero => exact hn
      | succ i =>
        simp only [Network.deliver]
        cases hm : w.network.members[i]? with
        | none => exact hn
        | some m =>
          exact hn.set hm ⟨w.network.directory, w.network.now, .frame frame⟩ rfl
            (by rw [← hcontext]; rfl)

/-- **The members of a network are reachable at any time**, whatever the medium does. -/
theorem Network.hasReachable_run {context : Context S} {now : Timestamp} {directory : Directory S}
    {coordinator : UInt32 × ρ} {members : List (UInt32 × ρ)} {n : Network S ρ}
    (h : assemble context now directory coordinator secrets members = .ok n)
    (actions : List Network.Action) :
    (Broadcast.run n actions).network.HasReachable context := by
  have hnew : n.HasReachable context := by
    unfold assemble at h
    split at h
    · cases h
    · exact Network.hasReachable_enroll ⟨rfl, by simp⟩ h
  have hrun : ∀ w : Broadcast S ρ, w.network.HasReachable context →
      (actions.foldl (fun w action => w.step action) w).network.HasReachable context := by
    induction actions with
    | nil => exact fun w hw => hw
    | cons action actions ih => exact fun w hw => ih _ (hw.step action)
  exact hrun _ hnew

/-- Both members of a pair have joined: the first one followed the join of the second. -/
def sampleJoined : Network .sample Counter :=
  (Broadcast.run samplePair (sampleJoins ++ [.deliver 0 8, .deliver 2 9])).network

/-- Of two members, the first one has a key pair for a group that the second one knows by its key,
and what the second one distributes is short. -/
def sharesGroup (ctx : Context .sample) : List (Member .sample Counter) → Bool
  | [b, a] => b.engine.membership.any fun s =>
    let p := ctx.parameters
    let d := (a.distribute ctx ⟨4000⟩ 1 ctx.config.sessionKeyLength.toNat).1
    decide (b.phase = .joined) && decide (a.phase = .joined) && decide (a.pid ≠ b.pid) &&
      decide (Suite.sample.pair s.decryptionKey p.g2 =
        Suite.sample.pair s.key.mu p.g0G2 +
          Suite.sample.pair (p.slotBase s.slot.toNat) s.key.lambda) &&
      (a.groups[s.group]?.any fun g => decide (g.key = s.key)) &&
      decide (d.groups.length * (114 + d.ciphertext.messageLength) < 1000) &&
      decide (b.session.current.version = 0) && decide (b.session.unconfirmed = 0)
  | _ => false

theorem exists_of_sharesGroup {ctx : Context .sample} {members : List (Member .sample Counter)}
    (h : sharesGroup ctx members = true) : ∃ b a s g, members = [b, a] ∧ b.Holds ctx.parameters s ∧
      a.phase = .joined ∧ a.pid ≠ b.pid ∧ a.groups[s.group]? = some g ∧ g.key = s.key ∧
      (∀ version, let d := (a.distribute ctx ⟨4000⟩ version ctx.config.sessionKeyLength.toNat).1
        d.groups.length * (114 + d.ciphertext.messageLength) < 1000) ∧
      b.session.current.version = 0 ∧ b.session.unconfirmed = 0 := by
  unfold sharesGroup at h
  split at h
  · next b a =>
    obtain ⟨s, hs, h⟩ := (Option.any_eq_true _ _).1 h
    simp only [Bool.and_eq_true, decide_eq_true_eq] at h
    obtain ⟨⟨⟨⟨⟨⟨⟨hb, ha⟩, hne⟩, hopens⟩, hg⟩, hshort⟩, hcurrent⟩, hroom⟩ := h
    obtain ⟨g, hg, hkey⟩ := (Option.any_eq_true _ _).1 hg
    exact ⟨b, a, s, g, rfl, ⟨hb, hs, hopens⟩, ha, hne, hg, of_decide_eq_true hkey, fun _ => hshort,
      hcurrent, hroom⟩
  · cases h

/-- The key that the second member proposes arrives at the first. -/
theorem Member.received_of_distributed_pair :
    ∃ a b s x d, sampleJoined.members = [b, a] ∧ b.Holds sampleContext.parameters s ∧
      x ∈ Coordinator.emitted (a.react sampleContext sampleTick).1 ∧ x.distribution? = some d ∧
      ∀ frame, frame = x.encode ∨
        Coordinator.Relays Counter sampleContext.parameters x.encode frame →
          (b.react sampleContext ⟨.empty, ⟨5000⟩, .frame frame⟩).2.session.HasKeyFor
            d.fingerprint := by
  have hrun : sharesGroup sampleContext sampleJoined.members = true := by decide +kernel
  have hn : Network.assemble sampleContext ⟨1000000⟩ .empty (0, ⟨5⟩) sampleSetup.2
      [(1, ⟨100⟩), (2, ⟨200⟩)] = .ok samplePair :=
    eq_ok_of_toOption (by decide +kernel)
  obtain ⟨b, a, s, g, hmembers, hb, hjoined, hne, hg, hkey, hshort, hcurrent, hroom⟩ :=
    exists_of_sharesGroup hrun
  have hreachable : ∀ m ∈ [b, a], m.IsReachable sampleContext := by
    rw [← hmembers, sampleJoined]
    exact (Network.hasReachable_run hn _).2
  obtain ⟨version, hversion⟩ : ∃ version, nextVersion a.session.highestVersion = version := ⟨_, rfl⟩
  obtain ⟨d, hd⟩ : ∃ d, (a.distribute sampleContext ⟨4000⟩ version
    sampleContext.config.sessionKeyLength.toNat).1 = d := ⟨_, rfl⟩
  have hshort := hshort version
  rw [hd] at hshort
  have hx : .keyUpdate d ∈ Coordinator.emitted (a.react sampleContext sampleTick).1 := by
    rw [react_keyUpdate hjoined rfl, hversion]
    exact List.mem_singleton.2 (congrArg Message.keyUpdate hd.symm)
  have hsent := distributes_of_react hx rfl
  have ha := hreachable a (by simp)
  have hp := Parameters.isSetup_of_setup setup_sample
  obtain ⟨key, r, -, hmatches, -⟩ := hsent.encrypted
  have hsize : (Message.payload (.keyUpdate d)).length < UInt32.size := by
    have hlength := Wire.length_distribution (hsent.isWellFormed (ha.addressable hp)) hmatches.1
    have hvalue : UInt32.size = 4294967296 := rfl
    rw [Message.payload, hlength]
    omega
  refine ⟨a, b, s, .keyUpdate d, d, hmembers, hb, hx, rfl, fun frame hframe => ?_⟩
  refine received_of_distributed setup_sample rfl ha (hreachable b (by simp)) hne hb hg hkey
    sampleTick hx rfl hsize ?_ ?_ hframe .empty ⟨5000⟩
  · rw [Fingerprint.IsNewer, hcurrent]
    exact hmatches.1
  · rw [hroom]
    decide

end GroupKey
