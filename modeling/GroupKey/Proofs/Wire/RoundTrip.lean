import GroupKey.Proofs.Suite.Exponents
import GroupKey.Proofs.Wire.WellFormed
import Mathlib.Algebra.Order.BigOperators.Group.List

/-!
# Well-formed messages are read as they were written

A reader does not see the lengths that a writer leaves out: it takes them from the parameters, from
the identifier of a group or from another field. In a well-formed message they agree, so each field
is read from where it was written, and the frame gives its message back.

* `parses_snapshot`, `parses_joinProof`, `parses_distribution` — the records with lengths of their
  own.
* `Message.decode_encode` — all nine kinds of message.
* `Message.wellFormed_messages` — well-formed messages are read again, and nothing else is read.
-/

namespace GroupKey

variable {S : Suite}

namespace Read

variable {α : Type}

/-! ## Fields -/

theorem received_eq {f : Fingerprint} (h : f.IsCanonical) : received f = f := by
  unfold received
  by_cases hv : 0 < f.version
  · rw [if_pos hv]
  · have hzero : f.version = 0 := by
      have := UInt32.not_lt.1 hv
      exact UInt32.le_antisymm this (UInt32.zero_le)
    rw [if_neg hv, ← h hzero]

theorem parses_groupId {g : GroupId} (h : g.IsWellFormed) : Parses groupId g.toBytes g := by
  have hread : Parses groupId (g.toBytes ++ []) g := by
    refine (parses_bytes g.length_toBytes).bind ?_
    simp only [GroupId.ofBytes_toBytes, if_pos h]
    exact parses_pure g
  rwa [List.append_nil] at hread

theorem parses_phase (phase : Phase) : Parses Read.phase (Bytes.ofUInt32 phase.code) phase := by
  have h : Parses Read.phase (Bytes.ofUInt32 phase.code ++ []) phase := by
    refine (parses_uint32 phase.code).bind ?_
    cases phase <;> exact parses_pure _
  rwa [List.append_nil] at h

theorem parses_encryptionKey_of_mem {G : S.Subgroups} {k : EncryptionKey S} (h : k.IsValid G) :
    Parses encryptionKey (Wire.encryptionKey k) k :=
  (parses_point2_of_mem G h.lambda).bind (parses_point1_of_mem G h.mu).map

/-! ## Rows of values -/

theorem parses_times {read : Read α} {write : α → Bytes} {as : List α}
    (h : ∀ a ∈ as, Parses read (write a) a) :
    Parses (times read as.length) (as.flatMap write) as := by
  induction as with
  | nil => exact parses_pure []
  | cons a as ih =>
    rw [List.flatMap_cons]
    exact (h a List.mem_cons_self).bind (ih fun b hb => h b (List.mem_cons_of_mem _ hb)).map

/-- Values that fill the input are read to its end, if as many of them may be read. -/
theorem untilEnd_eq_ok {read : Read α} {write : α → Bytes} {as : List α} {limit : Nat}
    (h : ∀ a ∈ as, Parses read (write a) a) (hwrite : ∀ a ∈ as, write a ≠ [])
    (hlimit : as.length ≤ limit) (position : Nat) :
    untilEnd read limit ⟨as.flatMap write, position⟩ =
      .ok as ⟨[], position + (as.flatMap write).length⟩ := by
  induction as generalizing limit position with
  | nil => cases limit <;> rfl
  | cons a as ih =>
    obtain ⟨limit, rfl⟩ : ∃ l, limit = l + 1 := ⟨limit - 1, by simp at hlimit; omega⟩
    have hne : ¬((a :: as).flatMap write).isEmpty = true := by
      simp [hwrite a List.mem_cons_self]
    have htail := ih (fun b hb => h b (List.mem_cons_of_mem _ hb))
      (fun b hb => hwrite b (List.mem_cons_of_mem _ hb)) (by simpa using hlimit)
      (position + (write a).length)
    rw [untilEnd, get_bind]
    simp only [hne]
    rw [List.flatMap_cons, if_neg (by simp), bind_of_ok (h a List.mem_cons_self _ position),
      bind_of_ok htail, List.length_append, ← Nat.add_assoc]
    rfl

/-! ## Records -/

section Records

variable {G : S.Subgroups} {p : Parameters S}

theorem parses_snapshot {g : Snapshot S} (h : g.IsWellFormed G p)
    (hsize : (Wire.snapshot g).length < UInt32.size) :
    Parses (snapshot p) (Wire.snapshot g) g := by
  obtain ⟨tier, memberCount, id, slots, key, expiry⟩ := g
  obtain ⟨hid, ⟨htier, scale, hs, hslots⟩, hkey⟩ := h
  obtain rfl : tier = id.tier := htier
  intro rest position
  simp only [Wire.snapshot, List.length_append, Bytes.length_ofUInt32, GroupId.length_toBytes,
    Wire.length_time] at hs hslots hsize ⊢
  simp only [List.append_assoc]
  rw [snapshot, get_bind, bind_of_ok (parses_uint32 _ _ _), bind_of_ok (parses_uint32 _ _ _),
    bind_of_ok (parses_groupId hid _ _), bind_of_ok (parses_time expiry _ _)]
  simp only [hs]
  rw [bind_of_ok (parses_bytes hslots _ _), bind_of_ok (parses_encryptionKey_of_mem hkey _ _),
    get_bind]
  simp only [Bytes.length_ofUInt32, GroupId.length_toBytes, Wire.length_time]
  rw [if_pos (by rw [UInt32.toNat_ofNat_of_lt' (by omega)]; omega)]
  show EStateM.Result.ok _ _ = _
  congr 2
  omega

theorem parses_entries {slot j : Nat} {zs : List (Option S.G1)}
    (hmem : ∀ x, some x ∈ zs → G.mem1 x)
    (hnone : ∀ k < zs.length, zs[k]? = some none ↔ j + k = slot) :
    Parses (entries slot j zs.length) (zs.flatMap fun z => (z.map Wire.point1).getD []) zs := by
  induction zs generalizing j with
  | nil => exact parses_pure []
  | cons z zs ih =>
    have hhead : z = none ↔ j = slot := by simpa using hnone 0 (by simp)
    have htail := ih (fun x hx => hmem x (List.mem_cons_of_mem _ hx)) (j := j + 1) fun k hk => by
      have h := hnone (k + 1) (by simpa using hk)
      rw [List.getElem?_cons_succ] at h
      rw [h]
      omega
    rw [List.length_cons, entries_succ, List.flatMap_cons]
    refine Parses.bind ?_ htail.map
    cases z with
    | none =>
      rw [if_pos (hhead.1 rfl)]
      exact parses_pure none
    | some x =>
      rw [if_neg fun hj => by simpa using hhead.2 hj]
      exact (parses_point1_of_mem G (hmem x List.mem_cons_self)).map

theorem parses_joinProof {proof : JoinProof S} (h : proof.IsWellFormed G p) :
    Parses (joinProof p) (Wire.joinProof proof) proof := by
  obtain ⟨keyId, tier, slot, group, u, z⟩ := proof
  obtain ⟨hgroup, ⟨scale, hs, hfits⟩, hu, hmem⟩ := h
  obtain ⟨hlength, hslot, hnone⟩ := JoinProof.fits_iff.1 hfits
  have htier : (UInt32.ofNat tier.toNat).toNat = tier.toNat :=
    UInt32.toNat_ofNat_of_lt' (Nat.lt_trans tier.toNat_lt (by decide))
  simp only [Wire.joinProof, List.append_assoc]
  refine (parses_uint32 keyId).bind ((parses_uint32 _).bind ((parses_uint32 slot).bind ?_))
  simp only at hs hslot hlength
  rw [htier, if_neg (Nat.not_le.2 tier.toNat_lt), UInt16.ofNat_toNat]
  simp only [hs]
  rw [if_neg (Nat.not_le.2 hslot)]
  refine (parses_groupId hgroup).bind ((parses_point2_of_mem G hu).bind ?_)
  subst hlength
  exact (parses_entries hmem (by simpa using hnone)).map

theorem parses_ciphertext {c : Ciphertext S} (h : c.IsWellFormed G)
    (hsize : (Wire.ciphertext c).length < UInt32.size) :
    Parses (ciphertext c.parts.length) (Wire.ciphertext c) c := by
  have hlength : c.messageLength < UInt32.size := by
    cases hparts : c.parts with
    | nil => simp [Ciphertext.messageLength, hparts]
    | cons part parts =>
      simp only [Wire.ciphertext, hparts, List.flatMap_cons, List.length_append] at hsize
      simp only [Ciphertext.messageLength, hparts]
      omega
  simp only [Wire.ciphertext, List.append_assoc]
  refine (parses_uint32 _).bind ((parses_point2_of_mem G h.c1).bind ?_)
  rw [UInt32.toNat_ofNat_of_lt' hlength]
  refine (parses_times fun part hpart => ?_).map
  exact (parses_point2_of_mem G (h.c2 part hpart)).bind (parses_bytes (h.c3 part hpart)).map

theorem parses_distribution {d : Distribution S} (h : d.IsWellFormed G)
    (hsize : (Wire.distribution d).length < UInt32.size) :
    Parses distribution (Wire.distribution d) d := by
  have hgroups : (d.groups.flatMap GroupId.toBytes).length = d.groups.length * GroupId.size := by
    rw [List.length_flatMap]
    simp
  simp only [Wire.distribution, List.length_append, hgroups, GroupId.size] at hsize
  simp only [Wire.distribution, List.append_assoc]
  refine (parses_uint32 _).bind ((parses_uint32 d.pid).bind
    ((parses_fingerprint d.fingerprint).bind ?_))
  rw [UInt32.toNat_ofNat_of_lt' (by omega), received_eq h.fingerprint]
  refine (parses_times fun g hg => parses_groupId (h.groups g hg)).bind ?_
  rw [← h.parts]
  exact (parses_ciphertext h.ciphertext (by omega)).map

end Records

end Read

namespace Message

variable {G : S.Subgroups} {p : Parameters S}

/-- **The payload of a well-formed message is read as that message**, to its end. -/
theorem payload_eq_ok {m : Message S} (h : m.IsWellFormed G p) (position : Nat) :
    Read.payload p m.kind ⟨m.payload, position⟩ =
      .ok m ⟨[], position + m.payload.length⟩ := by
  -- All kinds but the heartbeat are read whatever follows.
  have hparses (hread : Read.Parses (Read.payload p m.kind) m.payload m) :
      Read.payload p m.kind ⟨m.payload, position⟩ =
        .ok m ⟨[], position + m.payload.length⟩ := by
    simpa using hread [] position
  obtain ⟨hshape, hsize⟩ := h
  cases m with
  | heartbeat hb =>
    obtain ⟨hf, hgroups⟩ := hshape
    have hgroup : ∀ g ∈ hb.groups, Read.Parses (Read.snapshot p) (Wire.snapshot g) g := by
      intro g hg
      refine Read.parses_snapshot (hgroups g hg) (Nat.lt_of_le_of_lt ?_ hsize)
      refine Nat.le_trans ?_ (List.sublist_append_right _ _).length_le
      rw [List.length_flatMap]
      exact List.single_le_sum (by simp) _ (List.mem_map.2 ⟨g, hg, rfl⟩)
    have hne : ∀ g ∈ hb.groups, Wire.snapshot g ≠ [] := fun g _ => by
      simp [Wire.snapshot, Bytes.ofUInt32, Bytes.ofNatBE]
    have hlimit : hb.groups.length ≤ (hb.groups.flatMap Wire.snapshot).length := by
      have h := List.card_nsmul_le_sum (hb.groups.map fun g => (Wire.snapshot g).length) 1
        (by simpa [Nat.one_le_iff_ne_zero] using hne)
      rw [List.length_flatMap]
      simpa using h
    simp only [kind, payload, Read.payload]
    rw [List.append_assoc, Read.bind_of_ok (Read.parses_uint32 hb.seq _ _),
      Read.bind_of_ok (Read.parses_fingerprint hb.accepted _ _), Read.get_bind,
      Read.bind_of_ok (Read.untilEnd_eq_ok hgroup hne hlimit _), Read.received_eq hf]
    rw [List.length_append, List.length_append, ← Nat.add_assoc, ← Nat.add_assoc]
    rfl
  | heartbeatAck ack =>
    refine hparses ?_
    simp only [kind, payload, Read.payload, List.append_assoc]
    exact (Read.parses_phase ack.phase).bind ((Read.parses_uint32 ack.pid).bind
      (Read.parses_uint32 ack.seq).map)
  | notifyPosition a =>
    refine hparses ?_
    simp only [kind, payload, Read.payload, List.append_assoc]
    exact (Read.parses_groupId hshape).bind ((Read.parses_uint32 a.slot).bind
      (Read.parses_uint32 a.pid).map)
  | join j =>
    exact hparses ((Read.parses_uint32 j.pid).bind (Read.parses_joinProof hshape).map)
  | joinAck ack =>
    obtain ⟨hgroup, hshare, hkey⟩ := hshape
    refine hparses ?_
    simp only [kind, payload, Read.payload, List.append_assoc]
    exact (Read.parses_groupId hgroup).bind ((Read.parses_uint32 ack.slot).bind
      ((Read.parses_uint32 ack.keyId).bind ((Read.parses_point1_of_mem G hshare).bind
        (Read.parses_encryptionKey_of_mem hkey).map)))
  | keyEncapNotify r =>
    refine hparses ?_
    simp only [kind, payload, Read.payload, List.append_assoc]
    exact (Read.parses_uint32 r.pid).bind ((Read.parses_uint32 r.keyLength).bind
      (Read.parses_uint32 r.version).map)
  | keyEncap d => exact hparses (Read.parses_distribution hshape hsize).map
  | keyUpdate d => exact hparses (Read.parses_distribution hshape hsize).map
  | keyUpdateAck ack =>
    refine hparses ((Read.parses_uint32 ack.pid).bind ?_)
    have h := (Read.parses_fingerprint ack.fingerprint).map
      (f := fun f => keyUpdateAck (S := S) ⟨ack.pid, f⟩)
    rwa [Read.received_eq hshape] at h

theorem decode_of_payload {k : MessageKind} {taken : Bytes} {m : Message S}
    (hsize : taken.length < UInt32.size)
    (hread : ∀ position, Read.payload p k ⟨taken, position⟩ =
      .ok m ⟨[], position + taken.length⟩) :
    decode p (Bytes.ofUInt32 k.tag ++ Bytes.ofUInt32 (.ofNat taken.length) ++ taken) = .ok m := by
  unfold decode
  rw [EStateM.run, Cursor.ofBytes, List.append_assoc, Read.message,
    Read.bind_of_ok (Read.parses_kind k _ 0), Read.bind_of_ok (Read.parses_uint32 _ _ _),
    Read.get_bind]
  simp only
  rw [if_pos (UInt32.toNat_ofNat_of_lt' hsize), Read.bind_of_ok (hread _)]
  rfl

/-- **A message in shape is read from its frame**, unless its payload is too long for four bytes to
state the length. -/
theorem decode_encode {m : Message S} (h : m.IsShaped G p) :
    decode p m.encode =
      if m.payload.length < UInt32.size then .ok m
      else .error (.lengthMismatch (m.payload.length % UInt32.size) m.payload.length) := by
  by_cases hsize : m.payload.length < UInt32.size
  · rw [if_pos hsize]
    exact decode_of_payload hsize (payload_eq_ok ⟨h, hsize⟩)
  · have hdeclared : (UInt32.ofNat m.payload.length).toNat = m.payload.length % UInt32.size :=
      UInt32.toNat_ofNat'
    have hlt := Nat.mod_lt m.payload.length (show 0 < UInt32.size by decide)
    unfold decode
    rw [EStateM.run, Cursor.ofBytes, encode, List.append_assoc, Read.message,
      Read.bind_of_ok (Read.parses_kind m.kind _ 0), Read.bind_of_ok (Read.parses_uint32 _ _ _),
      Read.get_bind]
    simp only
    rw [if_neg hsize, hdeclared, if_neg (by omega)]
    rfl

/-- **Well-formed messages are read from their frames, and no others from any frame.** -/
theorem wellFormed_messages (G : S.Subgroups) (p : Parameters S) :
    (∀ m : Message S, m.IsWellFormed G p → decode p m.encode = .ok m) ∧
      ∀ (frame : Bytes) (m : Message S), decode p frame = .ok m → m.IsWellFormed G p := by
  refine ⟨fun m hm => ?_, fun frame m h => isWellFormed_of_decode G h⟩
  rw [decode_encode hm.shape, if_pos hm.length_payload]

/-- A join for the second slot of a group of two, with the entry of the first slot only. -/
def sampleJoinMessage : Message .sample :=
  .join ⟨1, ⟨0, 0, 1, .new 0 0 ⟨80⟩, Suite.sample.base2, [some Suite.sample.base1, none]⟩⟩

theorem wellFormed_messages_join :
    sampleJoinMessage.IsWellFormed (.all .sample) sampleSetup.1 ∧
      decode sampleSetup.1 sampleJoinMessage.encode = .ok sampleJoinMessage ∧
      ∀ m, decode sampleSetup.1 sampleJoinMessage.encode = .ok m →
        m.IsWellFormed (.all .sample) sampleSetup.1 := by
  have hscale : sampleSetup.1.scale 0 = .ok 2 :=
    (eq_ok_of_toOption (by decide +kernel)).trans (congrArg Except.ok (by decide +kernel))
  have hwf : sampleJoinMessage.IsWellFormed (.all .sample) sampleSetup.1 := by
    refine ⟨⟨rfl, ⟨2, hscale, ⟨rfl, by decide, rfl, ?_⟩⟩, trivial, fun _ _ => trivial⟩, ?_⟩
    · intro j hj hne
      obtain rfl : j = 0 := by
        have hslot : j ≠ 1 := hne
        omega
      rfl
    · decide +kernel
  obtain ⟨hread, honly⟩ := wellFormed_messages (.all .sample) sampleSetup.1
  exact ⟨hwf, hread _ hwf, fun m hm => honly _ m hm⟩

end Message

end GroupKey
