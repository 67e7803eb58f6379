import GroupKey.Proofs.Suite.Laws
import GroupKey.Proofs.Wire.Fields

/-!
# What frames tell of groups

The state of a group goes over the wire in heartbeats, in joins and in their acknowledgements. A
reader may refuse such a frame, but what it accepts is what was sent.

* `Read.Yields` — what it means to read nothing else than what was written.
* `yields_snapshot` — a snapshot is read as it was written, if its bitmap has the size of its tier.
* `groups_of_decode`, `joinAck_of_decode`, `join_of_decode` — the three messages.
-/

namespace GroupKey

theorem GroupId.ofBytes_toBytes (g : GroupId) : ofBytes g.toBytes = g := by
  have htag : g.toBytes.take 4 = Bytes.ofUInt32 g.tag := by
    rw [toBytes, List.append_assoc, List.append_assoc, List.take_left' (by simp)]
  have hseq : (g.toBytes.drop 4).take 2 = Bytes.ofUInt16 g.seq := by
    rw [toBytes, List.append_assoc, List.append_assoc, List.drop_left' (by simp),
      List.take_left' (by simp)]
  have htier : (g.toBytes.drop 6).take 2 = Bytes.ofUInt16 g.tier := by
    rw [toBytes, List.append_assoc, List.drop_left' (by simp), List.take_left' (by simp)]
  have hexpiry : (g.toBytes.drop 8).take 8 = Bytes.ofUInt64 g.expiry.micros := by
    rw [toBytes, List.drop_left' (by simp), List.take_of_length_le (by simp)]
  unfold ofBytes
  rw [htag, hseq, htier, hexpiry, Bytes.toNatBE_ofUInt32, Bytes.toNatBE_ofUInt16,
    Bytes.toNatBE_ofUInt16, Bytes.toNatBE_ofUInt64, UInt32.ofNat_toNat, UInt16.ofNat_toNat,
    UInt16.ofNat_toNat, UInt64.ofNat_toNat]

namespace Read

variable {S : Suite} {α β : Type}

/-! ## Nothing else than what was written -/

/-- If the reader accepts the bytes, whatever follows, it gives `a` and stops right behind them. -/
def Yields (read : Read α) (bytes : Bytes) (a : α) : Prop :=
  ∀ rest position b c, read ⟨bytes ++ rest, position⟩ = .ok b c →
    b = a ∧ c = ⟨rest, position + bytes.length⟩

theorem Parses.yields {read : Read α} {bytes : Bytes} {a : α} (h : Parses read bytes a) :
    Yields read bytes a := by
  intro rest position b c hb
  rw [h rest position] at hb
  obtain ⟨rfl, rfl⟩ := EStateM.Result.ok.inj hb
  exact ⟨rfl, rfl⟩

theorem Yields.bind {x : Read α} {f : α → Read β} {xs fs : Bytes} {a : α} {b : β}
    (hx : Yields x xs a) (hf : Yields (f a) fs b) : Yields (x >>= f) (xs ++ fs) b := by
  intro rest position b' c h
  obtain ⟨a', c₁, ha, hb⟩ := bind_eq_ok h
  rw [List.append_assoc] at ha
  obtain ⟨rfl, rfl⟩ := hx _ _ _ _ ha
  obtain ⟨hb', hc⟩ := hf _ _ _ _ hb
  refine ⟨hb', ?_⟩
  rw [hc, List.length_append, Nat.add_assoc]

theorem Yields.map {x : Read α} {f : α → β} {xs : Bytes} {a : α} (hx : Yields x xs a) :
    Yields (x >>= fun a => pure (f a)) xs (f a) := by
  have h := Yields.bind (f := fun a => pure (f a)) hx (parses_pure (f a)).yields
  rwa [List.append_nil] at h

theorem yields_throw (e : WireError) (a : α) : Yields (throw e) [] a := by
  intro rest position b c h
  rw [throw_apply] at h
  simp at h

theorem yields_get {f : Cursor → Read α} {bytes : Bytes} {a : α}
    (h : ∀ c, Yields (f c) bytes a) : Yields (get >>= f) bytes a := by
  intro rest position b c hb
  rw [get_bind] at hb
  exact h _ _ _ _ _ hb

theorem Yields.eq_of_nil {read : Read α} {bytes : Bytes} {a b : α} {position : Nat} {c : Cursor}
    (h : Yields read bytes a) (hb : read ⟨bytes, position⟩ = .ok b c) : b = a := by
  rw [← List.append_nil bytes] at hb
  exact (h _ _ _ _ hb).1

/-! ## Fields -/

theorem yields_groupId (g : GroupId) : Yields groupId g.toBytes g := by
  have h : Yields groupId (g.toBytes ++ []) g := by
    refine (parses_bytes g.length_toBytes).yields.bind ?_
    simp only [GroupId.ofBytes_toBytes]
    split
    · exact (parses_pure g).yields
    · exact yields_throw _ g
  rwa [List.append_nil] at h

theorem parses_prefixedExact {bs : Bytes} {n : Nat} (h : bs.length = n) (hn : n < UInt16.size) :
    Parses (prefixedExact n) (Wire.prefixed bs) bs := by
  have hlength : (UInt16.ofNat bs.length).toNat = bs.length :=
    UInt16.toNat_ofNat_of_lt' (h ▸ hn)
  have hprefixed : Parses prefixed (Wire.prefixed bs) bs :=
    (parses_uint16 _).bind (parses_bytes hlength.symm).map
  have hexact : Parses (prefixedExact n) (Wire.prefixed bs ++ []) bs := by
    refine hprefixed.bind ?_
    simp only [h, if_true]
    exact parses_pure bs
  rwa [List.append_nil] at hexact

section Points

variable (G : S.Subgroups)

theorem parses_point1_of_mem {x : S.G1} (hx : G.mem1 x) : Parses (point1 S) (Wire.point1 x) x := by
  have h : Parses (point1 S) (Wire.point1 x ++ []) x := by
    refine (parses_prefixedExact (G.length_write1 x hx) (by decide)).bind ?_
    simp only [G.read1?_write1 x hx]
    exact parses_pure x
  rwa [List.append_nil] at h

theorem parses_point2_of_mem {x : S.G2} (hx : G.mem2 x) : Parses (point2 S) (Wire.point2 x) x := by
  have h : Parses (point2 S) (Wire.point2 x ++ []) x := by
    refine (parses_prefixedExact (G.length_write2 x hx) (by decide)).bind ?_
    simp only [G.read2?_write2 x hx]
    exact parses_pure x
  rwa [List.append_nil] at h

variable [S.FaithfulPoints]

theorem parses_point1 (x : S.G1) : Parses (point1 S) (Wire.point1 x) x :=
  parses_point1_of_mem (.all S) trivial

theorem parses_point2 (x : S.G2) : Parses (point2 S) (Wire.point2 x) x :=
  parses_point2_of_mem (.all S) trivial

theorem parses_encryptionKey (k : EncryptionKey S) :
    Parses encryptionKey (Wire.encryptionKey k) k :=
  (parses_point2 k.lambda).bind (parses_point1 k.mu).map

end Points

end Read

/-! ## Snapshots -/

/-- The bitmap of the snapshot has the size of the tier that its name gives. -/
structure Snapshot.IsSized {S : Suite} (p : Parameters S) (g : Snapshot S) : Prop where
  tier : g.tier = g.id.tier
  length : ∀ scale, p.scale g.id.tier = .ok scale →
    g.slots.bytes.length = Bitmap.byteCount scale

namespace Read

variable {S : Suite} [S.FaithfulPoints] {p : Parameters S}

theorem yields_snapshot {g : Snapshot S} (h : g.IsSized p) :
    Yields (snapshot p) (Wire.snapshot g) g := by
  obtain ⟨tier, memberCount, id, slots, key, expiry⟩ := g
  obtain ⟨htier, hlength⟩ := h
  obtain rfl : tier = id.tier := htier
  unfold snapshot
  refine yields_get ?_
  intro start
  unfold Wire.snapshot
  simp only [List.append_assoc]
  refine (parses_uint32 _).yields.bind ((parses_uint32 _).yields.bind
    ((yields_groupId id).bind ((parses_time expiry).yields.bind ?_)))
  cases hs : p.scale id.tier with
  | error e => exact fun rest position b c hb => by simp [throw_apply] at hb
  | ok scale =>
    refine (parses_bytes (hlength scale hs)).yields.bind ?_
    rw [← List.append_nil (Wire.encryptionKey key)]
    refine (parses_encryptionKey key).yields.bind (yields_get ?_)
    intro c
    split
    · exact (parses_pure _).yields
    · exact yields_throw _ _

/-- Values that fill the input to its end are read one after the other. -/
theorem eq_of_untilEnd {α : Type} {read : Read α} {write : α → Bytes} {limit : Nat} {as bs : List α}
    (h : ∀ a ∈ as, Yields read (write a) a) (hwrite : ∀ a ∈ as, write a ≠ []) {position : Nat}
    {c : Cursor} (hb : untilEnd read limit ⟨as.flatMap write, position⟩ = .ok bs c)
    (hrest : c.rest = []) : bs = as := by
  induction limit generalizing as bs position with
  | zero =>
    obtain ⟨rfl, rfl⟩ := EStateM.Result.ok.inj hb
    cases as with
    | nil => rfl
    | cons a as => simp [hwrite a List.mem_cons_self] at hrest
  | succ limit ih =>
    unfold untilEnd at hb
    rw [get_bind] at hb
    cases as with
    | nil => exact pure_eq_ok hb
    | cons a as =>
      have hne : ¬((a :: as).flatMap write).isEmpty = true := by
        simp [hwrite a List.mem_cons_self]
      simp only [hne] at hb
      obtain ⟨a', c₁, ha, hb⟩ := bind_eq_ok hb
      rw [List.flatMap_cons] at ha
      obtain ⟨rfl, rfl⟩ := h a List.mem_cons_self _ _ _ _ ha
      obtain ⟨bs', c₂, hbs, hb⟩ := bind_eq_ok hb
      obtain ⟨rfl, rfl⟩ := EStateM.Result.ok.inj hb
      rw [ih (fun a ha => h a (List.mem_cons_of_mem _ ha))
        (fun a ha => hwrite a (List.mem_cons_of_mem _ ha)) hbs]

end Read

/-! ## Messages -/

namespace Message

variable {S : Suite} {p : Parameters S} {m' : Message S}

/-- **A join arrives with the group and the tier for which it was sent.** -/
theorem join_of_decode {join : Join S} (h : decode p (encode (.join join)) = .ok m') :
    ∃ join', m' = .join join' ∧ join'.proof.group = join.proof.group ∧
      join'.proof.tier = join.proof.tier := by
  obtain ⟨c, -, hpayload⟩ := payload_of_decode h
  simp only [kind, payload, Read.payload] at hpayload
  rw [Read.bind_of_ok (Read.parses_uint32 join.pid _ _)] at hpayload
  obtain ⟨proof, c₁, hproof, hpayload⟩ := Read.bind_eq_ok hpayload
  obtain ⟨rfl, rfl⟩ := EStateM.Result.ok.inj hpayload
  refine ⟨_, rfl, ?_⟩
  have htier : (UInt32.ofNat join.proof.tier.toNat).toNat = join.proof.tier.toNat :=
    UInt32.toNat_ofNat_of_lt' (Nat.lt_trans join.proof.tier.toNat_lt (by decide))
  simp only [Read.joinProof, Wire.joinProof, List.append_assoc] at hproof
  rw [Read.bind_of_ok (Read.parses_uint32 join.proof.keyId _ _),
    Read.bind_of_ok (Read.parses_uint32 _ _ _),
    Read.bind_of_ok (Read.parses_uint32 join.proof.slot _ _), htier,
    if_neg (Nat.not_le.2 join.proof.tier.toNat_lt), UInt16.ofNat_toNat] at hproof
  cases hs : p.scale join.proof.tier with
  | error e => simp [hs, Read.throw_apply] at hproof
  | ok scale =>
    simp only [hs] at hproof
    split at hproof
    · simp [Read.throw_apply] at hproof
    · obtain ⟨group, c₂, hgroup, hproof⟩ := Read.bind_eq_ok hproof
      obtain ⟨rfl, -⟩ := Read.yields_groupId join.proof.group _ _ _ _ hgroup
      obtain ⟨u, c₃, -, hproof⟩ := Read.bind_eq_ok hproof
      obtain ⟨z, c₄, -, hproof⟩ := Read.bind_eq_ok hproof
      obtain rfl := Read.pure_eq_ok hproof
      exact ⟨rfl, rfl⟩

variable [S.FaithfulPoints]

/-- **A heartbeat tells of the groups as they were sent.** -/
theorem groups_of_decode {hb : Heartbeat S} (hsized : ∀ g ∈ hb.groups, g.IsSized p)
    (h : decode p (encode (.heartbeat hb)) = .ok m') :
    ∃ hb', m' = .heartbeat hb' ∧ hb'.groups = hb.groups := by
  obtain ⟨c, hrest, hpayload⟩ := payload_of_decode h
  simp only [kind, payload, Read.payload] at hpayload
  rw [List.append_assoc, Read.bind_of_ok (Read.parses_uint32 hb.seq _ _),
    Read.bind_of_ok (Read.parses_fingerprint hb.accepted _ _), Read.get_bind] at hpayload
  obtain ⟨groups, c₁, hgroups, hpayload⟩ := Read.bind_eq_ok hpayload
  obtain ⟨rfl, rfl⟩ := EStateM.Result.ok.inj hpayload
  refine ⟨_, rfl, ?_⟩
  exact Read.eq_of_untilEnd (fun g hg => Read.yields_snapshot (hsized g hg))
    (fun g _ => by simp [Wire.snapshot, Bytes.ofUInt32, Bytes.ofNatBE]) hgroups hrest

/-- **An acknowledgement arrives as it was sent.** -/
theorem joinAck_of_decode {ack : JoinAck S} (h : decode p (encode (.joinAck ack)) = .ok m') :
    m' = .joinAck ack := by
  obtain ⟨c, -, hpayload⟩ := payload_of_decode h
  refine Read.Yields.eq_of_nil ?_ hpayload
  simp only [kind, payload, Read.payload, List.append_assoc]
  exact (Read.yields_groupId ack.group).bind ((Read.parses_uint32 ack.slot).yields.bind
    ((Read.parses_uint32 ack.keyId).yields.bind ((Read.parses_point1 ack.share).yields.bind
      (Read.parses_encryptionKey ack.key).yields.map)))

end Message

end GroupKey
